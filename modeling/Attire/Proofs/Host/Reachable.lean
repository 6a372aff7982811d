import Attire.Engine
import Attire.Proofs.Import.History
import Attire.Proofs.Snapshot.Rebuilding

namespace Attire

open Machine

/-! Workspaces that hosts bring about. -/

/-- The value only mentions what there is. -/
def Machine.Knows (machine : Machine) (value : Value) : Prop :=
  value.Known machine.classes machine.heap.outline

/-- The routine is installed for a method or for the initializer of a field. -/
def ClassRegistry.Has (classes : ClassRegistry) (routine : Routine) : Prop :=
  (∃ slot, classes.Installed slot routine) ∨ classes.Initializes routine

/-- What a host may do with a machine.  Values that it passes were made by the machine. -/
inductive Machine.Offers (machine : Machine) : {α : Type} → Run α → Prop
  | advanceTick : Offers machine advanceTick
  | mint : Offers machine mint
  | drawRandom (ref : Ref) : Offers machine (drawRandom ref)
  | defaultValue (constructed : Bool) (ty : Ty) : Offers machine (defaultValue constructed ty)
  | newArray {items : Array Value} : (∀ item ∈ items.toList, machine.Knows item) →
      Offers machine (newArray items)
  | newMap : Offers machine newMap
  | newSet : Offers machine newSet
  | newSuggestion {steps : List Step} : machine.Knows (.suggestion machine.suggestions steps) →
      Offers machine (newSuggestion steps)
  | cloneValue {value : Value} : machine.Knows value → Offers machine (cloneValue value)
  | replaceItems {ref : Ref} {items : Array Value} : (∀ item ∈ items.toList, machine.Knows item) →
      Offers machine (onHeap fun heap => heap.modifyArray ref fun _ => items)
  | putElement {container index value : Value} {kind : IndexKind} : machine.Knows index →
      machine.Knows value →
      Offers machine (onHeap fun heap => heap.putElement container kind index value)
  | addElement {container value : Value} : machine.Knows value →
      Offers machine (onHeap fun heap => heap.addElement container value)
  | removeElement {container : Value} {key : MapKey} :
      Offers machine (onHeap fun heap => heap.removeElement container key)
  | instantiate (steps : Nat) (cls : ClassId) : Offers machine (instantiate steps cls)
  | extend (steps : Nat) {ref : Ref} (cls : ClassId) : machine.Knows (.object ref) →
      Offers machine (extend steps ref cls)
  | retract (steps : Nat) {ref : Ref} (cls : ClassId) : machine.Knows (.object ref) →
      Offers machine (retract steps ref cls)
  | enforce (steps : Nat) {stamp : Nat} {batch : List Step} :
      machine.Knows (.suggestion stamp batch) → Offers machine (enforce steps batch)
  | invoke (steps : Nat) {routine : Routine} {this caller : Value} {args : List Value} :
      machine.classes.Has routine → machine.Knows this → machine.Knows caller →
      (∀ arg ∈ args, machine.Knows arg) → Offers machine (invoke steps routine this caller args)
  | dispatch (steps : Nat) {target caller : Value} {args : List Value} (slot : MethodSlot)
      (ret : Ty) : machine.Knows target → machine.Knows caller →
      (∀ arg ∈ args, machine.Knows arg) →
      Offers machine (dispatch steps target slot caller args ret)
  | call (steps : Nat) {ref : Ref} {caller : Value} {args : List Value} (name : String) :
      machine.Knows (.object ref) → machine.Knows caller → (∀ arg ∈ args, machine.Knows arg) →
      Offers machine (call steps ref name caller args)
  | restore (steps : Nat) (snapshot : Snapshot) : Offers machine (restore steps snapshot)

namespace Workspace

/-- What imports and operations lead to, whether they succeed or fail. -/
inductive Reachable (options : Options) (sources : Sources) : Workspace → Prop
  | start : Reachable options sources (ofSources options sources)
  | imported {workspace next : Workspace} {url : String} {id : ModuleId} :
      Reachable options sources workspace → importModule url workspace = .ok id next →
      Reachable options sources next
  | refused {workspace next : Workspace} {url : String} {error : ImportError} :
      Reachable options sources workspace → importModule url workspace = .error error next →
      Reachable options sources next
  | answered {workspace : Workspace} {α : Type} {action : Run α} {answer : α} {machine : Machine} :
      Reachable options sources workspace → workspace.machine.Offers action →
      action workspace.machine = .ok answer machine →
      Reachable options sources { workspace with machine }
  | failed {workspace : Workspace} {α : Type} {action : Run α} {error : RuntimeError}
      {machine : Machine} :
      Reachable options sources workspace → workspace.machine.Offers action →
      action workspace.machine = .error (.error error) machine →
      Reachable options sources { workspace with machine }

theorem sound_ofSources (options : Options) (sources : Sources) :
    (ofSources options sources).Sound where
  composed := {
    id := nofun
    parents := by simp [ofSources, ClassRegistry.parents, ClassRegistry.get?]
    acyclic := by
      rintro cls hpath
      obtain ⟨parent, hparent, -⟩ := Relation.TransGen.head'_iff.mp hpath
      simp [ofSources, ClassRegistry.parents, ClassRegistry.get?] at hparent
    method := nofun
    introduced := by
      rintro cls sig ⟨found, hfound, -⟩
      cases hfound
    field := nofun
    methodNames := nofun
    fieldNames := nofun
    built := nofun }
  named := nofun
  compiled := {
    body := nofun
    initializer := nofun
    complete := nofun
    distinct := nofun
    written := by
      rintro cls sig ⟨found, hfound, -⟩
      cases hfound
    stored := nofun }
  running := ⟨rfl, rfl, ⟨nofun, nofun⟩, nofun⟩
  owned := nofun
  modules := nofun
  numbered := nofun
  located := nofun
  recorded := nofun
  indexed _ := nofun
  byUrl := nofun

variable {workspace next : Workspace} {machine : Machine}

/-- Runs of all programs. -/
def Sound.full (h : workspace.Sound) : Footing where
  classes := workspace.machine.classes
  before := workspace.machine
  floor := 0
  permit := workspace.machine.classes.full workspace.machine.heap.outline
  backed := ClassRegistry.full_backed h.composed h.compiled
  floor_le := Nat.zero_le _
  floor_of_write _ := rfl

/-- Runs of programs that change nothing. -/
def Sound.plain (h : workspace.Sound) : Footing where
  classes := workspace.machine.classes
  before := workspace.machine
  floor := workspace.machine.heap.size
  permit := workspace.machine.classes.plain workspace.machine.heap.outline
  backed := ClassRegistry.plain_backed h.composed h.compiled
  floor_le := le_refl _
  floor_of_write := nofun

def stage (workspace : Workspace) : Stage :=
  ⟨workspace.machine.depth, workspace.machine.heap.outline⟩

theorem Sound.full_fits (h : workspace.Sound) : h.full.Fits workspace.stage workspace.machine :=
  ⟨h.running, rfl, le_refl _, .refl _ _, [], .start⟩

theorem Sound.plain_fits (h : workspace.Sound) : h.plain.Fits workspace.stage workspace.machine :=
  ⟨h.running, rfl, le_refl _, .refl _ _, [], .start⟩

theorem Sound.within_of_has (h : workspace.Sound) {routine : Routine}
    (hroutine : workspace.machine.classes.Has routine) : routine.Within h.full.permit := by
  rcases hroutine with ⟨slot, hinstalled⟩ | hinitializes
  · exact h.full.backed.body trivial hinstalled
  · exact h.full.backed.initializer hinitializes

/-- The machine may take the place of the workspace's own. -/
structure Replaces (workspace : Workspace) (machine : Machine) : Prop where
  sound : machine.Sound workspace.machine.classes machine.heap.outline
  outline : workspace.machine.heap.outline ≤ machine.heap.outline
  depth : machine.depth = workspace.machine.depth
  callLimit : machine.callLimit = workspace.machine.callLimit
  served : ∃ asked, workspace.machine.tables.Serves workspace.machine.classes asked machine.tables

theorem Sound.replaces_refl (h : workspace.Sound) : workspace.Replaces workspace.machine :=
  ⟨h.running, le_refl _, rfl, rfl, [], .start⟩

theorem replaces_of_fits {footing : Footing} (hclasses : footing.classes = workspace.machine.classes)
    (hbefore : footing.before = workspace.machine) {stage : Stage} (hle : workspace.stage ≤ stage)
    (hfits : footing.Fits stage machine) : workspace.Replaces machine where
  sound := by
    rw [hfits.sound.layout]
    exact hclasses ▸ hfits.sound
  outline := by
    rw [hfits.sound.layout]
    exact hle.2
  depth := hfits.depth.trans hle.1.symm
  callLimit := hbefore ▸ hfits.retains.callLimit
  served := by
    rw [← hclasses, ← hbefore]
    exact hfits.served

theorem Sound.replaces (h : workspace.Sound) {stage : Stage} (hle : workspace.stage ≤ stage)
    (hfits : h.full.Fits stage machine) : workspace.Replaces machine :=
  replaces_of_fits rfl rfl hle hfits

/-- Workspaces stay sound with any other sound machine of the same classes and of more entities. -/
theorem Sound.with_machine (h : workspace.Sound)
    (hmachine : machine.Sound workspace.machine.classes machine.heap.outline)
    (houtline : workspace.machine.heap.outline ≤ machine.heap.outline) :
    Sound { workspace with machine } := by
  have hclasses : machine.classes = workspace.machine.classes := hmachine.registry
  constructor
  case composed => exact hclasses ▸ h.composed
  case named => exact hclasses ▸ h.named
  case compiled =>
    dsimp only
    rw [hclasses]
    exact h.compiled.congr (.refl _) (.refl _) ⟨rfl, rfl, id, houtline⟩
  case running => exact hclasses ▸ hmachine
  case owned => exact hclasses ▸ h.owned
  case modules =>
    intro id module hmodule
    dsimp only
    rw [hclasses]
    exact (h.modules hmodule).mono (fun _ _ h => h) (fun _ h => h) houtline
  case numbered => exact h.numbered
  case located => exact h.located
  case recorded => exact hclasses ▸ h.recorded
  case indexed => exact hclasses ▸ h.indexed
  case byUrl => exact h.byUrl

theorem Replaces.sound_workspace (h : workspace.Replaces machine) (hsound : workspace.Sound) :
    Sound { workspace with machine } :=
  hsound.with_machine h.sound h.outline

theorem Replaces.leads {start : Workspace} (h : workspace.Replaces machine)
    (hsound : workspace.Sound) (hleads : start.Leads workspace) :
    start.Leads { workspace with machine } := by
  have hclasses : machine.classes = workspace.machine.classes := h.sound.registry
  refine .kept hleads (h.sound_workspace hsound) ⟨rfl, rfl, ?_, fun _ _ h => h, h.outline⟩ rfl ?_
  · exact hclasses ▸ .refl _
  · exact hclasses ▸ .refl _

/-- What an operation of a host promises. -/
def Keeps {α : Type} (workspace : Workspace) (action : Run α) : Prop :=
  Yields action workspace.machine (fun _ machine => workspace.Replaces machine)
    fun halt machine => ∀ error, halt = .error error → workspace.Replaces machine

theorem Sound.keeps (h : workspace.Sound) {α : Type} {action : Run α}
    {post : Stage → Machine → α → Prop}
    (hsafe : h.full.regime.lenient.Safe workspace.stage action workspace.machine post) :
    workspace.Keeps action := by
  refine Yields.imp hsafe ?_ ?_
  · exact fun _ _ ⟨_, hle, hfits, _⟩ => h.replaces hle hfits
  · exact fun _ _ herror error heq =>
      let ⟨_, _, hle, hfits⟩ := herror error heq
      h.replaces hle hfits

theorem Sound.keeps_fail (h : workspace.Sound) {α : Type} {error : RuntimeError} :
    workspace.Keeps (fail error : Run α) :=
  fun _ _ => h.replaces_refl

theorem Sound.keeps_exhausted {α : Type} : workspace.Keeps (exhausted : Run α) := by
  rintro error ⟨⟩

theorem Sound.keeps_unknown (h : workspace.Sound) {cls : ClassId}
    (hcls : ¬workspace.machine.classes.contains cls) (steps : Nat) (ref : Ref) :
    workspace.Keeps (Machine.instantiate steps cls) ∧
      workspace.Keeps (Machine.extend steps ref cls) := by
  cases steps with
  | zero => exact ⟨keeps_exhausted, keeps_exhausted⟩
  | succ steps =>
    constructor
    · unfold Machine.instantiate
      refine yields_bind.mpr (yields_get.mpr ?_)
      rw [if_neg hcls]
      exact h.keeps_fail
    · unfold Machine.extend
      refine yields_bind.mpr (yields_get.mpr ?_)
      rw [if_neg hcls]
      exact h.keeps_fail

theorem Sound.keeps_dispatch (h : workspace.Sound) (steps : Nat) {target caller : Value}
    {args : List Value} (slot : MethodSlot) (ret : Ty) (htarget : workspace.machine.Knows target)
    (hcaller : workspace.machine.Knows caller) (hargs : ∀ arg ∈ args, workspace.machine.Knows arg) :
    workspace.Keeps (dispatch steps target slot caller args ret) :=
  h.keeps ((h.full.discipline.keeps steps).dispatch h.full_fits trivial htarget hcaller
    hargs).lenient

theorem Sound.keeps_call (h : workspace.Sound) (steps : Nat) {ref : Ref} {caller : Value}
    {args : List Value} (name : String) (href : workspace.machine.Knows (.object ref))
    (hcaller : workspace.machine.Knows caller) (hargs : ∀ arg ∈ args, workspace.machine.Knows arg) :
    workspace.Keeps (Machine.call steps ref name caller args) := by
  unfold Machine.call
  refine yields_bind.mpr (yields_get.mpr ?_)
  split
  case h_1 => exact h.keeps_fail
  case h_2 sig _ =>
    split
    case isTrue => exact h.keeps_fail
    case isFalse => exact h.keeps_dispatch steps sig.slot sig.ret href hcaller hargs

/-- Whatever a host does, machines stay sound. -/
theorem Sound.keeps_offers (h : workspace.Sound) {α : Type} {action : Run α}
    (hoffers : workspace.machine.Offers action) : workspace.Keeps action := by
  have hfits := h.full_fits
  have hkeeps := h.full.discipline.keeps
  have hfloor : ∀ ref : Ref, h.full.floor ≤ ref.address := fun _ => Nat.zero_le _
  cases hoffers with
  | advanceTick =>
    exact yields_modifyGet.mpr ⟨h.running.congr rfl rfl rfl, le_refl _, rfl, rfl, [], .start⟩
  | mint | newSuggestion =>
    exact yields_modifyGet.mpr ⟨h.running.congr rfl rfl rfl, le_refl _, rfl, rfl, [], .start⟩
  | drawRandom ref => exact h.keeps (Footing.safe_random hfits).lenient
  | defaultValue constructed ty =>
    exact h.keeps (h.full.discipline.safe_defaultValue constructed ty hfits).lenient
  | newArray hitems => exact h.keeps (Footing.safe_newArray hfits hitems).lenient
  | newMap => exact h.keeps (h.full.discipline.newMap_safe hfits).lenient
  | newSet => exact h.keeps (h.full.discipline.newSet_safe hfits).lenient
  | cloneValue hvalue => exact h.keeps (Footing.safe_clone hfits hvalue).lenient
  | replaceItems hitems =>
    exact h.keeps (Footing.safe_onHeap (hfits.modify (hfloor _)
      (hfits.sound.modifyArray fun _ _ => hitems))).lenient
  | putElement hindex hvalue =>
    exact h.keeps (Footing.safe_putElement hfits trivial hindex hvalue).lenient
  | addElement hvalue => exact h.keeps (Footing.safe_addElement hfits trivial hvalue).lenient
  | removeElement => exact h.keeps (Footing.safe_removeElement hfits trivial).lenient
  | instantiate steps cls =>
    by_cases hcls : workspace.machine.classes.contains cls
    · exact h.keeps ((hkeeps steps).instantiate hfits hcls).lenient
    · exact (h.keeps_unknown hcls steps default).1
  | extend steps cls href =>
    by_cases hcls : workspace.machine.classes.contains cls
    · exact h.keeps ((hkeeps steps).extend hfits trivial hcls href).lenient
    · exact (h.keeps_unknown hcls steps _).2
  | retract steps cls href => exact h.keeps ((hkeeps steps).retract hfits trivial href).lenient
  | enforce steps hbatch =>
    exact h.keeps ((hkeeps steps).enforce hfits trivial
      (Discipline.admits_suggestion.mp hbatch)).lenient
  | invoke steps hroutine hthis hcaller hargs =>
    exact h.keeps ((hkeeps steps).invoke hfits (h.within_of_has hroutine) hthis hcaller
      hargs).lenient
  | dispatch steps slot ret htarget hcaller hargs =>
    exact h.keeps_dispatch steps slot ret htarget hcaller hargs
  | call steps name href hcaller hargs => exact h.keeps_call steps name href hcaller hargs
  | restore steps snapshot => exact h.keeps (Footing.safe_restore h.named hfits steps snapshot)

theorem Reachable.sound {options : Options} {sources : Sources}
    (h : Reachable options sources workspace) : workspace.Sound := by
  induction h with
  | start => exact sound_ofSources options sources
  | imported _ himport ih => exact ((importModule_sound _ ih).of_ok himport).1
  | refused _ himport ih => exact ((importModule_sound _ ih).of_error himport).1
  | answered _ hoffers hrun ih => exact ((ih.keeps_offers hoffers).of_ok hrun).sound_workspace ih
  | failed _ hoffers hrun ih =>
    exact ((ih.keeps_offers hoffers).of_error hrun _ rfl).sound_workspace ih

/-- What a host does to the machine between two imports leaves the modules and their classes as they
are. -/
theorem Reachable.leads {options : Options} {sources : Sources}
    (h : Reachable options sources workspace) : (ofSources options sources).Leads workspace := by
  induction h with
  | start => exact .refl
  | imported hreachable himport ih =>
    exact ih.trans ((importModule_leads _ hreachable.sound).of_ok himport).1
  | refused hreachable himport ih =>
    exact ih.trans ((importModule_leads _ hreachable.sound).of_error himport).1
  | answered hreachable hoffers hrun ih =>
    exact ((hreachable.sound.keeps_offers hoffers).of_ok hrun).leads hreachable.sound ih
  | failed hreachable hoffers hrun ih =>
    exact ((hreachable.sound.keeps_offers hoffers).of_error hrun _ rfl).leads hreachable.sound ih

/-! Hosts that import a core module and make an object of one of its classes. -/

/-- Where a run arrives, if it ends in an answer. -/
def reached? {ε σ α : Type} (run : EStateM ε σ α) (state : σ) : Option (α × σ) :=
  match run state with
  | .ok answer state => some (answer, state)
  | .error _ _ => none

theorem reached?_eq_some {ε σ α : Type} {run : EStateM ε σ α} {state next : σ} {answer : α} :
    reached? run state = some (answer, next) ↔ run state = .ok answer next := by
  unfold reached?
  cases run state <;> simp

theorem importModule_eq_ok {url text : String} {tree : ModuleTree} {notes : List String × String}
    {draft : ModuleDraft} {built : Workspace} (hfind : workspace.modules.find? url = none)
    (hfetch : workspace.sources.fetch url = .ok text) (htree : ModuleTree.ofText? text = some tree)
    (hnotices : notices url tree = .ok notes)
    (hbuild : build (importBelow workspace.sources.size [url]) url tree workspace =
      .ok draft built) :
    ∃ id next, importModule url workspace = .ok id next ∧ next.machine = built.machine := by
  have hyields : Yields (importModule url) workspace
      (fun _ next => next.machine = built.machine) fun _ _ => False := by
    unfold importModule importBelow
    simp only [yields_bind, yields_get, hfind, List.not_mem_nil, if_false, hfetch, htree, hnotices,
      orFail, yields_pure, yields_tryCatch]
    unfold Yields
    rw [List.nil_append, hbuild]
    rfl
  cases hrun : importModule url workspace with
  | ok id next => exact ⟨id, next, rfl, hyields.of_ok hrun⟩
  | error error next => exact (hyields.of_error hrun).elim

/-- The object, and the machine after it is made. -/
def firstObject? (sources : Sources) (tree : ModuleTree) (steps : Nat) (cls : ClassId) :
    Option (Ref × Machine) :=
  (reached? (build (importBelow sources.size ["weft:core"]) "weft:core" tree)
    (ofSources {} sources)).bind fun (_, built) =>
      reached? (Machine.instantiate steps cls) built.machine

theorem imported_of_firstObject {sources : Sources} {text : String} {tree : ModuleTree}
    {notes : List String × String} {steps : Nat} {cls : ClassId} {ref : Ref}
    (hfetch : sources.fetch "weft:core" = .ok text) (htree : ModuleTree.ofText? text = some tree)
    (hnotices : notices "weft:core" tree = .ok notes)
    (hobject : firstObject? sources tree steps cls = some (ref, machine)) :
    ∃ id next, importModule "weft:core" (ofSources {} sources) = .ok id next ∧
      Machine.instantiate steps cls next.machine = .ok ref machine := by
  obtain ⟨⟨draft, built⟩, hbuilt, hmade⟩ := Option.bind_eq_some_iff.mp hobject
  obtain ⟨id, next, himport, hmachine⟩ :=
    importModule_eq_ok rfl hfetch htree hnotices (reached?_eq_some.mp hbuilt)
  refine ⟨id, next, himport, ?_⟩
  rw [hmachine]
  exact reached?_eq_some.mp hmade

/-- The workspace in which the object is not made yet. -/
theorem reachable_imported {sources : Sources} {text : String} {tree : ModuleTree}
    {notes : List String × String} {steps : Nat} {cls : ClassId} {ref : Ref}
    (hfetch : sources.fetch "weft:core" = .ok text) (htree : ModuleTree.ofText? text = some tree)
    (hnotices : notices "weft:core" tree = .ok notes)
    (hobject : firstObject? sources tree steps cls = some (ref, machine)) :
    ∃ workspace, Reachable {} sources workspace ∧ workspace.machine.classes = machine.classes ∧
      Machine.instantiate steps cls workspace.machine = .ok ref machine := by
  obtain ⟨id, next, himport, hrun⟩ := imported_of_firstObject hfetch htree hnotices hobject
  have hreachable : Reachable {} sources next := .imported .start himport
  have hreplaces := (hreachable.sound.keeps_offers (.instantiate steps cls)).of_ok hrun
  exact ⟨next, hreachable, hreplaces.sound.registry.symm, hrun⟩

theorem reachable_firstObject {sources : Sources} {text : String} {tree : ModuleTree}
    {notes : List String × String} {steps : Nat} {cls : ClassId} {ref : Ref}
    (hfetch : sources.fetch "weft:core" = .ok text) (htree : ModuleTree.ofText? text = some tree)
    (hnotices : notices "weft:core" tree = .ok notes)
    (hobject : firstObject? sources tree steps cls = some (ref, machine)) :
    ∃ workspace, Reachable {} sources workspace ∧ workspace.machine = machine := by
  obtain ⟨workspace, hreachable, -, hrun⟩ := reachable_imported hfetch htree hnotices hobject
  exact ⟨_, .answered hreachable (.instantiate steps cls) hrun, rfl⟩

end Workspace

end Attire
