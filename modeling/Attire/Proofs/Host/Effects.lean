import Attire.Proofs.Host.Reachable
import Mathlib

namespace Attire

open Machine Workspace

/-! Methods that are neither `mutating` nor `mutating this` change nothing that there was. -/

/-- The same entity, but for the random stream of an object. -/
def Entity.Redrawn : Entity → Entity → Prop
  | .object stored, after => ∃ random, after = .object { stored with random }
  | stored, after => after = stored

/-- What there was is as it was, but for the random streams of objects.  There may be more
entities, more identifiers may have been minted, and more method tables may be kept. -/
structure Machine.Undisturbed (before after : Machine) : Prop where
  cells {address : Nat} {cell : Cell} : before.heap.cells[address]? = some cell →
    ∃ cell', after.heap.cells[address]? = some cell' ∧ cell'.id = cell.id ∧
      cell.entity.Redrawn cell'.entity
  classes : after.classes = before.classes
  depth : after.depth = before.depth
  tick : after.tick = before.tick
  callLimit : after.callLimit = before.callLimit

theorem Cell.redrawn_of_settled {cell cell' : Cell} (h : cell'.settled = cell.settled) :
    cell'.id = cell.id ∧ cell.entity.Redrawn cell'.entity := by
  obtain ⟨id, entity⟩ := cell
  obtain ⟨id', entity'⟩ := cell'
  cases entity <;> cases entity' <;> simp only [settled, mk.injEq, Entity.object.injEq,
    reduceCtorEq, and_false] at h
  case object.object object object' =>
    refine ⟨h.1, object'.random, ?_⟩
    have hsame := congrArg (fun settled : Object => { settled with random := object'.random }) h.2
    exact congrArg Entity.object hsame
  all_goals exact h

theorem Machine.Retains.undisturbed {before after : Machine}
    (h : before.Retains before.heap.size after) (hclasses : after.classes = before.classes)
    (hdepth : after.depth = before.depth) : before.Undisturbed after where
  cells {address cell} hcell := by
    have hcells := h.cells address (Array.getElem?_eq_some_iff.mp hcell).1
    rw [hcell, Option.map_some] at hcells
    obtain ⟨cell', hcell', hsettled⟩ := Option.map_eq_some_iff.mp hcells
    exact ⟨cell', hcell', Cell.redrawn_of_settled hsettled⟩
  classes := hclasses
  depth := hdepth
  tick := h.tick
  callLimit := h.callLimit

/-- Whether it ends in an answer or in an error, the run changes nothing that there was. -/
def Machine.Preserves {α : Type} (machine : Machine) (action : Run α) : Prop :=
  Yields action machine (fun _ after => machine.Undisturbed after)
    fun halt after => ∀ error, halt = .error error → machine.Undisturbed after

namespace Workspace

variable {workspace : Workspace}

theorem Sound.undisturbed (h : workspace.Sound) {stage : Stage} {after : Machine}
    (hle : workspace.stage ≤ stage) (hfits : h.plain.Fits stage after) :
    workspace.machine.Undisturbed after :=
  hfits.retains.undisturbed hfits.sound.registry (hfits.depth.trans hle.1.symm)

theorem Sound.preserves (h : workspace.Sound) {α : Type} {action : Run α}
    {post : Stage → Machine → α → Prop}
    (hsafe : h.plain.regime.Safe workspace.stage action workspace.machine post) :
    workspace.machine.Preserves action := by
  refine Yields.imp hsafe ?_ ?_
  · exact fun _ _ ⟨_, hle, hfits, _⟩ => h.undisturbed hle hfits
  · exact fun _ _ herror error heq =>
      let ⟨_, _, hle, hfits⟩ := herror error heq
      h.undisturbed hle hfits

/-- Methods without permission to mutate, and initializers of fields, change nothing that there
was, whatever they call. -/
theorem plain_preserves {options : Options} {sources : Sources}
    (h : Reachable options sources workspace) {target caller : Value} {args : List Value}
    (htarget : workspace.machine.Knows target) (hcaller : workspace.machine.Knows caller)
    (hargs : ∀ arg ∈ args, workspace.machine.Knows arg) (steps : Nat) :
    (∀ cls sig ret, workspace.machine.classes.Declares cls sig → sig.mutating = false →
      sig.mutatingThis = false →
      workspace.machine.Preserves (dispatch steps target sig.slot caller args ret)) ∧
    ∀ routine, workspace.machine.classes.Initializes routine →
      workspace.machine.Preserves (invoke steps routine target caller args) := by
  have hkeeps := h.sound.plain.discipline.keeps steps
  refine ⟨fun cls sig ret hsig hmutating hthis => ?_, fun routine hroutine => ?_⟩
  · exact h.sound.preserves (hkeeps.dispatch h.sound.plain_fits
      ⟨cls, sig, hsig, rfl, hmutating, hthis⟩ htarget hcaller hargs)
  · exact h.sound.preserves (hkeeps.invoke h.sound.plain_fits
      (h.sound.plain.backed.initializer hroutine) htarget hcaller hargs)

/-! A host that imports one class and makes an object of it. -/

def diceText : String :=
  "[\"module\",[[[\"copyright\",\x7b\"text\":\"\"\x7d]," ++
  "[\"license\",\x7b\"text\":\"\"\x7d]," ++ "[\"class\",[\"Object\",[],false,[" ++
  "[\"field\",[\"lucky\",[\"bool\",null]," ++ "[\"bool\",\x7b\"value\":true\x7d]]]," ++
  "[\"method\",[\"roll\",[],[\"num\",null]," ++ "false,false,false," ++
  "[[\"return\",\x7b\"value\":[\"random\",null]\x7d]]]]]]]]]]"

def diceTree : ModuleTree where
  declarations := [.copyright "" {}, .license "" {}, .cls {
    name := "Object"
    members := [
      .field { name := "lucky", ty := .bool, init := some (.mk none (.bool true)) },
      .method { name := "roll", ret := .num, body := [.return (some (.mk none .random)) {}] }] }]

def diceSources : Sources := Table.insert ∅ "weft:core" (.ok diceText)

theorem dice_fetch {url text : String} (h : diceSources.fetch url = .ok text) :
    url = "weft:core" := by
  by_contra hne
  have hmissing : diceSources.get? url = none := Table.get?_insert_of_ne ∅ _ hne
  rw [Sources.fetch, hmissing] at h
  cases h

def rollSig : MethodSig where
  owner := ⟨0⟩
  name := "roll"
  params := []
  ret := .num
  mutating := false
  mutatingThis := false

set_option maxRecDepth 100000 in
theorem dice_tree : ModuleTree.ofText? diceText = some diceTree := by
  unfold ModuleTree.ofText? Json.ofText? diceText
  simp only [String.toList_append]
  cbv

set_option maxRecDepth 100000 in
theorem first_die :
    (firstObject? diceSources diceTree 9 ⟨0⟩).map (fun (ref, after) =>
      (ref, after.heap.outline.cells, (after.classes.get? ⟨0⟩).map fun found =>
        (found.ownMethods, found.initializers.keys))) =
    some (⟨0, ⟨0⟩⟩, [(⟨0⟩, .object)], some ([rollSig], ["lucky"])) := by
  cbv

theorem dice_reachable : ∃ workspace ref, Reachable {} diceSources workspace ∧
    workspace.machine.Knows (.object ref) ∧ workspace.machine.classes.Declares ⟨0⟩ rollSig ∧
    ∃ routine, workspace.machine.classes.Initializes routine := by
  obtain ⟨⟨ref, after⟩, hdie, hafter⟩ := Option.map_eq_some_iff.mp first_die
  simp only [Prod.mk.injEq] at hafter
  obtain ⟨rfl, hcells, hclass⟩ := hafter
  obtain ⟨found, hfound, hmembers⟩ := Option.map_eq_some_iff.mp hclass
  obtain ⟨hmethods, hinitializers⟩ := Prod.mk.inj hmembers
  obtain ⟨workspace, hreachable, rfl⟩ := reachable_firstObject rfl dice_tree rfl hdie
  refine ⟨workspace, ⟨0, ⟨0⟩⟩, hreachable, ?_, ⟨found, hfound, ?_⟩, ?_⟩
  · show workspace.machine.heap.outline.cells[0]? = some (⟨0⟩, .object)
    rw [hcells]
    rfl
  · rw [hmethods]
    exact List.mem_singleton_self _
  · have hlucky : "lucky" ∈ found.initializers.keys := by
      rw [hinitializers]
      exact List.mem_singleton_self _
    obtain ⟨⟨name, routine⟩, hentry, -⟩ := List.mem_map.mp hlucky
    exact ⟨routine, ⟨0⟩, found, name, hfound, hentry⟩

theorem roll_preserves : ∃ workspace ref routine, Reachable {} diceSources workspace ∧
    workspace.machine.Knows (.object ref) ∧ workspace.machine.classes.Declares ⟨0⟩ rollSig ∧
    workspace.machine.classes.Initializes routine ∧ ∀ steps,
      workspace.machine.Preserves (dispatch steps (.object ref) rollSig.slot .null [] .num) ∧
      workspace.machine.Preserves (invoke steps routine (.object ref) .null []) := by
  obtain ⟨workspace, ref, hreachable, href, hroll, routine, hroutine⟩ := dice_reachable
  refine ⟨workspace, ref, routine, hreachable, href, hroll, hroutine, fun steps => ?_⟩
  have hcaller : workspace.machine.Knows .null := trivial
  have hargs : ∀ arg ∈ ([] : List Value), workspace.machine.Knows arg := nofun
  have hplain := plain_preserves hreachable href hcaller hargs steps
  exact ⟨hplain.1 ⟨0⟩ rollSig .num hroll rfl rfl, hplain.2 routine hroutine⟩

end Workspace

end Attire

namespace Attire.Workspace

/-! Bodies that pass the checks compile, in modules of every workspace that hosts bring about. -/

variable {options : Options} {sources : Sources} {workspace : Workspace}

/-- The notes of the checker are all that the compilation looks for, as long as the fabrics that
can be named have values; and those of a module and of the modules that it names always have. -/
theorem checked_compiles (h : Reachable options sources workspace) :
    (∀ (ctx : CheckContext) (fabrics : Fabrics), ctx.Provides fabrics →
      ∀ (className : String) (cls : ClassId),
        (∀ sig decl answer, ctx.checkMethod cls sig decl = .ok answer →
          ∃ routine, lowerMethod fabrics className sig answer = .ok routine) ∧
        ∀ ty decl answer, ctx.checkInitializer cls ty decl = .ok answer →
          ∃ routine, lowerInitializer fabrics className answer ty = .ok routine) ∧
    ∀ url error next, importModule url workspace = .error error next →
      ∀ fault cause, error ≠ .lowering fault cause := by
  refine ⟨fun ctx fabrics hfabrics className cls => ⟨?_, ?_⟩, fun url error next himport => ?_⟩
  · exact fun sig decl answer hcheck => lowerMethod_ok className hfabrics hcheck
  · exact fun ty decl answer hcheck => lowerInitializer_ok className hfabrics hcheck
  · exact ((importModule_leads url h.sound).of_error himport).2.informed

/-! A method that gives a fabric away. -/

def bannerContext : CheckContext where
  classes := {}
  names := ⟨{}, ({} : SymbolTable).defineNonlocal "BANNER" (.fabric ⟨⟨0⟩, 0⟩) {}⟩
  rootClass := none
  clonableClass := none

def bannerSig : MethodSig where
  owner := ⟨0⟩
  name := "banner"
  params := []
  ret := .array .text
  mutating := false
  mutatingThis := false

def bannerDecl : MethodDecl where
  name := "banner"
  ret := .array .text
  body := [.return (some (.mk none (.name ["BANNER"]))) {}]

theorem banner_compiles : ∃ workspace answer routine, Reachable {} diceSources workspace ∧
    bannerContext.Provides (fun _ => some (.array ⟨0, ⟨0⟩⟩)) ∧
    bannerContext.checkMethod ⟨0⟩ bannerSig bannerDecl = .ok answer ∧
    lowerMethod (fun _ => some (.array ⟨0, ⟨0⟩⟩)) "Herald" bannerSig answer = .ok routine := by
  obtain ⟨workspace, -, hreachable, -⟩ := dice_reachable
  have hfabrics : bannerContext.Provides (fun _ => some (.array ⟨0, ⟨0⟩⟩)) :=
    fun _ _ _ => ⟨_, rfl⟩
  have hcheck : bannerContext.checkMethod ⟨0⟩ bannerSig bannerDecl = .ok { bannerDecl with
      body := [.return (some ((Form.name ["BANNER"]).notedAs (.array .text) (.fabric ⟨⟨0⟩, 0⟩)))
        {}] } := by
    cbv
  obtain ⟨routine, hroutine⟩ :=
    (((checked_compiles hreachable).1 _ _ hfabrics "Herald" ⟨0⟩).1 _ _ _ hcheck)
  exact ⟨workspace, _, routine, hreachable, hfabrics, hcheck, hroutine⟩

end Attire.Workspace

namespace Attire

open Machine Workspace

/-! What objects and kept method tables say agrees with the registry. -/

theorem Heap.object?_of_names {heap : Heap} {ref : Ref}
    (h : heap.outline.Names (.object ref)) : ∃ object, heap.object? ref = some object := by
  simp only [Outline.Names, outline, List.getElem?_map, Array.getElem?_toList] at h
  obtain ⟨cell, hcell, hkind⟩ := Option.map_eq_some_iff.mp h
  cases hentity : cell.entity with
  | object object =>
    exact ⟨object, object?_eq_some.mpr (entity?_eq_some.mpr ⟨cell, hcell, hentity⟩)⟩
  | _ => simp [hentity, Entity.kind] at hkind

namespace Workspace

variable {workspace : Workspace} {options : Options} {sources : Sources}

/-- Whatever hosts do, and however it ends, objects are what they wear. -/
theorem objects_coherent (h : Reachable options sources workspace) {ref : Ref} {object : Object}
    (hobject : workspace.machine.heap.object? ref = some object) :
    object.Coherent workspace.machine.classes :=
  (h.sound.running.object_sound hobject).object rfl

theorem die_coherent : ∃ workspace ref object, Reachable {} diceSources workspace ∧
    workspace.machine.heap.object? ref = some object ∧
    object.Coherent workspace.machine.classes := by
  obtain ⟨workspace, ref, hreachable, href, -⟩ := dice_reachable
  obtain ⟨object, hobject⟩ := Heap.object?_of_names href
  exact ⟨workspace, ref, object, hreachable, hobject, objects_coherent hreachable hobject⟩

/-- Every table that the run asks for is what would be built anew, and so is in the end every table
that is kept. -/
def Serves {α : Type} (workspace : Workspace) (action : Run α) : Prop :=
  let serves (after : Machine) : Prop :=
    (∃ asked, workspace.machine.tables.Serves workspace.machine.classes asked after.tables) ∧
      after.tables.Transparent workspace.machine.classes
  Yields action workspace.machine (fun _ after => serves after)
    fun halt after => ∀ error, halt = .error error → serves after

/-- The cache of method tables shows in nothing: what is kept is what would be built anew under the
registry as it is, also after classes were dropped and their numbers used again, and so are the
answers to all requests. -/
theorem tables_transparent (h : Reachable options sources workspace) :
    workspace.machine.tables.Transparent workspace.machine.classes ∧
    (∀ manifest, (∀ cls ∈ manifest, workspace.machine.classes.contains cls) →
      (workspace.machine.tables.request workspace.machine.classes manifest).1.methods =
        workspace.machine.classes.methodsOf manifest) ∧
    ∀ {α : Type} {action : Run α}, workspace.machine.Offers action → workspace.Serves action := by
  have htables := h.sound.running.tables
  refine ⟨htables, fun manifest hmanifest =>
    (TableCache.request_transparent htables hmanifest).1, fun hoffers => ?_⟩
  have hserves : ∀ after, workspace.Replaces after →
      (∃ asked, workspace.machine.tables.Serves workspace.machine.classes asked after.tables) ∧
        after.tables.Transparent workspace.machine.classes :=
    fun after hreplaces => ⟨hreplaces.served, hreplaces.sound.tables⟩
  exact (h.sound.keeps_offers hoffers).imp (fun _ after => hserves after)
    fun _ after herror error heq => hserves after (herror error heq)

theorem die_tables : ∃ workspace ref, Reachable {} diceSources workspace ∧
    workspace.machine.tables.Transparent workspace.machine.classes ∧
    ∀ steps, workspace.Serves (dispatch steps (.object ref) rollSig.slot .null [] .num) ∧
      workspace.Serves (extend steps ref ⟨0⟩) := by
  obtain ⟨workspace, ref, hreachable, href, -⟩ := dice_reachable
  obtain ⟨htransparent, -, hserves⟩ := tables_transparent hreachable
  refine ⟨workspace, ref, hreachable, htransparent, fun steps => ⟨?_, ?_⟩⟩
  · exact hserves (.dispatch steps _ _ href trivial nofun)
  · exact hserves (.extend steps _ href)

end Workspace

end Attire
