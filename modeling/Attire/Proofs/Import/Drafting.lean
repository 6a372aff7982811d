import Attire.Proofs.Import.Workspace

namespace Attire

open Workspace

/-! Naming what a module declares. -/

theorem Workspace.yields_orFail {α ε : Type} {wrap : ε → ImportError} {result : Except ε α}
    {workspace : Workspace} {ok : α → Workspace → Prop} {err : ImportError → Workspace → Prop}
    (hok : ∀ value, result = .ok value → ok value workspace)
    (herr : ∀ cause, result = .error cause → err (wrap cause) workspace) :
    Yields (orFail wrap result) workspace ok err := by
  cases result with
  | ok value => exact hok value rfl
  | error cause => exact herr cause rfl

/-- The compilation found every note that it looked for. -/
def ImportError.Informed (error : ImportError) : Prop := ∀ url cause, error ≠ .lowering url cause

/-- A module fails for a fault of its own, and can be taken back. -/
structure Workspace.Breaks (base : Workspace) (error : ImportError) (workspace : Workspace) : Prop
    extends base.Amid workspace where
  informed : error.Informed
  acyclic : ∀ chain, error ≠ .cycle chain

/-- What a module that is being built has named so far. -/
structure ModuleDraft.Outlined (base : Workspace) (url : String) (draft : ModuleDraft)
    (workspace : Workspace) : Prop extends base.Amid workspace where
  composed : workspace.machine.classes.Composed
  id : draft.id = base.modules.nextId
  address : draft.url = url
  privileged : draft.privileged = base.options.isPrivileged url
  fresh {cls : ClassId} : workspace.machine.classes.contains cls →
    base.machine.classes.contains cls ∨ cls ∈ draft.classes.map Prod.fst
  present : ∀ cls ∈ draft.classes.map Prod.fst, workspace.machine.classes.contains cls
  nodup : (draft.classes.map Prod.fst).Nodup
  recorded : ∀ entry ∈ draft.classes,
    workspace.machine.classes.Records draft.id url entry.2.name entry.1
  listed : ∀ entry ∈ draft.classes,
    workspace.machine.classes.find? (ClassRegistry.qualifiedName url entry.2.name) = some entry.1
  symbols : draft.symbols.All
    (Target.Stands base.modules workspace.machine.classes (draft.fabric? base.modules))
  exports : ExportTable.All draft.exports
    (Target.Stands base.modules workspace.machine.classes (draft.fabric? base.modules))
  main {cls : ClassId} : draft.main = some cls → workspace.machine.classes.contains cls
  fabrics : ∀ value ∈ draft.fabrics,
    ∃ ref, value = .array ref ∧ workspace.machine.heap.outline.Names value

/-- Its classes are declared, but have no members yet. -/
structure ModuleDraft.Drafted (base : Workspace) (url : String) (tree : ModuleTree)
    (draft : ModuleDraft) (workspace : Workspace) : Prop extends
    draft.Outlined base url workspace where
  blank : ∀ entry ∈ draft.classes, base.machine.classes.contains entry.1 = false ∧
    ∃ found, workspace.machine.classes.get? entry.1 = some found ∧ found.Blank ∧
      found.bodies.entries = [] ∧ found.initializers.entries = []
  declared : ∀ entry ∈ draft.classes, Decl.cls entry.2 ∈ tree.declarations
  ownsNames : ∀ entry ∈ draft.classes, draft.symbols.Owns entry.2.name

namespace ModuleDraft

variable {base workspace : Workspace} {tree : ModuleTree} {draft next : ModuleDraft}
variable {url name : String} {target : Target} {span : Span} {exported : Bool}

theorem get?_nextId (modules : ModuleRegistry) : modules.get? modules.nextId = none :=
  Array.getElem?_eq_none (le_refl _)

theorem fabric?_of_modules (hid : draft.id = base.modules.nextId) {id : FabricId} {value : Value}
    (h : base.modules.fabric? id = some value) : draft.fabric? base.modules id = some value := by
  have hne : id.module ≠ draft.id := by
    intro heq
    obtain ⟨module, hmodule, -⟩ := Option.bind_eq_some_iff.mp h
    rw [heq, hid, get?_nextId] at hmodule
    cases hmodule
  rw [ModuleDraft.fabric?, if_neg hne, h]

/-- The names that the module sees so far lead to what there is. -/
theorem Outlined.scope (h : draft.Outlined base url workspace) (hbase : base.Sound) :
    (draft.scope base.modules).All
      (Target.Stands base.modules workspace.machine.classes (draft.fabric? base.modules)) where
  symbols := h.symbols
  exports hmodule entry hmem := ((hbase.modules hmodule).exports entry hmem).mono
    (fun _ _ h => h) (fun _ => h.classes.contains) fun _ _ => fabric?_of_modules h.id

theorem addLocal_eq_ok (h : draft.addLocal name target span = .ok next) :
    ∃ symbols, draft.symbols.defineLocal? name target span = some symbols ∧
      next = { draft with symbols } := by
  unfold addLocal at h
  split at h
  case h_1 symbols hsymbols =>
    cases h
    exact ⟨symbols, hsymbols, rfl⟩
  case h_2 => cases h

theorem Drafted.addLocal (h : draft.Drafted base url tree workspace)
    (htarget : target.Stands base.modules workspace.machine.classes (draft.fabric? base.modules))
    (hadd : draft.addLocal name target span = .ok next) : next.Drafted base url tree workspace := by
  obtain ⟨symbols, hsymbols, rfl⟩ := addLocal_eq_ok hadd
  obtain ⟨-, -, howns⟩ := SymbolTable.owns_defineLocal hsymbols
  exact { h with
    symbols := h.symbols.defineLocal htarget hsymbols
    ownsNames := fun entry hmem => howns _ (h.ownsNames entry hmem) }

theorem Drafted.exportIf (h : draft.Drafted base url tree workspace)
    (htarget : target.Stands base.modules workspace.machine.classes (draft.fabric? base.modules)) :
    (draft.exportIf exported name target).Drafted base url tree workspace := by
  unfold ModuleDraft.exportIf
  split
  · exact { h with exports := h.exports.insert htarget }
  · exact h

theorem Drafted.addNames (h : draft.Drafted base url tree workspace) (hbase : base.Sound)
    {decl : Decl} (hadd : draft.addNames base.modules decl = .ok next) :
    next.Drafted base url tree workspace := by
  cases decl with
  | «alias» name path exported span =>
    obtain ⟨target, htarget, hadd⟩ := bind_eq_ok.mp hadd
    obtain ⟨middle, hmiddle, hadd⟩ := bind_eq_ok.mp hadd
    cases hadd
    have hstands := (h.scope hbase).resolve (mapError_eq_ok.mp htarget)
    obtain ⟨symbols, -, rfl⟩ := addLocal_eq_ok hmiddle
    exact (h.addLocal hstands hmiddle).exportIf hstands
  | wildcard path span =>
    obtain ⟨source, hsource, hadd⟩ := bind_eq_ok.mp hadd
    cases hadd
    obtain ⟨module, hmodule⟩ := (h.scope hbase).resolveModule (mapError_eq_ok.mp hsource)
    refine { h with
      symbols := h.symbols.defineExports fun entry hmem => ?_
      ownsNames := fun entry hmem => (h.ownsNames entry hmem).defineExports }
    rw [hmodule] at hmem
    exact (h.scope hbase).exports hmodule entry hmem
  | _ =>
    cases hadd
    exact h

theorem Drafted.addMain (h : draft.Drafted base url tree workspace) (hbase : base.Sound)
    {decl : Decl} (hadd : draft.addMain base.modules decl = .ok next) :
    next.Drafted base url tree workspace := by
  cases decl with
  | main path span =>
    rw [ModuleDraft.addMain] at hadd
    split at hadd
    case isTrue => cases hadd
    case isFalse =>
      obtain ⟨cls, hcls, hadd⟩ := bind_eq_ok.mp hadd
      cases hadd
      have hstands := (h.scope hbase).resolveClass (mapError_eq_ok.mp hcls)
      exact { h with main := by rintro _ ⟨⟩; exact hstands }
  | _ =>
    cases hadd
    exact h

section

variable {cls : ClassDecl} (hunnamed : base.sources.Unambiguous → ∀ other found,
  base.machine.classes.get? other = some found →
    found.qualifiedName ≠ ClassRegistry.qualifiedName url cls.name)
include hunnamed

/-- A class that is declared can be taken back. -/
theorem Drafted.amid_declare (h : draft.Drafted base url tree workspace) :
    base.Amid { workspace with machine := { workspace.machine with
      classes := (workspace.machine.classes.declare cls.name draft.url draft.id cls.span).2 } } :=
  { h.toAmid with
    classes := h.classes.trans ClassRegistry.declare_extends
    named := h.named.declare
    spares := fun hsources => (h.spares hsources).declare (h.address ▸ hunnamed hsources) }

/-- A class that is declared is registered without members. -/
theorem Drafted.declareClass (h : draft.Drafted base url tree workspace)
    (hdecl : Decl.cls cls ∈ tree.declarations) :
    let answer := workspace.machine.classes.declare cls.name draft.url draft.id cls.span
    ModuleDraft.addLocal { draft with classes := draft.classes ++ [(answer.1, cls)] } cls.name
        (.cls answer.1) cls.span = .ok next →
      let workspace := { workspace with machine := { workspace.machine with classes := answer.2 } }
      next.Drafted base url tree workspace ∧ Target.Stands base.modules workspace.machine.classes
        (next.fabric? base.modules) (.cls answer.1) := by
  intro answer hadd
  obtain ⟨symbols, hsymbols, rfl⟩ := addLocal_eq_ok hadd
  obtain ⟨hunowned, hownsNew, hownsOld⟩ := SymbolTable.owns_defineLocal hsymbols
  have hextends : workspace.machine.classes.Extends answer.2 := ClassRegistry.declare_extends
  have hcontains : ∀ other, workspace.machine.classes.contains other → answer.2.contains other :=
    fun _ => hextends.contains
  have hnew : answer.2.get? ⟨workspace.machine.classes.size⟩ = some _ :=
    (ClassRegistry.get?_declare _).trans (if_pos rfl)
  have hunused : ¬workspace.machine.classes.contains answer.1 := by
    rw [Bool.not_eq_true]
    exact decide_eq_false (Nat.lt_irrefl _)
  have hstands : ∀ {target : Target}, target.Stands base.modules workspace.machine.classes
      (draft.fabric? base.modules) →
      target.Stands base.modules answer.2 (draft.fabric? base.modules) :=
    fun htarget => htarget.mono (fun _ _ h => h) hcontains fun _ _ h => h
  have hstandsNew : Target.Stands base.modules answer.2 (draft.fabric? base.modules)
      (.cls answer.1) := ClassRegistry.contains_iff.mpr ⟨_, hnew⟩
  have hfind : ∀ other, answer.2.find? other =
      if other = ClassRegistry.qualifiedName url cls.name then some answer.1
      else workspace.machine.classes.find? other :=
    h.address ▸ ClassRegistry.find?_declare
  refine ⟨?_, hstandsNew⟩
  constructor
  case toOutlined =>
    refine { h with
      toAmid := h.amid_declare hunnamed
      composed := ClassRegistry.declare_composed h.composed
      fresh := fun {other} hother => ?_
      present := fun other hmem => ?_
      nodup := ?_
      recorded := fun entry hmem => ?_
      listed := fun entry hmem => ?_
      symbols := (h.symbols.imp fun _ => hstands).defineLocal hstandsNew hsymbols
      exports := fun entry hmem => hstands (h.exports entry hmem)
      main := fun hmain => hcontains _ (h.main hmain) }
    · obtain ⟨found, hfound⟩ := ClassRegistry.contains_iff.mp hother
      rw [ClassRegistry.get?_declare] at hfound
      split at hfound
      case isTrue heq =>
        refine .inr ?_
        have hsame : other = answer.1 := congrArg ClassId.mk heq
        simp [hsame]
      case isFalse =>
        refine (h.fresh (ClassRegistry.contains_iff.mpr ⟨found, hfound⟩)).imp_right fun hmem => ?_
        simp only [List.map_append, List.mem_append]
        exact .inl hmem
    · rw [List.map_append, List.mem_append] at hmem
      rcases hmem with hmem | hmem
      · exact hcontains other (h.present other hmem)
      · obtain rfl := List.mem_singleton.mp hmem
        exact ClassRegistry.contains_iff.mpr ⟨_, hnew⟩
    · rw [List.map_append, List.nodup_append]
      refine ⟨h.nodup, List.nodup_singleton _, fun other hmem another hmem' => ?_⟩
      obtain rfl := List.mem_singleton.mp hmem'
      rintro rfl
      exact hunused (h.present _ hmem)
    · rcases List.mem_append.mp hmem with hmem | hmem
      · exact hextends.outlines.records (h.recorded entry hmem)
      · obtain rfl := List.mem_singleton.mp hmem
        exact ⟨_, hnew, rfl, rfl, congrArg (ClassRegistry.qualifiedName · cls.name) h.address⟩
    · rw [hfind]
      rcases List.mem_append.mp hmem with hmem | hmem
      · rw [if_neg, h.listed entry hmem]
        intro heq
        have hname : entry.2.name = cls.name := ClassRegistry.qualifiedName_right heq
        exact hunowned (hname ▸ h.ownsNames entry hmem)
      · obtain rfl := List.mem_singleton.mp hmem
        exact if_pos rfl
  case blank =>
    intro entry hmem
    rcases List.mem_append.mp hmem with hmem | hmem
    · obtain ⟨hold, found, hfound, hrest⟩ := h.blank entry hmem
      exact ⟨hold, found, hextends _ _ hfound, hrest⟩
    · obtain rfl := List.mem_singleton.mp hmem
      refine ⟨?_, _, hnew, ⟨rfl, rfl, rfl, rfl, rfl⟩, rfl, rfl⟩
      rw [← Bool.not_eq_true]
      exact fun hold => hunused (h.classes.contains hold)
  case declared =>
    intro entry hmem
    rcases List.mem_append.mp hmem with hmem | hmem
    · exact h.declared entry hmem
    · obtain rfl := List.mem_singleton.mp hmem
      exact hdecl
  case ownsNames =>
    intro entry hmem
    rcases List.mem_append.mp hmem with hmem | hmem
    · exact hownsOld _ (h.ownsNames entry hmem)
    · obtain rfl := List.mem_singleton.mp hmem
      exact hownsNew

end

theorem yields_weave {lines : List String} {ok : Value → Workspace → Prop}
    {err : ImportError → Workspace → Prop} :
    Yields (Workspace.weave lines) workspace ok err ↔
      let fresh := workspace.machine.heap.alloc workspace.machine.odometer.peek
        (.array (lines.map Value.text).toArray)
      ok (.array fresh.1) { workspace with machine := { workspace.machine with
        odometer := workspace.machine.odometer.next.2
        heap := fresh.2 } } :=
  Iff.rfl

/-- A fabric that is declared becomes an array. -/
theorem Drafted.weave (h : draft.Drafted base url tree workspace) (lines : List String) :
    Yields (Workspace.weave lines) workspace
      (fun value next =>
        let drafted := { draft with fabrics := draft.fabrics ++ [value] }
        drafted.Drafted base url tree next ∧ Target.Stands base.modules next.machine.classes
          (drafted.fabric? base.modules) (.fabric ⟨draft.id, draft.fabrics.length⟩))
      base.Breaks := by
  refine yields_weave.mpr ?_
  have hstored : (Entity.array (lines.map Value.text).toArray).Sound base.machine.classes
      workspace.machine.heap.outline := by
    refine Entity.sound_array fun item hmem => ?_
    obtain ⟨line, -, rfl⟩ := List.mem_map.mp hmem
    trivial
  obtain ⟨hle, hrunning⟩ := h.running.alloc workspace.machine.odometer.peek hstored
  generalize hvalue : (workspace.machine.heap.alloc workspace.machine.odometer.peek
    (.array (lines.map Value.text).toArray)) = fresh at hle hrunning ⊢
  have hnames : fresh.2.outline.Names (.array fresh.1) := by
    subst hvalue
    simp [Outline.Names, Heap.outline, Heap.alloc, Heap.size, Entity.kind]
  have hfabrics : ∀ id value, draft.fabric? base.modules id = some value →
      ModuleDraft.fabric? { draft with fabrics := draft.fabrics ++ [.array fresh.1] } base.modules
        id = some value := by
    intro id value hfabric
    unfold ModuleDraft.fabric? at hfabric ⊢
    split at hfabric
    case isTrue heq =>
      rw [if_pos heq]
      have hlt := (List.getElem?_eq_some_iff.mp hfabric).1
      rw [List.getElem?_append_left hlt, hfabric]
    case isFalse hne => rw [if_neg hne, hfabric]
  have hstands := fun (target : Target) (htarget : target.Stands base.modules
      workspace.machine.classes (draft.fabric? base.modules)) =>
    htarget.mono (fun _ _ h => h) (fun _ h => h) hfabrics
  refine ⟨{ h with
    outline := h.outline.trans hle
    running := hrunning.congr rfl rfl rfl
    symbols := h.symbols.imp hstands
    exports := fun entry hmem => hstands _ (h.exports entry hmem)
    fabrics := fun value hmem => ?_ }, .array fresh.1, ?_⟩
  · rcases List.mem_append.mp hmem with hmem | hmem
    · obtain ⟨ref, rfl, hold⟩ := h.fabrics value hmem
      exact ⟨ref, rfl, hold.mono hle⟩
    · obtain rfl := List.mem_singleton.mp hmem
      exact ⟨fresh.1, rfl, hnames⟩
  · rw [ModuleDraft.fabric?, if_pos rfl]
    simp

theorem Drafted.declare (h : draft.Drafted base url tree workspace) (hbase : base.Sound)
    (hpending : base.modules.find? url = none)
    (hsource : ∀ decl, Decl.cls decl ∈ tree.declarations → base.sources.DeclaresAt url decl)
    {decl : Decl} (hdecl : decl ∈ tree.declarations) :
    Yields (Workspace.declare draft decl) workspace
      (fun next workspace => next.Drafted base url tree workspace) base.Breaks := by
  unfold Workspace.declare
  cases decl with
  | cls cls =>
    have hunnamed : base.sources.Unambiguous → ∀ other found,
        base.machine.classes.get? other = some found →
        found.qualifiedName ≠ ClassRegistry.qualifiedName url cls.name :=
      fun hsources other found => hbase.unnamed hsources hpending (hsource cls hdecl)
    refine yields_bind.mpr (yields_modifyGet.mpr (yields_bind.mpr (yields_orFail ?_ ?_)))
    · intro next hnext
      obtain ⟨hdrafted, hstands⟩ := h.declareClass hunnamed hdecl hnext
      exact yields_pure.mpr (hdrafted.exportIf hstands)
    · exact fun _ _ => ⟨h.amid_declare hunnamed, nofun, nofun⟩
  | fabric fabric =>
    dsimp only
    split
    case isTrue => exact yields_throw.mpr ⟨h.toAmid, nofun, nofun⟩
    case isFalse =>
      refine yields_bind.mpr ((h.weave fabric.lines).imp ?_ fun _ _ h => h)
      rintro value workspace' ⟨hdrafted, hstands⟩
      refine yields_bind.mpr (yields_orFail ?_ fun _ _ => ⟨hdrafted.toAmid, nofun, nofun⟩)
      intro next hnext
      refine yields_pure.mpr ?_
      obtain ⟨symbols, -, rfl⟩ := addLocal_eq_ok hnext
      exact (hdrafted.addLocal hstands hnext).exportIf hstands
  | _ => exact yields_pure.mpr h

end ModuleDraft

end Attire
