import Attire.Proofs.Import.Moves
import Attire.Proofs.Typing.Casts

namespace Attire

/-! Imports make an array of the lines of every fabric that a module declares. -/

def Decl.fabric? : Decl → Option FabricDecl
  | .fabric decl => some decl
  | _ => none

/-- The value is an array that holds the lines of the fabric, in order. -/
def Heap.Holds (heap : Heap) (fabric : FabricDecl) (value : Value) : Prop :=
  ∃ ref, value = .array ref ∧ heap.array? ref = some (fabric.lines.map Value.text).toArray

/-- The values are the fabrics that the declarations declare, in order. -/
def Heap.Weaves (heap : Heap) (decls : List Decl) (fabrics : List Value) : Prop :=
  List.Forall₂ heap.Holds (decls.filterMap Decl.fabric?) fabrics

theorem Heap.Weaves.mono {heap later : Heap} {decls : List Decl} {fabrics : List Value}
    (h : heap.Weaves decls fabrics)
    (hkept : ∀ ref items, heap.array? ref = some items → later.array? ref = some items) :
    later.Weaves decls fabrics :=
  h.imp fun _ _ ⟨ref, hvalue, hitems⟩ => ⟨ref, hvalue, hkept ref _ hitems⟩

/-- The second heap has arrays of texts after what the first one holds. -/
def Heap.Spins (heap later : Heap) : Prop :=
  ∃ spun : Array Cell, later.cells = heap.cells ++ spun ∧
    ∀ cell ∈ spun, ∃ lines : List String, cell.entity = .array (lines.map Value.text).toArray

/-- The value is an array that the second heap has and the first one does not. -/
def Value.Spun (heap later : Heap) (value : Value) : Prop :=
  ∃ ref, value = .array ref ∧ heap.size ≤ ref.address ∧ ref.address < later.size

namespace Heap.Spins

variable {heap later last : Heap} {value : Value}

theorem refl (heap : Heap) : heap.Spins heap := ⟨#[], by simp, nofun⟩

theorem trans (h : heap.Spins later) (h' : later.Spins last) : heap.Spins last := by
  obtain ⟨spun, hspun, htexts⟩ := h
  obtain ⟨spun', hspun', htexts'⟩ := h'
  refine ⟨spun ++ spun', by rw [hspun', hspun, Array.append_assoc], fun cell hmem => ?_⟩
  exact (Array.mem_append.mp hmem).elim (htexts cell) (htexts' cell)

theorem alloc (id : Id) (lines : List String) :
    heap.Spins (heap.alloc id (.array (lines.map Value.text).toArray)).2 :=
  ⟨#[⟨id, .array (lines.map Value.text).toArray⟩], by simp [Heap.alloc], by simp⟩

theorem size_le (h : heap.Spins later) : heap.size ≤ later.size := by
  obtain ⟨spun, hspun, -⟩ := h
  simp [Heap.size, hspun]

theorem spun_mono (h : later.Spins last) (hvalue : value.Spun heap later) : value.Spun heap last := by
  obtain ⟨ref, rfl, hfresh, hlt⟩ := hvalue
  exact ⟨ref, rfl, hfresh, hlt.trans_le h.size_le⟩

theorem spun_of_later (h : heap.Spins later) (hvalue : value.Spun later last) :
    value.Spun heap last := by
  obtain ⟨ref, rfl, hfresh, hlt⟩ := hvalue
  exact ⟨ref, rfl, h.size_le.trans hfresh, hlt⟩

end Heap.Spins

theorem Heap.Grows.array? {heap later : Heap} (h : heap.Grows later) (ref : Ref)
    (items : Array Value) (hitems : heap.array? ref = some items) :
    later.array? ref = some items :=
  Heap.array?_eq_some.mpr (h ref _ (Heap.array?_eq_some.mp hitems))

namespace Workspace

variable {workspace next : Workspace}

/-- The fabrics of every registered module hold the lines that its source declares. -/
def Woven (workspace : Workspace) : Prop :=
  ∀ (id : ModuleId) (module : Module), workspace.modules.get? id = some module →
    ∃ text tree, workspace.sources.fetch module.url = .ok text ∧
      ModuleTree.ofText? text = some tree ∧
      workspace.machine.heap.Weaves tree.declarations module.fabrics

theorem Woven.mono (h : workspace.Woven) (hmodules : next.modules = workspace.modules)
    (hsources : next.sources = workspace.sources)
    (hkept : ∀ ref items, workspace.machine.heap.array? ref = some items →
      next.machine.heap.array? ref = some items) : next.Woven := by
  intro id module hmodule
  obtain ⟨text, tree, hfetch, htree, hweaves⟩ := h id module (hmodules ▸ hmodule)
  exact ⟨text, tree, hsources ▸ hfetch, htree, hweaves.mono hkept⟩

/-- What there is stays as it is, new fabrics are new arrays, and fabrics hold their lines if they
did. -/
structure Weaving (workspace next : Workspace) : Prop where
  sources : next.sources = workspace.sources
  heap : workspace.machine.heap.Grows next.machine.heap
  spins : workspace.machine.heap.Spins next.machine.heap
  fabrics {id : FabricId} {value : Value} : next.modules.fabric? id = some value →
    workspace.modules.fabric? id = some value ∨
      value.Spun workspace.machine.heap next.machine.heap
  woven : workspace.Woven → next.Woven

theorem weaving_steady : Steady Weaving where
  refl _ := ⟨rfl, .refl _, .refl _, .inl, fun h => h⟩
  trans h h' := {
    sources := h'.sources.trans h.sources
    heap := h.heap.trans h'.heap
    spins := h.spins.trans h'.spins
    fabrics := fun hfabric => (h'.fabrics hfabric).elim
      (fun hold => (h.fabrics hold).imp_right h'.spins.spun_mono)
      fun hspun => .inr (h.spins.spun_of_later hspun)
    woven := fun hwoven => h'.woven (h.woven hwoven) }
  registries _ _ _ := ⟨rfl, .refl _, .refl _, .inl, fun h => h.mono rfl rfl fun _ _ h => h⟩
  weave _ lines :=
    ⟨rfl, .alloc, .alloc _ lines, .inl, fun h => h.mono rfl rfl Heap.Grows.alloc.array?⟩

/-- The draft has the fabrics that the declarations declare. -/
structure Weaves (start : Workspace) (decls : List Decl) (draft : ModuleDraft)
    (workspace : Workspace) : Prop where
  weaving : start.Weaving workspace
  fabrics : workspace.machine.heap.Weaves decls draft.fabrics
  spun : ∀ value ∈ draft.fabrics, value.Spun start.machine.heap workspace.machine.heap

namespace Weaves

variable {start : Workspace} {draft draft' : ModuleDraft} {done : List Decl}

theorem congr (h : start.Weaves done draft workspace) (hfabrics : draft'.fabrics = draft.fabrics) :
    start.Weaves done draft' workspace :=
  ⟨h.weaving, hfabrics ▸ h.fabrics, hfabrics ▸ h.spun⟩

theorem trans (h : start.Weaves done draft workspace) (hnext : workspace.Weaving next) :
    start.Weaves done draft next :=
  ⟨weaving_steady.trans h.weaving hnext, h.fabrics.mono hnext.heap.array?, fun value hmem =>
    hnext.spins.spun_mono (h.spun value hmem)⟩

/-- A declaration that is no fabric adds none. -/
theorem skip (h : start.Weaves done draft workspace) {decl : Decl} (hdecl : decl.fabric? = none)
    (hfabrics : draft'.fabrics = draft.fabrics) : start.Weaves (done ++ [decl]) draft' workspace := by
  refine ⟨h.weaving, ?_, hfabrics ▸ h.spun⟩
  rw [Heap.Weaves, List.filterMap_append, List.filterMap_cons_none hdecl, hfabrics]
  simpa [Heap.Weaves] using h.fabrics

theorem add (h : start.Weaves done draft workspace) {fabric : FabricDecl} {value : Value}
    (hvalue : workspace.machine.heap.Holds fabric value)
    (hspun : value.Spun start.machine.heap workspace.machine.heap)
    (hfabrics : draft'.fabrics = draft.fabrics ++ [value]) :
    start.Weaves (done ++ [.fabric fabric]) draft' workspace := by
  refine ⟨h.weaving, ?_, ?_⟩
  · rw [Heap.Weaves, List.filterMap_append, hfabrics]
    exact List.rel_append h.fabrics (.cons hvalue .nil)
  · rw [hfabrics]
    exact List.forall_mem_append.mpr ⟨h.spun, by simpa using hspun⟩

end Weaves

theorem addLocal_fabrics {draft next : ModuleDraft} {name : String} {target : Target} {span : Span}
    (h : draft.addLocal name target span = .ok next) : next.fabrics = draft.fabrics := by
  obtain ⟨symbols, -, rfl⟩ := ModuleDraft.addLocal_eq_ok h
  rfl

theorem exportIf_fabrics (draft : ModuleDraft) (exported : Bool) (name : String)
    (target : Target) : (draft.exportIf exported name target).fabrics = draft.fabrics := by
  unfold ModuleDraft.exportIf
  split <;> rfl

theorem addNames_fabrics {modules : ModuleRegistry} {draft next : ModuleDraft} {decl : Decl}
    (h : draft.addNames modules decl = .ok next) : next.fabrics = draft.fabrics := by
  cases decl with
  | «alias» name path exported span =>
    obtain ⟨target, -, h⟩ := bind_eq_ok.mp h
    obtain ⟨middle, hmiddle, h⟩ := bind_eq_ok.mp h
    cases h
    rw [exportIf_fabrics, addLocal_fabrics hmiddle]
  | wildcard path span =>
    obtain ⟨source, -, h⟩ := bind_eq_ok.mp h
    cases h
    rfl
  | _ =>
    cases h
    rfl

theorem addMain_fabrics {modules : ModuleRegistry} {draft next : ModuleDraft} {decl : Decl}
    (h : draft.addMain modules decl = .ok next) : next.fabrics = draft.fabrics := by
  cases decl with
  | main path span =>
    rw [ModuleDraft.addMain] at h
    split at h
    · cases h
    · obtain ⟨cls, -, h⟩ := bind_eq_ok.mp h
      cases h
      rfl
  | _ =>
    cases h
    rfl

variable {start : Workspace} {draft : ModuleDraft} {done : List Decl}

/-- A declaration adds the fabric that it declares, and nothing else. -/
theorem declare_weaves (h : start.Weaves done draft workspace) (decl : Decl) :
    Yields (declare draft decl) workspace
      (fun answer next => start.Weaves (done ++ [decl]) answer next)
      fun _ next => start.Weaving next := by
  unfold declare
  cases decl with
  | cls cls =>
    have hnext := h.trans (weaving_steady.registries workspace
      (workspace.machine.classes.declare cls.name draft.url draft.id cls.span).2
      workspace.machine.tables)
    refine yields_bind.mpr (yields_modifyGet.mpr (yields_bind.mpr
      (yields_orFail (fun answer hanswer => ?_) fun _ _ => hnext.weaving)))
    have hsame := addLocal_fabrics hanswer
    exact yields_pure.mpr (hnext.skip rfl ((exportIf_fabrics _ _ _ _).trans hsame))
  | fabric fabric =>
    dsimp only
    split
    case isTrue => exact yields_throw.mpr h.weaving
    case isFalse =>
      have hnext := h.trans (weaving_steady.weave workspace fabric.lines)
      refine yields_bind.mpr (ModuleDraft.yields_weave.mpr (yields_bind.mpr
        (yields_orFail (fun answer hanswer => ?_) fun _ _ => hnext.weaving)))
      have hsame := addLocal_fabrics hanswer
      refine yields_pure.mpr (hnext.add ?_ ?_ ((exportIf_fabrics _ _ _ _).trans hsame))
      · exact ⟨_, rfl, Heap.array?_eq_some.mpr Heap.entity?_alloc⟩
      · refine ⟨_, rfl, h.weaving.spins.size_le, ?_⟩
        simp [Heap.alloc, Heap.size]
  | _ => exact yields_pure.mpr (h.skip rfl rfl)

/-- A module that is built has the fabrics that its tree declares. -/
theorem build_weaves {load : String → Importing ModuleId}
    (hload : ∀ url, Moves Weaving (load url)) (url : String) (tree : ModuleTree) :
    Yields (build load url tree) workspace
      (fun draft next => workspace.Weaves tree.declarations draft next)
      fun _ next => workspace.Weaving next := by
  have hsteady := weaving_steady
  unfold build
  refine yields_bind.mpr (yields_get.mpr (yields_bind.mpr
    ((hsteady.loadCore hload _ _ workspace).imp ?_ fun _ _ h => h)))
  intro core middle hmiddle
  refine yields_bind.mpr ((hsteady.filterMapM (hsteady.loadImport hload) _ middle).imp ?_
    fun _ _ h => hsteady.trans hmiddle h)
  intro imports base hbase
  refine yields_bind.mpr (yields_get.mpr ?_)
  have hempty : ∀ draft : ModuleDraft, draft.fabrics = [] → workspace.Weaves [] draft base :=
    fun draft hdraft => ⟨hsteady.trans hmiddle hbase, hdraft ▸ .nil, hdraft ▸ nofun⟩
  refine yields_bind.mpr (Yields.imp (Yields.foldlM
    (motive := fun draft next => workspace.Weaves [] draft next) (hempty _ rfl)
    fun item _ draft next h => yields_orFail (fun answer hanswer =>
      h.congr (addLocal_fabrics hanswer)) fun _ _ => h.weaving) ?_ fun _ _ h => h)
  intro draft next hdraft
  refine yields_bind.mpr ((Yields.foldlM_done
    (motive := fun done draft next => workspace.Weaves done draft next) hdraft
    fun done decl _ draft next _ h => declare_weaves h decl).imp ?_ fun _ _ h => h)
  intro draft next hdraft
  have hnames : ∀ {answer}, tree.declarations.foldlM (ModuleDraft.addNames base.modules) draft =
      .ok answer → answer.fabrics = draft.fabrics := fun hanswer =>
    foldlM_induction (motive := fun other => other.fabrics = draft.fabrics) rfl
      (fun _ _ _ _ hsame hadd => (addNames_fabrics hadd).trans hsame) hanswer
  refine yields_bind.mpr (yields_orFail (fun answer hanswer => ?_) fun _ _ => hdraft.weaving)
  replace hdraft := hdraft.congr (hnames hanswer)
  have hmain : ∀ {last}, tree.declarations.foldlM (ModuleDraft.addMain base.modules) answer =
      .ok last → last.fabrics = answer.fabrics := fun hlast =>
    foldlM_induction (motive := fun other => other.fabrics = answer.fabrics) rfl
      (fun _ _ _ _ hsame hadd => (addMain_fabrics hadd).trans hsame) hlast
  refine yields_bind.mpr (yields_orFail (fun last hlast => ?_) fun _ _ => hdraft.weaving)
  replace hdraft := hdraft.congr (hmain hlast)
  refine yields_bind.mpr ((hsteady.complete last next).imp ?_ fun _ _ h =>
    hsteady.trans hdraft.weaving h)
  exact fun _ final hfinal => yields_pure.mpr (hdraft.trans hfinal)

/-- Registering a module adds its fabrics. -/
theorem Weaves.register {tree : ModuleTree} {url text : String} {notes : List String × String}
    (h : start.Weaves tree.declarations draft workspace)
    (hfetch : start.sources.fetch url = .ok text) (htree : ModuleTree.ofText? text = some tree) :
    start.Weaving { workspace with
      modules := (workspace.modules.register (draft.seal url text notes)).2 } := by
  refine ⟨h.weaving.sources, h.weaving.heap, h.weaving.spins, ?_, ?_⟩
  · intro id value hfabric
    obtain ⟨module, hmodule, hvalue⟩ := Option.bind_eq_some_iff.mp hfabric
    rw [ModuleRegistry.get?_register] at hmodule
    split at hmodule
    case isTrue =>
      cases hmodule
      exact .inr (h.spun value (List.mem_of_getElem? hvalue))
    case isFalse => exact h.weaving.fabrics (Option.bind_eq_some_iff.mpr ⟨module, hmodule, hvalue⟩)
  · intro hwoven id module hmodule
    rw [ModuleRegistry.get?_register] at hmodule
    split at hmodule
    case isTrue =>
      cases hmodule
      exact ⟨text, tree, h.weaving.sources ▸ hfetch, htree, h.fabrics⟩
    case isFalse => exact h.weaving.woven hwoven id module hmodule

theorem importModule_weaving (url : String) : Moves Weaving (importModule url) :=
  Steady.bind_get fun _ => weaving_steady.importBelow
    (fun _ url _ tree _ hload htree _ hfetch =>
      (build_weaves hload url tree).imp (fun _ _ h => h.register hfetch htree) fun _ _ h => h)
    _ _ _

end Workspace

end Attire
