import Attire.Proofs.Import.Compiled
import Attire.Proofs.Import.Names

namespace Attire

/-! Workspaces that imports leave behind, and what they never lose. -/

/-- Everything that a module refers to is there. -/
structure Module.Sound (modules : ModuleRegistry) (registry : ClassRegistry) (outline : Outline)
    (module : Module) : Prop where
  symbols : module.symbols.All (Target.Stands modules registry modules.fabric?)
  exports : ExportTable.All module.exports (Target.Stands modules registry modules.fabric?)
  main {cls : ClassId} : module.main = some cls → registry.contains cls
  declared : ∀ cls ∈ module.classes, registry.contains cls
  nodup : module.classes.Nodup
  fabrics : ∀ value ∈ module.fabrics, ∃ ref, value = .array ref ∧ outline.Names value

/-- The modules of the first registry stay as they are. -/
def ModuleRegistry.Extends (modules next : ModuleRegistry) : Prop :=
  ∀ id module, modules.get? id = some module → next.get? id = some module

namespace ModuleRegistry

variable {modules next : ModuleRegistry}

theorem Extends.fabric (h : modules.Extends next) {id : FabricId} {value : Value}
    (hfabric : modules.fabric? id = some value) : next.fabric? id = some value := by
  obtain ⟨module, hmodule, hvalue⟩ := Option.bind_eq_some_iff.mp hfabric
  exact Option.bind_eq_some_iff.mpr ⟨module, h _ _ hmodule, hvalue⟩

theorem find?_register {module : Module} (url : String) :
    (modules.register module).2.find? url =
      if url = module.url then some modules.nextId else modules.find? url :=
  Table.get?_insert ..

theorem get?_register {module : Module} (id : ModuleId) :
    (modules.register module).2.get? id =
      if id.index = modules.size then some { module with id := modules.nextId }
      else modules.get? id := by
  simp only [get?, register, size, Array.getElem?_push]
  rfl

theorem register_extends {module : Module} : modules.Extends (modules.register module).2 := by
  intro id found hget
  have hlt : id.index < modules.size := (Array.getElem?_eq_some_iff.mp hget).1
  rw [get?_register, if_neg (by omega), hget]

end ModuleRegistry

theorem Target.Stands.mono {modules next : ModuleRegistry} {classes classes' : ClassRegistry}
    {fabrics fabrics' : Fabrics} {target : Target} (h : target.Stands modules classes fabrics)
    (hmodules : modules.Extends next) (hclasses : ∀ cls, classes.contains cls → classes'.contains cls)
    (hfabrics : ∀ id value, fabrics id = some value → fabrics' id = some value) :
    target.Stands next classes' fabrics' := by
  cases target with
  | module id =>
    obtain ⟨module, hmodule⟩ := h
    exact ⟨module, hmodules _ _ hmodule⟩
  | cls id => exact hclasses id h
  | fabric id =>
    obtain ⟨value, hvalue⟩ := h
    exact ⟨value, hfabrics _ _ hvalue⟩

theorem Module.Sound.mono {modules next : ModuleRegistry} {classes classes' : ClassRegistry}
    {outline outline' : Outline} {module : Module} (h : module.Sound modules classes outline)
    (hmodules : modules.Extends next) (hclasses : ∀ cls, classes.contains cls → classes'.contains cls)
    (houtline : outline ≤ outline') : module.Sound next classes' outline' where
  symbols := h.symbols.imp fun _ hstands => hstands.mono hmodules hclasses fun _ _ => hmodules.fabric
  exports entry hmem := (h.exports entry hmem).mono hmodules hclasses fun _ _ => hmodules.fabric
  main hmain := hclasses _ (h.main hmain)
  declared cls hmem := hclasses cls (h.declared cls hmem)
  nodup := h.nodup
  fabrics value hmem := by
    obtain ⟨ref, hvalue, hnames⟩ := h.fabrics value hmem
    exact ⟨ref, hvalue, hnames.mono houtline⟩

theorem ClassRegistry.Compiled.congr {classes next : ClassRegistry} {supply supply' : Supply}
    (h : classes.Compiled supply) (hforth : classes.Extends next) (hback : next.Extends classes)
    (hsupply : supply.Grows supply') : next.Compiled supply' where
  body hget hmem := by
    obtain ⟨source, sig, hvalid, hslot, hmethod⟩ := h.body (hback _ _ hget) hmem
    exact ⟨source, sig, hvalid.mono hsupply hforth.outlines, hslot, hmethod⟩
  initializer hget hmem := by
    obtain ⟨source, own, hvalid, hname, hinitializer⟩ := h.initializer (hback _ _ hget) hmem
    exact ⟨source, own, hvalid.mono hsupply hforth.outlines, hname, hinitializer⟩
  complete hget hmem := h.complete (hback _ _ hget) hmem
  distinct hget := h.distinct (hback _ _ hget)
  written hdeclares := h.written (hback.outlines.declares hdeclares)
  stored hget hmem := h.stored (hback _ _ hget) hmem

namespace Workspace

/-- What the routines of the workspace are compiled from. -/
def supply (workspace : Workspace) : Supply where
  options := workspace.options
  sources := workspace.sources
  fabrics := workspace.modules.fabric?
  outline := workspace.machine.heap.outline

/-- What holds of a workspace between any two imports. -/
structure Sound (workspace : Workspace) : Prop where
  composed : workspace.machine.classes.Composed
  named : workspace.machine.classes.Named
  compiled : workspace.machine.classes.Compiled workspace.supply
  running : workspace.machine.Sound workspace.machine.classes workspace.machine.heap.outline
  owned {cls : ClassId} : workspace.machine.classes.contains cls →
    ∃ id module, workspace.modules.get? id = some module ∧ cls ∈ module.classes
  modules {id : ModuleId} {module : Module} : workspace.modules.get? id = some module →
    module.Sound workspace.modules workspace.machine.classes workspace.machine.heap.outline
  numbered {id : ModuleId} {module : Module} : workspace.modules.get? id = some module →
    module.id = id
  located {id : ModuleId} {module : Module} : workspace.modules.get? id = some module →
    workspace.modules.find? module.url = some id
  recorded {id : ModuleId} {module : Module} {cls : ClassId} :
    workspace.modules.get? id = some module → cls ∈ module.classes →
    ∃ decl, workspace.sources.DeclaresAt module.url decl ∧
      workspace.machine.classes.Records id module.url decl.name cls
  indexed : workspace.sources.Unambiguous → workspace.machine.classes.Indexed
  byUrl {url : String} {id : ModuleId} : workspace.modules.find? url = some id →
    ∃ module, workspace.modules.get? id = some module ∧ module.url = url

/-- What is never lost. -/
structure Grows (workspace next : Workspace) : Prop where
  options : next.options = workspace.options
  sources : next.sources = workspace.sources
  classes : workspace.machine.classes.Extends next.machine.classes
  modules : workspace.modules.Extends next.modules
  outline : workspace.machine.heap.outline ≤ next.machine.heap.outline

variable {workspace next last base : Workspace}

theorem Grows.refl (workspace : Workspace) : workspace.Grows workspace :=
  ⟨rfl, rfl, .refl _, fun _ _ h => h, le_refl _⟩

theorem Grows.trans (h : workspace.Grows next) (h' : next.Grows last) : workspace.Grows last where
  options := h'.options.trans h.options
  sources := h'.sources.trans h.sources
  classes := h.classes.trans h'.classes
  modules id module hget := h'.modules id module (h.modules id module hget)
  outline := h.outline.trans h'.outline

theorem Grows.supply (h : workspace.Grows next) : workspace.supply.Grows next.supply :=
  ⟨h.options, h.sources, h.modules.fabric, h.outline⟩

/-- While a module is built, its classes are there, but nothing uses them. -/
structure Amid (base workspace : Workspace) : Prop where
  options : workspace.options = base.options
  sources : workspace.sources = base.sources
  modules : workspace.modules = base.modules
  classes : base.machine.classes.Extends workspace.machine.classes
  named : workspace.machine.classes.Named
  spares : base.sources.Unambiguous → base.machine.classes.Spares workspace.machine.classes
  outline : base.machine.heap.outline ≤ workspace.machine.heap.outline
  running : Machine.Sound base.machine.classes workspace.machine.heap.outline
    { workspace.machine with classes := base.machine.classes }

theorem Sound.amid (h : base.Sound) : base.Amid base :=
  ⟨rfl, rfl, rfl, .refl _, h.named, fun hsources => (h.indexed hsources).spares, le_refl _,
    h.running⟩

/-- No class has a name that a module takes which is not registered yet. -/
theorem Sound.unnamed (h : base.Sound) (hsources : base.sources.Unambiguous) {url : String}
    (hpending : base.modules.find? url = none) {decl : ClassDecl}
    (hdecl : base.sources.DeclaresAt url decl) {cls : ClassId} {found : ClassDef}
    (hget : base.machine.classes.get? cls = some found) :
    found.qualifiedName ≠ ClassRegistry.qualifiedName url decl.name := by
  intro heq
  obtain ⟨id, module, hmodule, hmem⟩ := h.owned (ClassRegistry.contains_iff.mpr ⟨found, hget⟩)
  obtain ⟨former, hformer, found', hfound', -, -, hqualified⟩ := h.recorded hmodule hmem
  obtain rfl := Option.some.inj (hget.symm.trans hfound')
  obtain ⟨hurl, -⟩ := hsources _ _ _ _ hformer hdecl (hqualified.symm.trans heq)
  have hlocated := h.located hmodule
  rw [hurl, hpending] at hlocated
  cases hlocated

theorem ownedClasses_bounds (modules : ModuleRegistry) (mark : Nat) :
    mark ≤ ownedClasses modules mark ∧
      (∀ module ∈ modules.modules, ∀ cls ∈ module.classes,
        cls.index < ownedClasses modules mark) ∧
      ∀ size, mark ≤ size →
        (∀ module ∈ modules.modules, ∀ cls ∈ module.classes, cls.index < size) →
        ownedClasses modules mark ≤ size := by
  have hinner : ∀ (classes : List ClassId) (count : Nat),
      let total := classes.foldl (fun count id => max count (id.index + 1)) count
      count ≤ total ∧ (∀ cls ∈ classes, cls.index < total) ∧
        ∀ size, count ≤ size → (∀ cls ∈ classes, cls.index < size) → total ≤ size := by
    intro classes
    induction classes with
    | nil => exact fun count => ⟨le_refl _, nofun, fun _ h _ => h⟩
    | cons first rest ih =>
      intro count
      obtain ⟨hstart, hmembers, hleast⟩ := ih (max count (first.index + 1))
      refine ⟨by simp only [List.foldl_cons]; omega, fun cls hmem => ?_, fun size hcount hall => ?_⟩
      · rcases List.mem_cons.mp hmem with rfl | hmem
        · simp only [List.foldl_cons]
          omega
        · exact hmembers cls hmem
      · have hfirst := hall first (by simp)
        exact hleast size (by omega) fun cls hmem => hall cls (List.mem_cons_of_mem _ hmem)
  obtain ⟨modules, byUrl⟩ := modules
  simp only [ownedClasses, ← Array.foldl_toList, ← Array.mem_toList_iff]
  generalize modules.toList = modules
  induction modules generalizing mark with
  | nil => exact ⟨le_refl _, nofun, fun _ h _ => h⟩
  | cons first rest ih =>
    obtain ⟨hfirst, hfirstMembers, hfirstLeast⟩ := hinner first.classes mark
    obtain ⟨hstart, hmembers, hleast⟩ :=
      ih (first.classes.foldl (fun count id => max count (id.index + 1)) mark)
    refine ⟨hfirst.trans hstart, fun module hmem cls hcls => ?_, fun size hmark hall => ?_⟩
    · rcases List.mem_cons.mp hmem with rfl | hmem
      · exact (hfirstMembers cls hcls).trans_le hstart
      · exact hmembers module hmem cls hcls
    · exact hleast size (hfirstLeast size hmark (hall first (by simp)))
        fun module hmem => hall module (List.mem_cons_of_mem _ hmem)

/-- The classes that stay after a failed import are those that there were when the module began to
declare its own. -/
theorem Sound.ownedClasses_eq (h : base.Sound) {mark : Nat}
    (hmark : mark ≤ base.machine.classes.size) :
    ownedClasses base.modules mark = base.machine.classes.size := by
  obtain ⟨-, hmembers, hleast⟩ := ownedClasses_bounds base.modules mark
  apply le_antisymm
  · refine hleast _ hmark fun module hmem cls hcls => ?_
    obtain ⟨index, hindex⟩ := Array.mem_iff_getElem?.mp hmem
    have hmodule : base.modules.get? ⟨index⟩ = some module := hindex
    exact of_decide_eq_true ((h.modules hmodule).declared cls hcls)
  · by_cases hzero : base.machine.classes.size = 0
    · omega
    · have hlast : base.machine.classes.contains ⟨base.machine.classes.size - 1⟩ :=
        decide_eq_true (Nat.sub_one_lt hzero)
      obtain ⟨id, module, hmodule, hcls⟩ := h.owned hlast
      have hlt := hmembers module (Array.mem_of_getElem? hmodule) _ hcls
      dsimp only at hlt
      omega

theorem Amid.truncate (h : base.Amid workspace) (hbase : base.Sound) {classes : ClassRegistry}
    {tables : TableCache} (hforth : base.machine.classes.Extends classes)
    (hback : classes.Extends base.machine.classes) (hnamed : classes.Named)
    (hindexed : base.sources.Unambiguous → classes.Indexed)
    (htables : tables.Transparent base.machine.classes) :
    let next := { workspace with machine := { workspace.machine with classes, tables } }
    next.Sound ∧ base.Grows next := by
  have hgrows : base.Grows
      { workspace with machine := { workspace.machine with classes, tables } } :=
    ⟨h.options, h.sources, hforth, fun id module hget => h.modules ▸ hget, h.outline⟩
  refine ⟨?_, hgrows⟩
  constructor
  case composed => exact hbase.composed.of_outlines hforth.outlines hback.outlines
  case named => exact hnamed
  case compiled => exact hbase.compiled.congr hforth hback hgrows.supply
  case running =>
    have hrunning : Machine.Sound base.machine.classes workspace.machine.heap.outline
        { workspace.machine with classes := base.machine.classes, tables } :=
      ⟨rfl, rfl, htables, h.running.entities⟩
    exact hrunning.extend hbase.composed hforth
  case owned =>
    intro cls hcls
    rw [h.modules]
    exact hbase.owned (hback.contains hcls)
  case modules =>
    intro id module hmodule
    rw [h.modules] at hmodule ⊢
    exact (hbase.modules hmodule).mono (fun _ _ h => h) (fun _ => hforth.contains) h.outline
  case numbered => exact fun hmodule => hbase.numbered (h.modules ▸ hmodule)
  case located =>
    intro id module hmodule
    rw [h.modules] at hmodule ⊢
    exact hbase.located hmodule
  case recorded =>
    intro id module cls hmodule hmem
    obtain ⟨decl, hdecl, hrecords⟩ := hbase.recorded (h.modules ▸ hmodule) hmem
    exact ⟨decl, h.sources ▸ hdecl, hforth.outlines.records hrecords⟩
  case indexed => exact fun hsources => hindexed (h.sources ▸ hsources)
  case byUrl =>
    intro url id hfind
    rw [h.modules] at hfind ⊢
    exact hbase.byUrl hfind

theorem truncateClasses_run (count : Nat) (machine : Machine) :
    (Machine.truncateClasses count).run machine = .ok ⟨⟩
      (if count < machine.classes.size then
        { machine with
          tables := machine.tables.evictFrom count
          classes := machine.classes.truncate count }
      else
        machine) :=
  rfl

/-- A module that fails takes its classes back. -/
theorem Amid.rollBack (h : base.Amid workspace) (hbase : base.Sound) {mark : Nat}
    (hmark : mark ≤ base.machine.classes.size) {ok : PUnit → Workspace → Prop}
    {err : ImportError → Workspace → Prop}
    (hok : ∀ next : Workspace, next.Sound → base.Grows next → next.modules = base.modules →
      next.machine.classes.Extends base.machine.classes → ok ⟨⟩ next) :
    Yields (rollBack mark) workspace ok err := by
  have hkeep : ownedClasses workspace.modules mark = base.machine.classes.size := by
    rw [h.modules, hbase.ownedClasses_eq hmark]
  refine yields_modify.mpr ?_
  rw [hkeep]
  dsimp only
  rw [truncateClasses_run]
  dsimp only
  split
  case isTrue =>
    have hback : (workspace.machine.classes.truncate base.machine.classes.size).Extends
        base.machine.classes := by
      intro cls found hget
      rw [ClassRegistry.get?_truncate] at hget
      split at hget
      case isTrue hindex =>
        obtain ⟨old, hold⟩ := ClassRegistry.contains_iff.mp
          (decide_eq_true hindex : base.machine.classes.contains cls = true)
        rw [h.classes cls old hold] at hget
        exact hget ▸ hold
      case isFalse => cases hget
    obtain ⟨hsound, hgrows⟩ := h.truncate hbase
      (fun cls found hget => by
        rw [ClassRegistry.get?_truncate, if_pos, h.classes cls found hget]
        exact (Array.getElem?_eq_some_iff.mp hget).1)
      hback (h.named.truncate _) (fun hsources => (h.spares hsources).truncate h.classes)
      (h.running.tables.evict _)
    exact hok _ hsound hgrows h.modules hback
  case isFalse hsize =>
    have hback : workspace.machine.classes.Extends base.machine.classes := by
      intro cls found hget
      have hindex := (Array.getElem?_eq_some_iff.mp hget).1
      obtain ⟨old, hold⟩ := ClassRegistry.contains_iff.mp
        (decide_eq_true (hindex.trans_le (Nat.not_lt.mp hsize)) :
          base.machine.classes.contains cls = true)
      rw [h.classes cls old hold] at hget
      exact hget ▸ hold
    obtain ⟨hsound, hgrows⟩ := h.truncate hbase h.classes hback h.named
      (fun hsources => (h.spares hsources).indexed hback) h.running.tables
    exact hok _ hsound hgrows h.modules hback

end Workspace

end Attire
