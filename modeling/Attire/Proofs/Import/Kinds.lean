import Attire.Proofs.Import.History
import Attire.Proofs.Import.Weaving
import Attire.Proofs.Kinds.Lowering
import Attire.Proofs.Kinds.Runs

namespace Attire

/-! Imports of definite modules install routines that keep to the kinds of their contracts, and leave
every entity of its kind. -/

/-- The bodies of all modules are definite.  Only privileged modules do without a root class, so
others may mention callers. -/
def Sources.Definite (sources : Sources) (options : Options) : Prop :=
  ∀ url decl, sources.DeclaresAt url decl → decl.definite (!options.isPrivileged url)

theorem Sources.Definite.member {sources : Sources} {options : Options}
    (h : sources.Definite options) {url : String} {decl : ClassDecl}
    (hdecl : sources.DeclaresAt url decl) {member : Member} (hmem : member ∈ decl.members) :
    member.definite (!options.isPrivileged url) :=
  List.all_eq_true.mp (h url decl hdecl) member hmem

section

variable {kinds : Kinds} {supply : Supply}

/-- What a source was checked against stands around its bodies. -/
theorem Provenance.Valid.surrounds {source : Provenance} (h : source.Valid supply kinds.classes)
    (hcompiled : kinds.classes.Compiled supply)
    (hfabrics : ∀ id value, supply.fabrics id = some value → value.OfKind kinds (.array .text)) :
    kinds.Surrounds (!supply.options.isPrivileged source.url) source.ctx source.fabrics where
  provides := h.grounded.provides
  root hrooted := by
    rw [Option.isSome_iff_ne_none]
    intro hnone
    rw [h.rooted hnone] at hrooted
    cases hrooted
  fabric hfabric := hfabrics _ _ (h.known hfabric)
  field hlookup := by
    obtain ⟨found, hfound, hget⟩ := CheckContext.lookupField_eq_ok.mp hlookup
    obtain ⟨-, -, hstores⟩ := h.grounded.composed.field hfound (Table.mem_of_get? hget)
    obtain ⟨owner, own, howner, hown, -, hty⟩ := h.outlines.stores hstores
    obtain ⟨kind, hkind⟩ := (hcompiled.stored howner (List.mem_of_getElem? hown)).kind?
    exact ⟨kind, hty ▸ hkind, owner, own, howner, hown, hkind⟩
  method hlookup := by
    obtain ⟨found, hfound, -⟩ := CheckContext.lookupMethod_eq_ok.mp hlookup
    obtain ⟨owner, -, hdeclares⟩ := h.declares_of_lookup hlookup
    obtain ⟨params, ret, hparams, hret⟩ := (hcompiled.written hdeclares).kinds?
    exact ⟨h.outlines.contains (ClassRegistry.contains_iff.mpr ⟨found, hfound⟩), params, ret,
      hparams, hret, owner, _, hdeclares, rfl, hparams, hret⟩

/-- What was compiled from definite sources keeps to its kinds. -/
theorem ClassRegistry.Compiled.backed (h : kinds.classes.Compiled supply)
    (hcomposed : kinds.classes.Composed) (hdefinite : supply.sources.Definite supply.options)
    (hfabrics : ∀ id value, supply.fabrics id = some value → value.OfKind kinds (.array .text)) :
    kinds.Backed where
  composed := hcomposed
  typed hget hmem := (h.stored hget hmem).kind?
  body := by
    rintro slot routine ⟨cls, found, hfound, hmem⟩
    obtain ⟨source, sig, hvalid, hslot, hmethod⟩ := h.body hfound hmem
    obtain ⟨method, checked, name, hmember, -, hlength, hcheck, hlower⟩ := hmethod.compiled
    have hdeclares := hvalid.outlines.declares hmethod.declares
    obtain ⟨params, ret, hparams, hret⟩ := (h.written hdeclares).kinds?
    obtain ⟨_, hroutine, hkinded⟩ := Lower.lowerMethod_kinded (hvalid.surrounds h hfabrics) name
      hlength hcheck (hdefinite.member hvalid.declared hmember) hparams hret
    cases hlower.symm.trans hroutine
    exact ⟨params, ret, ⟨cls, sig, hdeclares, hslot, hparams, hret⟩, hkinded⟩
  initializer := by
    intro cls found own routine kind hget hmem hkind hroutine
    obtain ⟨source, other, hvalid, hname, hinitializer⟩ :=
      h.initializer hget (Table.mem_of_get? hroutine)
    -- No other field of the class has the name.
    obtain ⟨before, hbefore, hother⟩ := hinitializer.stores
    obtain ⟨found', hfound', halike⟩ := hvalid.outlines _ _ hbefore
    obtain rfl := Option.some.inj (hget.symm.trans hfound')
    obtain rfl : other = own :=
      List.inj_on_of_nodup_map (hcomposed.fieldNames hget) (halike.ownFields ▸ hother) hmem hname
    obtain ⟨field, checked, name, hmember, -, -, hcheck, hlower⟩ := hinitializer.compiled
    obtain ⟨_, hroutine, hkinded⟩ := Lower.lowerInitializer_kinded (hvalid.surrounds h hfabrics) name
      hcheck (hdefinite.member hvalid.declared hmember) hkind
    cases hlower.symm.trans hroutine
    exact hkinded

end

namespace Workspace

variable {workspace next : Workspace} {kinds : Kinds}

/-- Every entity is of its kind, and fabrics are arrays of texts. -/
structure Kinded (kinds : Kinds) (workspace : Workspace) : Prop where
  machine : workspace.machine.Kinded kinds
  fabrics {id : FabricId} {value : Value} : workspace.modules.fabric? id = some value →
    value.OfKind kinds (.array .text)

theorem Sound.backed (h : workspace.Sound) (hkinded : workspace.Kinded kinds)
    (hdefinite : workspace.sources.Definite workspace.options) : kinds.Backed := by
  have hregistry : workspace.machine.classes = kinds.classes := hkinded.machine.registry
  have hcompiled := h.compiled
  have hcomposed := h.composed
  rw [hregistry] at hcompiled hcomposed
  exact hcompiled.backed hcomposed hdefinite fun _ _ => hkinded.fabrics

end Workspace

theorem Kinds.fits_self {kinds : Kinds} {machine : Machine} (h : machine.Kinded kinds) :
    kinds.Fits kinds machine :=
  ⟨le_refl kinds, rfl, h⟩

namespace Heap

variable {heap later : Heap} {kinds : Kinds}

/-- What there is of kinds in a heap that has more arrays of texts, where classes are added too. -/
def spunKinds (kinds : Kinds) (classes : ClassRegistry) (heap later : Heap) : Kinds where
  classes
  cells := kinds.cells ++ List.replicate (later.size - heap.size) (.array .text)

theorem Spins.kinded (h : heap.Spins later) (hkinded : heap.Kinded kinds)
    {classes : ClassRegistry} (hclasses : kinds.classes.Extends classes) :
    later.Kinded (spunKinds kinds classes heap later) := by
  have hle : kinds ≤ spunKinds kinds classes heap later := ⟨hclasses, List.prefix_append _ _⟩
  obtain ⟨spun, hspun, htexts⟩ := h
  constructor
  case size =>
    simp [spunKinds, hkinded.size, Heap.size, hspun]
  case cells =>
    intro address cell kind hcell hkind
    by_cases hlt : address < heap.size
    case pos =>
      rw [hspun, Array.getElem?_append_left hlt] at hcell
      rw [spunKinds, List.getElem?_append_left (hkinded.size ▸ hlt)] at hkind
      exact (hkinded.cells hcell hkind).mono hle
    case neg =>
      rw [hspun, Array.getElem?_append_right (Nat.le_of_not_lt hlt)] at hcell
      rw [spunKinds, List.getElem?_append_right (hkinded.size ▸ Nat.le_of_not_lt hlt)] at hkind
      obtain ⟨lines, hlines⟩ := htexts cell (Array.mem_of_getElem? hcell)
      obtain rfl := List.eq_of_mem_replicate (List.mem_of_getElem? hkind)
      rw [hlines]
      refine ⟨.text, rfl, fun item hmem => ?_⟩
      obtain ⟨line, -, rfl⟩ := List.mem_map.mp (List.mem_toArray.mp hmem)
      rfl

theorem spun_ofKind {value : Value} (hkinded : heap.Kinded kinds) (classes : ClassRegistry)
    (hspun : value.Spun heap later) :
    value.OfKind (spunKinds kinds classes heap later) (.array .text) := by
  obtain ⟨ref, rfl, hfresh, hlt⟩ := hspun
  refine ⟨⟨.text, rfl⟩, ?_⟩
  rw [Kinds.Has, spunKinds, List.getElem?_append_right (hkinded.size ▸ hfresh), hkinded.size]
  exact List.getElem?_replicate_of_lt (by omega)

end Heap

namespace Workspace

variable {workspace next : Workspace} {kinds : Kinds}

/-- An import keeps every entity of its kind, also when it fails. -/
theorem Weaving.kinded (h : workspace.Weaving next) (hsound : next.Sound)
    (hgrows : workspace.Grows next) (hkinded : workspace.Kinded kinds) :
    ∃ later, kinds ≤ later ∧ next.Kinded later := by
  have hclasses : kinds.classes.Extends next.machine.classes :=
    hkinded.machine.registry ▸ hgrows.classes
  have hle : kinds ≤ Heap.spunKinds kinds next.machine.classes workspace.machine.heap
      next.machine.heap := ⟨hclasses, List.prefix_append _ _⟩
  refine ⟨_, hle, ⟨rfl, hsound.running.tables, h.spins.kinded hkinded.machine.heap hclasses⟩, ?_⟩
  intro id value hfabric
  rcases h.fabrics hfabric with hold | hspun
  · exact (hkinded.fabrics hold).mono hle
  · exact Heap.spun_ofKind hkinded.machine.heap _ hspun

end Workspace

end Attire
