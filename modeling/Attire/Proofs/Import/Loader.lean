import Attire.Proofs.Classes.Hierarchy
import Attire.Proofs.Import.Bodies
import Attire.Proofs.Import.Drafting
import Attire.Proofs.Lowering.Success

namespace Attire

open Workspace

/-! Imports keep workspaces sound, also when they fail. -/

theorem classSpec_eq_ok {names : NameScope} {privileged : Bool} {root : Option ClassId}
    {id : ClassId} {decl : ClassDecl} {spec : ClassSpec}
    (h : classSpec names privileged root id decl = .ok spec) :
    (∀ parent ∈ spec.parents, (∃ path, names.resolveClass path = .ok parent) ∨
      root = some parent) ∧ decl.members.mapM (memberSpec names) = .ok spec.members := by
  obtain ⟨parents, hparents, h⟩ := bind_eq_ok.mp h
  obtain ⟨members, hmembers, h⟩ := bind_eq_ok.mp h
  cases h
  refine ⟨fun parent hmem => ?_, hmembers⟩
  dsimp only at hmem
  split at hmem
  case isTrue =>
    obtain ⟨hroot, -⟩ := Option.filter_eq_some_iff.mp (Option.mem_toList.mp hmem)
    exact .inr hroot
  case isFalse =>
    obtain ⟨path, -, hpath⟩ :=
      (mem_of_forall₂ (mapM_eq_ok (mapError_eq_ok.mp hparents))).2 parent hmem
    exact .inl ⟨path, hpath⟩

theorem Body.lower_ok {ctx : CheckContext} {fabrics : Fabrics} {bodies checked : List Body}
    (hfabrics : ctx.Provides fabrics) (classes : ClassRegistry)
    (h : bodies.mapM (Body.check ctx) = .ok checked) :
    ∃ installations, checked.mapM (Body.lower classes fabrics) = .ok installations := by
  refine mapM_ok fun answer hmem => ?_
  obtain ⟨body, -, hcheck⟩ := (mem_of_forall₂ (mapM_eq_ok h)).2 answer hmem
  cases body with
  | method cls sig decl =>
    obtain ⟨answer, hanswer, hcheck⟩ := bind_eq_ok.mp hcheck
    cases hcheck
    obtain ⟨routine, hroutine⟩ := lowerMethod_ok _ hfabrics hanswer
    exact ⟨_, bind_eq_ok.mpr ⟨routine, hroutine, rfl⟩⟩
  | initializer cls ty decl =>
    obtain ⟨answer, hanswer, hcheck⟩ := bind_eq_ok.mp hcheck
    cases hcheck
    simp only [Body.lower]
    split
    case isTrue => exact ⟨none, rfl⟩
    case isFalse =>
      obtain ⟨routine, hroutine⟩ := lowerInitializer_ok _ hfabrics hanswer
      exact ⟨_, bind_eq_ok.mpr ⟨routine, hroutine, rfl⟩⟩

namespace ModuleDraft

variable {base workspace : Workspace} {url : String} {tree : ModuleTree} {draft : ModuleDraft}

theorem Outlined.coreClass (h : draft.Outlined base url workspace) (hbase : base.Sound)
    {options : Options} {name : String} {cls : ClassId}
    (hcore : draft.coreClass? base.modules options name = some cls) :
    workspace.machine.classes.contains cls := by
  have hlookup : ∃ symbols : SymbolTable, (∃ binding, symbols.lookup name = some binding ∧
      binding.target = .cls cls) ∧ (symbols = draft.symbols ∨
        ∃ id module, base.modules.get? id = some module ∧ symbols = module.symbols) := by
    unfold ModuleDraft.coreClass? at hcore
    dsimp only at hcore
    split at hcore
    case h_1 hbinding =>
      cases hcore
      obtain ⟨symbols, hsymbols, hlookup⟩ := Option.bind_eq_some_iff.mp hbinding
      refine ⟨symbols, ⟨_, hlookup, rfl⟩, ?_⟩
      split at hsymbols
      · exact .inl (Option.some.inj hsymbols).symm
      · obtain ⟨module, hmodule, heq⟩ := Option.map_eq_some_iff.mp hsymbols
        obtain ⟨id, -, hget⟩ := Option.bind_eq_some_iff.mp hmodule
        exact .inr ⟨id, module, hget, heq.symm⟩
    case h_2 => cases hcore
  obtain ⟨symbols, ⟨binding, hbinding, htarget⟩, rfl | ⟨id, module, hmodule, rfl⟩⟩ := hlookup
  · have hstands := h.symbols name binding hbinding
    rw [htarget] at hstands
    exact hstands
  · have hstands := (hbase.modules hmodule).symbols name binding hbinding
    rw [htarget] at hstands
    exact h.classes.contains hstands

/-- The classes of the module with their members, but nothing installed. -/
structure Composes (draft : ModuleDraft) (names : NameScope) (start classes : ClassRegistry) :
    Prop where
  composed : classes.Composed
  size : classes.size = start.size
  byName : classes.byName = start.byName
  others {cls : ClassId} : cls ∉ draft.classes.map Prod.fst →
    classes.get? cls = start.get? cls
  own : ∀ entry ∈ draft.classes, ∃ before found, start.get? entry.1 = some before ∧
    classes.get? entry.1 = some found ∧ found.module = before.module ∧
    found.name = before.name ∧ found.qualifiedName = before.qualifiedName ∧
    found.bodies = before.bodies ∧ found.initializers = before.initializers ∧
    ∃ specs, entry.2.members.mapM (memberSpec names) = .ok specs ∧
      Realizes specs found.ownFields found.ownMethods

/-- Only classes of other modules have parents yet. -/
theorem Drafted.parents_old (h : draft.Drafted base url tree workspace) (hbase : base.Sound)
    {cls parent : ClassId} (hparent : parent ∈ workspace.machine.classes.parents cls) :
    base.machine.classes.contains parent := by
  rcases h.fresh (ClassRegistry.contains_of_mem_parents hparent) with hold | hmem
  · obtain ⟨found, hfound⟩ := ClassRegistry.contains_iff.mp hold
    rw [ClassRegistry.parents_eq (h.classes cls found hfound), ← ClassRegistry.parents_eq hfound]
      at hparent
    exact hbase.composed.parents hparent
  · obtain ⟨entry, hentry, rfl⟩ := List.mem_map.mp hmem
    obtain ⟨-, found, hfound, hblank, -⟩ := h.blank entry hentry
    rw [ClassRegistry.parents_eq hfound, hblank.parents] at hparent
    cases hparent

theorem Drafted.composes (h : draft.Drafted base url tree workspace) (hbase : base.Sound)
    {root : Option ClassId} (hroot : ∀ cls, root = some cls →
      workspace.machine.classes.contains cls)
    {specs : List (ClassId × ClassSpec)}
    (hspecs : (draft.classes.mapM fun (id, decl) => do
      return (id, ← classSpec (draft.scope base.modules) draft.privileged root id decl)) =
        Except.ok specs)
    {classes : ClassRegistry} (hcompose : composeAll workspace.machine.classes specs = .ok classes) :
    draft.Composes (draft.scope base.modules) workspace.machine.classes classes := by
  have hforall : List.Forall₂ (fun entry spec => entry.1 = spec.1 ∧
      classSpec (draft.scope base.modules) draft.privileged root entry.1 entry.2 = .ok spec.2)
      draft.classes specs := (mapM_eq_ok hspecs).imp fun entry spec hspec => by
    obtain ⟨answer, hanswer, heq⟩ := bind_eq_ok.mp hspec
    cases heq
    exact ⟨rfl, hanswer⟩
  have hids : specs.map Prod.fst = draft.classes.map Prod.fst := by
    refine (List.forall₂_eq_eq_eq ▸ ?_ : draft.classes.map Prod.fst = specs.map Prod.fst).symm
    exact List.forall₂_map_left_iff.mpr (List.forall₂_map_right_iff.mpr
      (hforall.imp fun _ _ hrelated => hrelated.1))
  generalize htable : specs.foldl (fun table entry => table.insert entry.1 entry.2)
    (∅ : ClassSpecs) = table
  have hmem : ∀ id spec, table.get? id = some spec → (id, spec) ∈ specs := by
    intro id spec hget
    have hentry := Table.mem_of_get? hget
    rw [← htable] at hentry
    exact (Table.mem_insertAll hentry).resolve_right (by rintro ⟨⟩)
  have hown : ∀ {id spec}, table.get? id = some spec → ∃ entry ∈ draft.classes, entry.1 = id ∧
      classSpec (draft.scope base.modules) draft.privileged root entry.1 entry.2 = .ok spec :=
    fun hget => (mem_of_forall₂ hforall).2 _ (hmem _ _ hget)
  have hready : table.Ready workspace.machine.classes := by
    constructor
    case blank =>
      intro id spec hget
      obtain ⟨entry, hentry, rfl, -⟩ := hown hget
      obtain ⟨-, found, hfound, hblank, -⟩ := h.blank entry hentry
      exact ⟨found, hfound, hblank⟩
    case parents =>
      intro id parent spec hget hparent
      obtain ⟨entry, -, rfl, hspec⟩ := hown hget
      rcases (classSpec_eq_ok hspec).1 parent hparent with ⟨path, hpath⟩ | hparent
      · exact (h.scope hbase).resolveClass hpath
      · exact hroot parent hparent
    case childless =>
      intro cls parent hparent
      rw [Option.eq_none_iff_forall_ne_some]
      intro spec hget
      obtain ⟨entry, hentry, rfl, -⟩ := hown hget
      have hold := h.parents_old hbase hparent
      rw [(h.blank entry hentry).1] at hold
      cases hold
  obtain ⟨waiting, hprogress, hsettled⟩ :=
    composeAll_progress h.composed (htable ▸ hready) hcompose
  rw [htable] at hprogress
  refine ⟨hprogress.composed, hprogress.size, hprogress.byName, fun {cls} hcls => ?_,
    fun entry hentry => ?_⟩
  · refine hprogress.others ?_
    rw [Option.eq_none_iff_forall_ne_some]
    intro spec hspec
    exact hcls (hids ▸ List.mem_map.mpr ⟨_, hmem cls spec hspec, rfl⟩)
  · obtain ⟨⟨id, spec⟩, hspec, hid, hclass⟩ := (mem_of_forall₂ hforall).1 entry hentry
    obtain rfl : entry.1 = id := hid
    have hget : table.get? entry.1 = some spec := by
      rw [← htable]
      exact Table.get?_insertAll (hids ▸ h.nodup) hspec
    obtain ⟨before, found, hbefore, hfound, heq, hrealizes⟩ :=
      hprogress.done hget (hsettled entry.1)
    refine ⟨before, found, hbefore, hfound, ?_, ?_, ?_, ?_, ?_, spec.members,
      (classSpec_eq_ok hclass).2, hrealizes⟩ <;> rw [heq]

/-- What the routines of the module are compiled from. -/
def supply (draft : ModuleDraft) (base workspace : Workspace) : Supply :=
  { workspace.supply with fabrics := draft.fabric? base.modules }

theorem Outlined.supply (h : draft.Outlined base url workspace) :
    base.supply.Grows (draft.supply base workspace) :=
  ⟨h.options, h.sources, fabric?_of_modules h.id, h.outline⟩

/-- The module with everything compiled and installed. -/
structure Built (base : Workspace) (url : String) (draft : ModuleDraft) (workspace : Workspace) :
    Prop extends draft.Outlined base url workspace where
  compiled : workspace.machine.classes.Compiled (draft.supply base workspace)
  declares : ∀ entry ∈ draft.classes, workspace.sources.DeclaresAt url entry.2

/-- What the checker and the compiler made of the composed classes. -/
structure Makes (draft : ModuleDraft) (ctx : CheckContext) (fabrics : Fabrics)
    (installations : List Installation) : Prop where
  body {cls : ClassId} {slot : MethodSlot} {routine : Routine} :
    .body cls slot routine ∈ installations → ∃ entry ∈ draft.classes, entry.1 = cls ∧
      ∃ sig, sig.slot = slot ∧ Provenance.Method ⟨draft.url, entry.2, ctx, fabrics⟩ cls sig routine
  initializer {cls : ClassId} {name : String} {routine : Routine} :
    .initializer cls name routine ∈ installations → ∃ entry ∈ draft.classes, entry.1 = cls ∧
      ∃ own, own.name = name ∧
        Provenance.Initializer ⟨draft.url, entry.2, ctx, fabrics⟩ cls own routine
  complete {entry : ClassId × ClassDecl} {found : ClassDef} {sig : MethodSig} :
    entry ∈ draft.classes → ctx.classes.get? entry.1 = some found → sig ∈ found.ownMethods →
    ∃ routine, .body entry.1 sig.slot routine ∈ installations
  written {entry : ClassId × ClassDecl} {found : ClassDef} {sig : MethodSig} :
    entry ∈ draft.classes → ctx.classes.get? entry.1 = some found → sig ∈ found.ownMethods →
    sig.Written
  stored {entry : ClassId × ClassDecl} {found : ClassDef} {own : OwnField} :
    entry ∈ draft.classes → ctx.classes.get? entry.1 = some found → own ∈ found.ownFields →
    own.ty.Written

theorem Composes.makes {start : ClassRegistry} {ctx : CheckContext} {fabrics : Fabrics}
    (h : draft.Composes ctx.names start ctx.classes) {checked : List Body}
    {installations : List (Option Installation)}
    (hcheck : (draft.classes.flatMap fun (id, decl) => Body.ofClass ctx.classes id decl).mapM
      (Body.check ctx) = .ok checked)
    (hlower : checked.mapM (Body.lower ctx.classes fabrics) = .ok installations) :
    draft.Makes ctx fabrics (installations.filterMap fun item => item) := by
  have hmatches : ∀ entry ∈ draft.classes, ∃ found, ctx.classes.get? entry.1 = some found ∧
      found.id = entry.1 ∧ (found.ownMethods.map MethodSig.name).Nodup ∧
      List.Forall₂ Body.Matches (entry.2.members.filterMap Body.method?) found.ownMethods := by
    intro entry hentry
    obtain ⟨before, found, -, hfound, -, -, -, -, -, specs, hspecs, hrealizes⟩ := h.own entry hentry
    exact ⟨found, hfound, h.composed.id hfound, h.composed.methodNames hfound,
      Body.matches_own hspecs hrealizes⟩
  constructor
  case body =>
    intro cls slot routine hmem
    obtain ⟨sig, method, answer, name, hbody, hslot, hchecked, hlowered⟩ :=
      Body.body_of_installations hcheck hlower hmem
    obtain ⟨entry, hentry, hbody⟩ := List.mem_flatMap.mp hbody
    obtain ⟨found, hfound, hid, hnodup, hmatch⟩ := hmatches entry hentry
    obtain ⟨rfl, hsig, hmember, hname, hparams, -⟩ :=
      Body.method_of_ofClass hfound hid hmatch hnodup hbody
    exact ⟨entry, hentry, rfl, sig, hslot, ⟨found, hfound, hsig⟩, method, answer, name, hmember,
      hname.symm, hparams.symm, hchecked, hlowered⟩
  case initializer =>
    intro cls name routine hmem
    obtain ⟨ty, field, answer, label, hbody, hname, hinit, hchecked, hlowered⟩ :=
      Body.initializer_of_installations hcheck hlower hmem
    obtain ⟨entry, hentry, hbody⟩ := List.mem_flatMap.mp hbody
    obtain ⟨found, hfound, hid, -⟩ := hmatches entry hentry
    obtain ⟨rfl, hmember, own, hown, hownName, rfl⟩ :=
      Body.initializer_of_ofClass hfound hid hbody
    exact ⟨entry, hentry, rfl, own, hownName.trans hname, ⟨found, hfound, hown⟩, field, answer,
      label, hmember, hownName.symm, hinit, hchecked, hlowered⟩
  case complete =>
    intro entry found sig hentry hfound hsig
    obtain ⟨found', hfound', hid, hnodup, hmatch⟩ := hmatches entry hentry
    rw [hfound] at hfound'
    cases hfound'
    obtain ⟨method, hmethod⟩ := Body.ofClass_method hfound hid hmatch hnodup hsig
    exact Body.installations_of_body hcheck hlower (List.mem_flatMap.mpr ⟨entry, hentry, hmethod⟩)
  case written =>
    intro entry found sig hentry hfound hsig
    obtain ⟨found', hfound', -, -, hmatch⟩ := hmatches entry hentry
    rw [hfound] at hfound'
    cases hfound'
    obtain ⟨method, -, -, -, hwritten⟩ := (mem_of_forall₂ hmatch).2 sig hsig
    exact hwritten
  case stored =>
    intro entry found own hentry hfound hown
    obtain ⟨before, found', -, hfound', -, -, -, -, -, specs, hspecs, hrealizes⟩ := h.own entry hentry
    rw [hfound] at hfound'
    cases hfound'
    exact Body.written_own hspecs hrealizes own hown

theorem Outlined.known_of_fabric (h : draft.Outlined base url workspace) (hbase : base.Sound)
    {id : FabricId} {value : Value} (hfabric : draft.fabric? base.modules id = some value) :
    ∃ ref, value = .array ref ∧ workspace.machine.heap.outline.Names value := by
  unfold ModuleDraft.fabric? at hfabric
  split at hfabric
  case isTrue => exact h.fabrics value (List.mem_of_getElem? hfabric)
  case isFalse =>
    obtain ⟨module, hmodule, hvalue⟩ := Option.bind_eq_some_iff.mp hfabric
    obtain ⟨ref, rfl, hnames⟩ := (hbase.modules hmodule).fabrics value (List.mem_of_getElem? hvalue)
    exact ⟨ref, rfl, hnames.mono h.outline⟩

/-- The fabrics that the module can name have values, its own and those of other modules. -/
theorem Drafted.provides (h : draft.Drafted base url tree workspace) (hbase : base.Sound)
    {ctx : CheckContext} (hnames : ctx.names = draft.scope base.modules) :
    ctx.Provides (draft.fabric? base.modules) := by
  intro path id hpath
  rw [hnames] at hpath
  exact (h.scope hbase).resolve hpath

theorem Makes.cls_mem {ctx : CheckContext} {fabrics : Fabrics} {installations : List Installation}
    (h : draft.Makes ctx fabrics installations) {installation : Installation}
    (hmem : installation ∈ installations) : installation.cls ∈ draft.classes.map Prod.fst := by
  cases installation with
  | body cls slot routine =>
    obtain ⟨entry, hentry, rfl, -⟩ := h.body hmem
    exact List.mem_map.mpr ⟨entry, hentry, rfl⟩
  | initializer cls name routine =>
    obtain ⟨entry, hentry, rfl, -⟩ := h.initializer hmem
    exact List.mem_map.mpr ⟨entry, hentry, rfl⟩

section

variable {ctx : CheckContext} {installations : List Installation} {classes : ClassRegistry}
variable (h : draft.Drafted base url tree workspace) (hbase : base.Sound)
variable (hcomposes : draft.Composes ctx.names workspace.machine.classes ctx.classes)
variable (hmakes : draft.Makes ctx (draft.fabric? base.modules) installations)
variable (hinstalls : ctx.classes.Installs classes installations)

include hcomposes in
theorem Composes.contains (cls : ClassId) :
    ctx.classes.contains cls = workspace.machine.classes.contains cls := by
  simp only [ClassRegistry.contains, hcomposes.size]

include hcomposes hinstalls in
theorem Composes.contains_installed (cls : ClassId) :
    classes.contains cls ↔ workspace.machine.classes.contains cls := by
  rw [← hcomposes.contains cls]
  exact ⟨hinstalls.back.contains, hinstalls.forth.contains⟩

include hcomposes hmakes hinstalls in
theorem Composes.others_installed {cls : ClassId} (hcls : cls ∉ draft.classes.map Prod.fst) :
    classes.get? cls = workspace.machine.classes.get? cls := by
  refine (hinstalls.others fun item hmem heq => hcls ?_).trans (hcomposes.others hcls)
  rw [← heq]
  exact hmakes.cls_mem hmem

include hcomposes hinstalls in
theorem Composes.records_installed {entry : ClassId × ClassDecl} (hentry : entry ∈ draft.classes)
    {module : ModuleId} {name : String}
    (hrecords : workspace.machine.classes.Records module url name entry.1) :
    classes.Records module url name entry.1 := by
  obtain ⟨before, found, hbefore, hfound, hmodule, hname, hqualified, -⟩ :=
    hcomposes.own entry hentry
  obtain ⟨old, hold, hrest⟩ := hrecords
  rw [hold] at hbefore
  cases hbefore
  refine hinstalls.forth.records ⟨found, hfound, ?_⟩
  rw [hmodule, hname, hqualified]
  exact hrest

include h hcomposes hmakes hinstalls

theorem Drafted.extends_installed : base.machine.classes.Extends classes := by
  intro cls found hget
  rw [hcomposes.others_installed hmakes hinstalls ?_, h.classes cls found hget]
  intro hmem
  obtain ⟨entry, hentry, rfl⟩ := List.mem_map.mp hmem
  have hold := ClassRegistry.contains_iff.mpr ⟨found, hget⟩
  rw [(h.blank entry hentry).1] at hold
  cases hold

theorem Drafted.old_or_declared {cls : ClassId} {found : ClassDef}
    (hget : classes.get? cls = some found) :
    base.machine.classes.get? cls = some found ∨ ∃ entry ∈ draft.classes, entry.1 = cls := by
  have hcontains := (hcomposes.contains_installed hinstalls cls).mp
    (ClassRegistry.contains_iff.mpr ⟨found, hget⟩)
  rcases h.fresh hcontains with hold | hmem
  · obtain ⟨old, hold⟩ := ClassRegistry.contains_iff.mp hold
    have hsame := h.extends_installed hcomposes hmakes hinstalls cls old hold
    rw [hget] at hsame
    cases hsame
    exact .inl hold
  · obtain ⟨entry, hentry, heq⟩ := List.mem_map.mp hmem
    exact .inr ⟨entry, hentry, heq⟩

theorem Drafted.spares_installed (hsources : base.sources.Unambiguous) :
    base.machine.classes.Spares classes := by
  refine (h.spares hsources).congr (hinstalls.byName.trans hcomposes.byName) fun cls found hget => ?_
  by_cases hid : cls ∈ draft.classes.map Prod.fst
  · obtain ⟨entry, hentry, rfl⟩ := List.mem_map.mp hid
    obtain ⟨before, composed, hbefore, hcomposed, -, -, hqualified, -⟩ :=
      hcomposes.own entry hentry
    obtain ⟨composed', hcomposed', halike⟩ := hinstalls.back _ _ hget
    obtain rfl := Option.some.inj (hcomposed.symm.trans hcomposed')
    exact ⟨before, hbefore, hqualified.symm.trans halike.qualifiedName.symm⟩
  · exact ⟨found, (hcomposes.others_installed hmakes hinstalls hid).symm.trans hget, rfl⟩

theorem Drafted.named_installed : classes.Named := by
  intro name id hfind
  rw [ClassRegistry.find?, hinstalls.byName, hcomposes.byName] at hfind
  obtain ⟨old, hold, hname⟩ := h.named name id hfind
  by_cases hid : id ∈ draft.classes.map Prod.fst
  · obtain ⟨entry, hentry, rfl⟩ := List.mem_map.mp hid
    obtain ⟨before, found, hbefore, hfound, -, -, hqualified, -⟩ := hcomposes.own entry hentry
    rw [hold] at hbefore
    cases hbefore
    obtain ⟨found', hfound', halike⟩ := hinstalls.forth _ _ hfound
    exact ⟨found', hfound', halike.qualifiedName.symm.trans (hqualified.trans hname)⟩
  · exact ⟨old, (hcomposes.others_installed hmakes hinstalls hid).trans hold, hname⟩

omit hmakes hinstalls in
theorem Drafted.bare {entry : ClassId × ClassDecl} (hentry : entry ∈ draft.classes)
    {found : ClassDef} (hfound : ctx.classes.get? entry.1 = some found) :
    found.bodies.entries = [] ∧ found.initializers.entries = [] := by
  obtain ⟨before, found', hbefore, hfound', -, -, -, hbodies, hinitializers, -⟩ :=
    hcomposes.own entry hentry
  obtain ⟨-, blank, hblank, -, hrest⟩ := h.blank entry hentry
  rw [hfound] at hfound'
  rw [hbefore] at hblank
  cases hfound'
  cases hblank
  rw [hbodies, hinitializers]
  exact hrest

variable (hsource : ∀ decl, Decl.cls decl ∈ tree.declarations → base.sources.DeclaresAt url decl)
variable (hnames : ctx.names = draft.scope base.modules)
variable (hroot : ∀ cls, ctx.rootClass = some cls → workspace.machine.classes.contains cls)
variable (hrooted : ctx.rootClass = none → draft.privileged)
include hbase hsource hnames hroot hrooted

omit hmakes in
theorem Drafted.valid {entry : ClassId × ClassDecl} (hentry : entry ∈ draft.classes) :
    Provenance.Valid ⟨draft.url, entry.2, ctx, draft.fabric? base.modules⟩
      (draft.supply base workspace) classes := by
  constructor
  case declared =>
    have hdecl := hsource _ (h.declared entry hentry)
    rw [← h.sources, ← h.address] at hdecl
    exact hdecl
  case rooted =>
    intro hnone
    dsimp only [ModuleDraft.supply, Workspace.supply]
    rw [h.options, h.address, ← h.privileged]
    exact hrooted hnone
  case known => exact fun hfabric => hfabric
  case grounded =>
    refine ⟨hcomposes.composed, h.provides hbase hnames, ?_, ?_, h.known_of_fabric hbase⟩
    · intro path cls hpath
      rw [hnames] at hpath
      exact (hcomposes.contains cls).trans ((h.scope hbase).resolve hpath)
    · exact fun {cls} hcls => (hcomposes.contains cls).trans (hroot cls hcls)
  case outlines => exact hinstalls.forth

theorem Drafted.compiled_installed : classes.Compiled (draft.supply base workspace) := by
  have hextends := h.extends_installed hcomposes hmakes hinstalls
  have hsplit : ∀ {cls found}, classes.get? cls = some found →
      base.machine.classes.get? cls = some found ∨ ∃ entry ∈ draft.classes, entry.1 = cls :=
    fun hget => h.old_or_declared hcomposes hmakes hinstalls hget
  constructor
  case body =>
    intro cls found slot routine hget hmem
    rcases hsplit hget with hold | ⟨entry, hentry, rfl⟩
    · obtain ⟨source, sig, hvalid, hrest⟩ := hbase.compiled.body hold hmem
      exact ⟨source, sig, hvalid.mono h.supply hextends.outlines, hrest⟩
    · rcases hinstalls.body hget hmem with ⟨composed, hcomposed, hmem⟩ | hmem
      · rw [(h.bare hcomposes hentry hcomposed).1] at hmem
        cases hmem
      · obtain ⟨entry', hentry', heq, sig, hslot, hmethod⟩ := hmakes.body hmem
        exact ⟨_, sig, h.valid hbase hcomposes hinstalls hsource hnames hroot hrooted hentry', hslot,
          hmethod⟩
  case initializer =>
    intro cls found name routine hget hmem
    rcases hsplit hget with hold | ⟨entry, hentry, rfl⟩
    · obtain ⟨source, own, hvalid, hrest⟩ := hbase.compiled.initializer hold hmem
      exact ⟨source, own, hvalid.mono h.supply hextends.outlines, hrest⟩
    · rcases hinstalls.initializer hget hmem with ⟨composed, hcomposed, hmem⟩ | hmem
      · rw [(h.bare hcomposes hentry hcomposed).2] at hmem
        cases hmem
      · obtain ⟨entry', hentry', heq, own, hname, hinitializer⟩ := hmakes.initializer hmem
        exact ⟨_, own, h.valid hbase hcomposes hinstalls hsource hnames hroot hrooted hentry', hname,
          hinitializer⟩
  case complete =>
    intro cls found sig hget hmem
    rcases hsplit hget with hold | ⟨entry, hentry, rfl⟩
    · exact hbase.compiled.complete hold hmem
    · obtain ⟨composed, hcomposed, halike⟩ := hinstalls.back _ _ hget
      obtain ⟨routine, hroutine⟩ :=
        hmakes.complete hentry hcomposed (halike.ownMethods ▸ hmem)
      exact hinstalls.installed hget hroutine
  case distinct =>
    intro cls found hget
    rcases hsplit hget with hold | ⟨entry, hentry, rfl⟩
    · exact hbase.compiled.distinct hold
    · obtain ⟨composed, hcomposed, -⟩ := hinstalls.back _ _ hget
      refine hinstalls.distinct hcomposed hget ?_
      rw [Table.keys, (h.bare hcomposes hentry hcomposed).1]
      exact List.nodup_nil
  case written =>
    rintro cls sig ⟨found, hget, hmem⟩
    rcases hsplit hget with hold | ⟨entry, hentry, rfl⟩
    · exact hbase.compiled.written ⟨found, hold, hmem⟩
    · obtain ⟨composed, hcomposed, halike⟩ := hinstalls.back _ _ hget
      exact hmakes.written hentry hcomposed (halike.ownMethods ▸ hmem)
  case stored =>
    intro cls found own hget hmem
    rcases hsplit hget with hold | ⟨entry, hentry, rfl⟩
    · exact hbase.compiled.stored hold hmem
    · obtain ⟨composed, hcomposed, halike⟩ := hinstalls.back _ _ hget
      exact hmakes.stored hentry hcomposed (halike.ownFields ▸ hmem)

omit hinstalls in
theorem Drafted.install : draft.Built base url { workspace with machine := { workspace.machine with
    classes := installations.foldl Installation.apply ctx.classes } } := by
  have hinstalls := Installation.foldl_installs ctx.classes installations
  generalize installations.foldl Installation.apply ctx.classes = classes at hinstalls ⊢
  have hcontains := hcomposes.contains_installed hinstalls
  have hstands : ∀ target, Target.Stands base.modules workspace.machine.classes
      (draft.fabric? base.modules) target →
      target.Stands base.modules classes (draft.fabric? base.modules) :=
    fun _ htarget =>
      htarget.mono (fun _ _ h => h) (fun cls => (hcontains cls).mpr) fun _ _ h => h
  exact {
    h.toOutlined with
    classes := h.extends_installed hcomposes hmakes hinstalls
    named := h.named_installed hcomposes hmakes hinstalls
    spares := h.spares_installed hcomposes hmakes hinstalls
    composed := hcomposes.composed.of_outlines hinstalls.forth hinstalls.back
    fresh := fun {cls} hcls => h.fresh ((hcontains cls).mp hcls)
    present := fun cls hmem => (hcontains cls).mpr (h.present cls hmem)
    recorded := fun entry hmem =>
      hcomposes.records_installed hinstalls hmem (h.recorded entry hmem)
    listed := fun entry hmem => by
      rw [← h.listed entry hmem, ClassRegistry.find?, ClassRegistry.find?]
      exact congrArg (Table.get? · _) (hinstalls.byName.trans hcomposes.byName)
    symbols := h.symbols.imp hstands
    exports := fun entry hmem => hstands _ (h.exports entry hmem)
    main := fun hmain => (hcontains _).mpr (h.main hmain)
    compiled := h.compiled_installed hbase hcomposes hmakes hinstalls hsource hnames hroot hrooted
    declares := fun entry hmem => h.sources ▸ hsource _ (h.declared entry hmem) }

end

theorem Drafted.complete (h : draft.Drafted base url tree workspace) (hbase : base.Sound)
    (hsource : ∀ decl, Decl.cls decl ∈ tree.declarations → base.sources.DeclaresAt url decl) :
    Yields (Workspace.complete draft) workspace (fun _ next => draft.Built base url next)
      base.Breaks := by
  have hamid := h.toAmid
  unfold Workspace.complete
  refine yields_bind.mpr (yields_get.mpr ?_)
  dsimp only
  rw [h.modules]
  split
  case isTrue => exact yields_throw.mpr ⟨hamid, nofun, nofun⟩
  case isFalse hrooted =>
    refine yields_bind.mpr (yields_orFail (fun specs hspecs => ?_) fun _ _ => ⟨hamid, nofun, nofun⟩)
    refine yields_bind.mpr (yields_orFail (fun classes hclasses => ?_) fun _ _ => ⟨hamid, nofun, nofun⟩)
    refine yields_bind.mpr (yields_orFail (fun checked hcheck => ?_) fun _ _ => ⟨hamid, nofun, nofun⟩)
    obtain ⟨compiled, hcompiled⟩ := Body.lower_ok (h.provides hbase rfl) classes hcheck
    refine yields_bind.mpr (yields_orFail (fun installations hlower => ?_) fun cause hcause => ?_)
    case refine_2 => cases hcompiled.symm.trans hcause
    have hroot : ∀ cls, draft.coreClass? base.modules workspace.options
        workspace.options.rootClass = some cls → workspace.machine.classes.contains cls :=
      fun _ hcore => h.coreClass hbase hcore
    have hcomposes := h.composes hbase hroot hspecs hclasses
    have hmakes := hcomposes.makes hcheck hlower
    refine yields_modifyGet.mpr (h.install hbase hcomposes hmakes hsource rfl hroot fun hnone => ?_)
    dsimp only at hnone
    simpa [hnone] using hrooted

/-- The rest of a build, once everything that the module imports is named. -/
theorem Drafted.finish (h : draft.Drafted base url tree workspace) (hbase : base.Sound)
    (hpending : base.modules.find? url = none)
    (hsource : ∀ decl, Decl.cls decl ∈ tree.declarations → base.sources.DeclaresAt url decl)
    {fault : String} :
    Yields (do
        let draft ← tree.declarations.foldlM Workspace.declare draft
        let draft ← orFail (.resolve fault)
          (tree.declarations.foldlM (ModuleDraft.addNames base.modules) draft)
        let draft ← orFail (.resolve fault)
          (tree.declarations.foldlM (ModuleDraft.addMain base.modules) draft)
        Workspace.complete draft
        return draft) workspace
      (fun draft next => draft.Built base url next) base.Breaks := by
  refine yields_bind.mpr ((Yields.foldlM (motive := fun draft next =>
    draft.Drafted base url tree next) h fun decl hdecl draft next hdraft =>
      hdraft.declare hbase hpending hsource hdecl).imp
    ?_ fun _ _ h => h)
  intro draft next hdraft
  refine yields_bind.mpr (yields_orFail (fun named hnamed => ?_)
    fun cause _ => ⟨hdraft.toAmid, nofun, nofun⟩)
  have hdraft := foldlM_induction (motive := fun draft => draft.Drafted base url tree next) hdraft
    (fun draft decl later _ hdraft hadd => hdraft.addNames hbase hadd) hnamed
  refine yields_bind.mpr (yields_orFail (fun final hfinal => ?_)
    fun cause _ => ⟨hdraft.toAmid, nofun, nofun⟩)
  have hdraft := foldlM_induction (motive := fun draft => draft.Drafted base url tree next) hdraft
    (fun draft decl later _ hdraft hadd => hdraft.addMain hbase hadd) hfinal
  refine yields_bind.mpr ((hdraft.complete hbase hsource).imp (fun _ last hbuilt => ?_)
    fun _ _ h => h)
  exact yields_pure.mpr hbuilt

end ModuleDraft

/-- What is registered of a module that is built. -/
def ModuleDraft.seal (draft : ModuleDraft) (url text : String) (notes : List String × String) :
    Module where
  id := draft.id
  url
  privileged := draft.privileged
  checksum := Sha256.hexOfText text
  symbols := draft.symbols
  exports := draft.exports
  main := draft.main
  classes := draft.classes.map Prod.fst
  fabrics := draft.fabrics
  copyright := notes.1
  license := notes.2

namespace Workspace

variable {workspace base : Workspace} {tree : ModuleTree}

theorem drafted_empty (tree : ModuleTree) (hbase : base.Sound) {url : String} {privileged : Bool}
    {symbols : SymbolTable} (hprivileged : privileged = base.options.isPrivileged url)
    (hsymbols : symbols.All
      (Target.Stands base.modules base.machine.classes base.modules.fabric?)) :
    ModuleDraft.Drafted base url tree { id := base.modules.nextId, url, privileged, symbols }
      base where
  toAmid := hbase.amid
  composed := hbase.composed
  id := rfl
  address := rfl
  privileged := hprivileged
  fresh := .inl
  present := nofun
  nodup := List.nodup_nil
  recorded := nofun
  listed := nofun
  symbols := hsymbols.imp fun _ hstands => hstands.mono (fun _ _ h => h) (fun _ h => h)
    fun _ _ => ModuleDraft.fabric?_of_modules rfl
  exports := nofun
  main := nofun
  fabrics := nofun
  blank := nofun
  declared := nofun
  ownsNames := nofun

theorem coreSymbols_all (modules : ModuleRegistry) (classes : ClassRegistry) (fabrics : Fabrics)
    (core : Option ModuleId) : (∀ id, core = some id → ∃ module, modules.get? id = some module) →
      SymbolTable.All
        (match core with
          | some id => ({} : SymbolTable).defineNonlocal "core" (.module id) {}
          | none => {})
        (Target.Stands modules classes fabrics) := by
  intro hcore
  cases core with
  | none => exact SymbolTable.all_empty
  | some id => exact SymbolTable.all_empty.defineNonlocal (hcore id rfl)

/-- A module begins with the names of the modules that it imports. -/
theorem addImports_drafted {url : String} (hbase : base.Sound) {draft : ModuleDraft}
    (hdraft : draft.Drafted base url tree base) {imports : List (String × ModuleId × Span)}
    (himports : ∀ entry ∈ imports, ∃ module, base.modules.get? entry.2.1 = some module)
    {fault : String} :
    Yields (imports.foldlM (fun draft (name, id, span) =>
        orFail (.resolve fault) (draft.addLocal name (.module id) span)) draft) base
      (fun draft next => next = base ∧ draft.Drafted base url tree base) base.Breaks := by
  refine Yields.foldlM ⟨rfl, hdraft⟩ ?_
  rintro ⟨name, id, span⟩ hmem draft state ⟨rfl, hdraft⟩
  have hstands : Target.Stands state.modules state.machine.classes
      (draft.fabric? state.modules) (.module id) := himports _ hmem
  exact yields_orFail (fun next hnext => ⟨rfl, hdraft.addLocal hstands hnext⟩)
    fun _ _ => ⟨hbase.amid, nofun, nofun⟩

/-- The part of a build that follows the imports. -/
def assemble (options : Options) (url : String) (tree : ModuleTree)
    (needs : Option ModuleId × List (String × ModuleId × Span)) : Importing ModuleDraft := do
  let modules := (← get).modules
  let draft : ModuleDraft := {
    id := modules.nextId
    url
    privileged := options.isPrivileged url
    symbols :=
      match needs.1 with
      | some id => ({} : SymbolTable).defineNonlocal "core" (.module id) {}
      | none => {} }
  let wrap := ImportError.resolve url
  let draft ← needs.2.foldlM
    (fun draft (name, id, span) => orFail wrap (draft.addLocal name (.module id) span)) draft
  let draft ← tree.declarations.foldlM declare draft
  let draft ← orFail wrap (tree.declarations.foldlM (ModuleDraft.addNames modules) draft)
  let draft ← orFail wrap (tree.declarations.foldlM (ModuleDraft.addMain modules) draft)
  complete draft
  return draft

theorem assemble_sound {url : String}
    {needs : Option ModuleId × List (String × ModuleId × Span)} (hbase : base.Sound)
    (hpending : base.modules.find? url = none)
    (hsource : ∀ decl, Decl.cls decl ∈ tree.declarations → base.sources.DeclaresAt url decl)
    (hcore : ∀ id, needs.1 = some id → ∃ module, base.modules.get? id = some module)
    (himports : ∀ entry ∈ needs.2, ∃ module, base.modules.get? entry.2.1 = some module) :
    Yields (assemble base.options url tree needs) base (fun draft next => draft.Built base url next)
      base.Breaks := by
  have hsymbols := coreSymbols_all base.modules base.machine.classes base.modules.fabric? needs.1
    hcore
  unfold assemble
  refine yields_bind.mpr (yields_get.mpr (yields_bind.mpr
    ((addImports_drafted hbase (drafted_empty tree hbase rfl hsymbols) himports).imp ?_
      fun _ _ h => h)))
  rintro draft _ ⟨rfl, hdraft⟩
  exact hdraft.finish hbase hpending hsource

/-- A module that is built is registered under the number that it was given. -/
theorem register_sound {url : String} (hbase : base.Sound)
    (hunregistered : base.modules.find? url = none) {draft : ModuleDraft}
    (h : draft.Built base url workspace) (text : String) (notes : List String × String) :
    let next := { workspace with
      modules := (workspace.modules.register (draft.seal url text notes)).2 }
    next.Sound ∧ base.Grows next := by
  have hurl : (draft.seal url text notes).url = url := rfl
  have hsymbols : (draft.seal url text notes).symbols = draft.symbols := rfl
  have hexports : (draft.seal url text notes).exports = draft.exports := rfl
  have hmain : (draft.seal url text notes).main = draft.main := rfl
  have hclasses : (draft.seal url text notes).classes = draft.classes.map Prod.fst := rfl
  have hfabrics : (draft.seal url text notes).fabrics = draft.fabrics := rfl
  generalize draft.seal url text notes = module at *
  have hid : workspace.modules.nextId = draft.id := by rw [h.modules, h.id]
  have hextends : base.modules.Extends (workspace.modules.register module).2 := by
    rw [h.modules]
    exact ModuleRegistry.register_extends
  have hget : (workspace.modules.register module).2.get? draft.id =
      some { module with id := draft.id } := by
    rw [ModuleRegistry.get?_register, hid, if_pos]
    rw [← hid]
    rfl
  have hfabric : ∀ id value, draft.fabric? base.modules id = some value →
      (workspace.modules.register module).2.fabric? id = some value := by
    intro id value hvalue
    unfold ModuleDraft.fabric? at hvalue
    split at hvalue
    case isTrue heq =>
      refine Option.bind_eq_some_iff.mpr ⟨_, heq ▸ hget, ?_⟩
      dsimp only
      rw [hfabrics, hvalue]
    case isFalse => exact hextends.fabric hvalue
  have hstands : ∀ target, Target.Stands base.modules workspace.machine.classes
      (draft.fabric? base.modules) target → target.Stands (workspace.modules.register module).2
        workspace.machine.classes (workspace.modules.register module).2.fabric? :=
    fun _ htarget => htarget.mono hextends (fun _ h => h) hfabric
  have hsplit : ∀ {id found}, (workspace.modules.register module).2.get? id = some found →
      (id = draft.id ∧ found = { module with id := draft.id }) ∨
        base.modules.get? id = some found := by
    intro id found hfound
    rw [ModuleRegistry.get?_register, hid, h.modules] at hfound
    split at hfound
    case isTrue heq =>
      refine .inl ⟨?_, (Option.some.inj hfound).symm⟩
      rw [h.id]
      exact congrArg ModuleId.mk heq
    case isFalse => exact .inr hfound
  dsimp only
  refine ⟨?_, ⟨h.options, h.sources, h.classes, hextends, h.outline⟩⟩
  constructor
  case composed => exact h.composed
  case named => exact h.named
  case compiled => exact h.compiled.congr (.refl _) (.refl _) ⟨rfl, rfl, hfabric _ _, le_refl _⟩
  case running => exact h.running.extend hbase.composed h.classes
  case owned =>
    intro cls hcls
    rcases h.fresh hcls with hold | hnew
    · obtain ⟨id, old, hold, hmem⟩ := hbase.owned hold
      exact ⟨id, old, hextends _ _ hold, hmem⟩
    · refine ⟨_, _, hget, ?_⟩
      rw [hclasses]
      exact hnew
  case modules =>
    intro id found hfound
    rcases hsplit hfound with ⟨-, rfl⟩ | hold
    · constructor
      · rw [hsymbols]
        exact h.symbols.imp hstands
      · rw [hexports]
        exact fun entry hmem => hstands _ (h.exports entry hmem)
      · rw [hmain]
        exact h.main
      · rw [hclasses]
        exact h.present
      · rw [hclasses]
        exact h.nodup
      · rw [hfabrics]
        exact h.fabrics
    · exact (hbase.modules hold).mono hextends (fun _ => h.classes.contains) h.outline
  case numbered =>
    intro id found hfound
    rcases hsplit hfound with ⟨rfl, rfl⟩ | hold
    · rfl
    · exact hbase.numbered hold
  case located =>
    intro id found hfound
    dsimp only
    rw [ModuleRegistry.find?_register, h.modules, hurl]
    rcases hsplit hfound with ⟨rfl, rfl⟩ | hold
    · rw [if_pos hurl, h.id]
    · have hlocated := hbase.located hold
      rw [if_neg (fun heq => ?_), hlocated]
      rw [heq, hunregistered] at hlocated
      cases hlocated
  case recorded =>
    intro id found cls hfound hmem
    rcases hsplit hfound with ⟨rfl, rfl⟩ | hold
    · dsimp only at hmem ⊢
      rw [hclasses] at hmem
      obtain ⟨entry, hentry, rfl⟩ := List.mem_map.mp hmem
      exact ⟨entry.2, hurl ▸ h.declares entry hentry, hurl ▸ h.recorded entry hentry⟩
    · obtain ⟨decl, hdecl, hrecords⟩ := hbase.recorded hold hmem
      exact ⟨decl, h.sources ▸ hdecl, h.classes.outlines.records hrecords⟩
  case indexed =>
    intro hsources cls found hget
    dsimp only at hget hsources ⊢
    rcases h.fresh (ClassRegistry.contains_iff.mpr ⟨found, hget⟩) with hold | hnew
    · obtain ⟨former, hformer⟩ := ClassRegistry.contains_iff.mp hold
      obtain rfl := Option.some.inj ((h.classes cls former hformer).symm.trans hget)
      exact (h.spares (h.sources ▸ hsources)).kept hformer
    · obtain ⟨entry, hentry, rfl⟩ := List.mem_map.mp hnew
      obtain ⟨found', hfound', -, -, hqualified⟩ := h.recorded entry hentry
      obtain rfl := Option.some.inj (hget.symm.trans hfound')
      rw [hqualified, h.listed entry hentry]
  case byUrl =>
    intro other id hfind
    dsimp only at hfind
    rw [ModuleRegistry.find?_register] at hfind
    split at hfind
    case isTrue heq =>
      cases hfind
      refine ⟨_, hid ▸ hget, ?_⟩
      exact heq.symm
    case isFalse =>
      rw [h.modules] at hfind
      obtain ⟨found, hfound, hfoundUrl⟩ := hbase.byUrl hfind
      exact ⟨found, hextends _ _ hfound, hfoundUrl⟩

end Workspace

end Attire
