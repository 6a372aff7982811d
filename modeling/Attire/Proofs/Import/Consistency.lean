import Attire.Proofs.Import.Assembly
import Attire.Proofs.Import.History

namespace Attire

open Workspace

/-! Whatever was imported before, a module that is registered is the same. -/

/-- The modules have one address. -/
def ModuleRegistry.SameModule (modules modules' : ModuleRegistry) (id id' : ModuleId) : Prop :=
  ∃ url, modules.find? url = some id ∧ modules'.find? url = some id'

/-- The classes have one place in a module that both registries have. -/
def ModuleRegistry.SameClass (modules modules' : ModuleRegistry) (cls cls' : ClassId) : Prop :=
  ∃ url module module', modules.getByUrl? url = some module ∧
    modules'.getByUrl? url = some module' ∧
    ∃ position : Nat, module.classes[position]? = some cls ∧ module'.classes[position]? = some cls'

/-- What both workspaces have is alike. -/
structure Workspace.Consistent (workspace workspace' : Workspace) : Prop where
  modules {url : String} {module module' : Module} :
    workspace.modules.getByUrl? url = some module →
    workspace'.modules.getByUrl? url = some module' →
    module.Matches (workspace.modules.SameClass workspace'.modules)
      (workspace.modules.SameModule workspace'.modules) module'
  classes {cls cls' : ClassId} : workspace.modules.SameClass workspace'.modules cls cls' →
    ∃ found found', workspace.machine.classes.get? cls = some found ∧
      workspace'.machine.classes.get? cls' = some found' ∧
      found.Matches (workspace.modules.SameClass workspace'.modules) found'

/-- The modules of before, and the next one. -/
def ModuleId.Joined (modules modules' : ModuleRegistry) (id id' : ModuleId) : Prop :=
  modules.SameModule modules' id id' ∨ id = modules.nextId ∧ id' = modules'.nextId

namespace Workspace

variable {workspace workspace' next next' base base' : Workspace} {url : String}

theorem Sound.getByUrl?_eq {module : Module} (h : workspace.Sound) :
    workspace.modules.getByUrl? url = some module ↔
      ∃ id, workspace.modules.get? id = some module ∧ module.url = url := by
  constructor
  · intro hget
    obtain ⟨id, hfind, hmodule⟩ := Option.bind_eq_some_iff.mp hget
    obtain ⟨found, hfound, hurl⟩ := h.byUrl hfind
    cases hmodule.symm.trans hfound
    exact ⟨id, hmodule, hurl⟩
  · rintro ⟨id, hmodule, rfl⟩
    exact Option.bind_eq_some_iff.mpr ⟨id, h.located hmodule, hmodule⟩

theorem Sound.getByUrl?_grows {module : Module} (h : workspace.Sound) (hnext : next.Sound)
    (hgrows : workspace.Grows next) (hget : workspace.modules.getByUrl? url = some module) :
    next.modules.getByUrl? url = some module := by
  obtain ⟨id, hmodule, hurl⟩ := h.getByUrl?_eq.mp hget
  exact hnext.getByUrl?_eq.mpr ⟨id, hgrows.modules id module hmodule, hurl⟩

theorem Sound.getByUrl?_of_find {id : ModuleId} (h : workspace.Sound)
    (hfind : workspace.modules.find? url = some id) :
    ∃ module, workspace.modules.get? id = some module ∧
      workspace.modules.getByUrl? url = some module := by
  obtain ⟨module, hmodule, hurl⟩ := h.byUrl hfind
  exact ⟨module, hmodule, h.getByUrl?_eq.mpr ⟨id, hmodule, hurl⟩⟩

section

variable (h : workspace.Sound) (h' : workspace'.Sound)
include h h'

theorem Sound.sameModule_unique :
    Relator.BiUnique (workspace.modules.SameModule workspace'.modules) := by
  constructor
  · rintro id other id' ⟨url, hfind, hfind'⟩ ⟨url', hother, hother'⟩
    obtain ⟨module, hmodule, rfl⟩ := h'.byUrl hfind'
    obtain ⟨module', hmodule', rfl⟩ := h'.byUrl hother'
    cases hmodule.symm.trans hmodule'
    exact Option.some.inj (hfind.symm.trans hother)
  · rintro id id' other' ⟨url, hfind, hfind'⟩ ⟨url', hother, hother'⟩
    obtain ⟨module, hmodule, rfl⟩ := h.byUrl hfind
    obtain ⟨module', hmodule', rfl⟩ := h.byUrl hother
    cases hmodule.symm.trans hmodule'
    exact Option.some.inj (hfind'.symm.trans hother')

omit h' in
/-- A class is declared by one module and stands there once. -/
theorem Sound.class_unique {url' : String} {module module' : Module} {position position' : Nat}
    {cls : ClassId} (hget : workspace.modules.getByUrl? url = some module)
    (hget' : workspace.modules.getByUrl? url' = some module')
    (hcls : module.classes[position]? = some cls) (hcls' : module'.classes[position']? = some cls) :
    url = url' ∧ position = position' := by
  obtain ⟨id, hmodule, rfl⟩ := h.getByUrl?_eq.mp hget
  obtain ⟨id', hmodule', rfl⟩ := h.getByUrl?_eq.mp hget'
  obtain ⟨-, -, found, hfound, hid, -⟩ := h.recorded hmodule (List.mem_of_getElem? hcls)
  obtain ⟨-, -, found', hfound', hid', -⟩ := h.recorded hmodule' (List.mem_of_getElem? hcls')
  cases hfound.symm.trans hfound'
  cases hid.symm.trans hid'
  cases hmodule.symm.trans hmodule'
  have hlt := (List.getElem?_eq_some_iff.mp hcls).1
  exact ⟨rfl, (List.getElem?_inj hlt (h.modules hmodule).nodup).mp (hcls.trans hcls'.symm)⟩

theorem Sound.sameClass_unique :
    Relator.BiUnique (workspace.modules.SameClass workspace'.modules) := by
  constructor
  · rintro cls other cls' ⟨url, module, module', hget, hget', position, hcls, hcls'⟩
      ⟨url₂, module₂, module₂', hget₂, hget₂', position₂, hother, hother'⟩
    obtain ⟨rfl, rfl⟩ := h'.class_unique hget' hget₂' hcls' hother'
    cases hget.symm.trans hget₂
    exact Option.some.inj (hcls.symm.trans hother)
  · rintro cls cls' other' ⟨url, module, module', hget, hget', position, hcls, hcls'⟩
      ⟨url₂, module₂, module₂', hget₂, hget₂', position₂, hother, hother'⟩
    obtain ⟨rfl, rfl⟩ := h.class_unique hget hget₂ hcls hother
    cases hget'.symm.trans hget₂'
    exact Option.some.inj (hcls'.symm.trans hother')

theorem SameModule.grows (hnext : next.Sound) (hnext' : next'.Sound) (hgrows : workspace.Grows next)
    (hgrows' : workspace'.Grows next') {id id' : ModuleId}
    (hsame : workspace.modules.SameModule workspace'.modules id id') :
    next.modules.SameModule next'.modules id id' := by
  obtain ⟨url, hfind, hfind'⟩ := hsame
  exact ⟨url, h.find?_grows hnext hgrows hfind, h'.find?_grows hnext' hgrows' hfind'⟩

theorem SameClass.grows (hnext : next.Sound) (hnext' : next'.Sound) (hgrows : workspace.Grows next)
    (hgrows' : workspace'.Grows next') {cls cls' : ClassId}
    (hsame : workspace.modules.SameClass workspace'.modules cls cls') :
    next.modules.SameClass next'.modules cls cls' := by
  obtain ⟨url, module, module', hget, hget', hplace⟩ := hsame
  exact ⟨url, module, module', h.getByUrl?_grows hnext hgrows hget,
    h'.getByUrl?_grows hnext' hgrows' hget', hplace⟩

end

section

variable (h : base.Consistent base') (hbase : base.Sound) (hbase' : base'.Sound)
include hbase hbase'

theorem sameClass_bound {cls cls' : ClassId}
    (hsame : base.modules.SameClass base'.modules cls cls') :
    cls.index < base.machine.classes.size ∧ cls'.index < base'.machine.classes.size := by
  obtain ⟨url, module, module', hget, hget', position, hcls, hcls'⟩ := hsame
  obtain ⟨id, hmodule, -⟩ := hbase.getByUrl?_eq.mp hget
  obtain ⟨id', hmodule', -⟩ := hbase'.getByUrl?_eq.mp hget'
  exact ⟨of_decide_eq_true ((hbase.modules hmodule).declared _ (List.mem_of_getElem? hcls)),
    of_decide_eq_true ((hbase'.modules hmodule').declared _ (List.mem_of_getElem? hcls'))⟩

theorem joined_unique : Relator.BiUnique (ModuleId.Joined base.modules base'.modules) := by
  have hold := hbase.sameModule_unique hbase'
  have hnew : ∀ {id id'}, base.modules.SameModule base'.modules id id' →
      id ≠ base.modules.nextId ∧ id' ≠ base'.modules.nextId := by
    rintro id id' ⟨url, hfind, hfind'⟩
    obtain ⟨module, hmodule⟩ := hbase.registered hfind
    obtain ⟨module', hmodule'⟩ := hbase'.registered hfind'
    constructor
    · rintro rfl
      cases hmodule.symm.trans (ModuleDraft.get?_nextId _)
    · rintro rfl
      cases hmodule'.symm.trans (ModuleDraft.get?_nextId _)
  constructor
  · rintro a b c (ha | ⟨rfl, rfl⟩) (hb | ⟨rfl, heq⟩)
    · exact hold.1 ha hb
    · exact ((hnew ha).2 heq).elim
    · exact ((hnew hb).2 rfl).elim
    · rfl
  · rintro a b c (ha | ⟨rfl, rfl⟩) (hb | ⟨heq, rfl⟩)
    · exact hold.2 ha hb
    · exact ((hnew ha).1 heq).elim
    · exact ((hnew hb).1 rfl).elim
    · rfl

include h

theorem Consistent.matches_classes : base.machine.classes.Matches
    (base.modules.SameClass base'.modules) base'.machine.classes :=
  ⟨hbase.sameClass_unique hbase', h.classes⟩

theorem Consistent.matches_modules : base.modules.Matches
    (base.modules.SameClass base'.modules) (ModuleId.Joined base.modules base'.modules)
    base'.modules where
  unique := joined_unique hbase hbase'
  get? := by
    rintro id id' (⟨url, hfind, hfind'⟩ | ⟨rfl, rfl⟩)
    · obtain ⟨module, hmodule, hget⟩ := hbase.getByUrl?_of_find hfind
      obtain ⟨module', hmodule', hget'⟩ := hbase'.getByUrl?_of_find hfind'
      rw [hmodule, hmodule']
      exact .some ((h.modules hget hget').imp (fun _ _ h => h) fun _ _ => .inl)
    · rw [ModuleDraft.get?_nextId, ModuleDraft.get?_nextId]
      exact .none

omit h hbase hbase' in
theorem recallImports_rel {modules modules' : ModuleRegistry} {decls : List Decl}
    (hmeets : ∀ dependency ∈ decls.filterMap Decl.dependency?,
      ∃ id, modules.find? dependency = some id)
    (hmeets' : ∀ dependency ∈ decls.filterMap Decl.dependency?,
      ∃ id, modules'.find? dependency = some id) :
    List.Forall₂ (fun entry entry' => entry.1 = entry'.1 ∧
        ModuleId.Joined modules modules' entry.2.1 entry'.2.1 ∧ entry.2.2 = entry'.2.2)
      (decls.filterMap modules.recallImport) (decls.filterMap modules'.recallImport) := by
  induction decls with
  | nil => exact .nil
  | cons decl rest ih =>
    cases decl with
    | «import» dependency name span =>
      obtain ⟨id, hfind⟩ := hmeets dependency (by simp [Decl.dependency?])
      obtain ⟨id', hfind'⟩ := hmeets' dependency (by simp [Decl.dependency?])
      have hrest := ih (fun other hmem => hmeets other (List.mem_cons_of_mem _ hmem))
        fun other hmem => hmeets' other (List.mem_cons_of_mem _ hmem)
      simp only [List.filterMap_cons, ModuleRegistry.recallImport, hfind, hfind', Option.map_some]
      exact .cons ⟨rfl, .inl ⟨dependency, hfind, hfind'⟩, rfl⟩ hrest
    | _ => exact ih hmeets hmeets'

end

theorem coreSymbols_matches {same : ClassId → ClassId → Prop} {alike : ModuleId → ModuleId → Prop}
    (hclasses : Relator.BiUnique same) (hmodules : Relator.BiUnique alike)
    (core core' : Option ModuleId) : Option.Rel alike core core' →
      SymbolTable.Matches same alike
        (match core with
          | some id => ({} : SymbolTable).defineNonlocal "core" (.module id) {}
          | none => {})
        (match core' with
          | some id => ({} : SymbolTable).defineNonlocal "core" (.module id) {}
          | none => {}) := by
  intro h
  cases h with
  | none => exact Table.Matches.empty
  | some h => exact SymbolTable.Matches.defineNonlocal .empty hclasses hmodules (.module h)

/-- Where all is registered that a module needs, it recalls the same. -/
theorem recall_rel {modules modules' : ModuleRegistry} {options : Options} {tree : ModuleTree}
    (hmeets : modules.Meets options url tree) (hmeets' : modules'.Meets options url tree) :
    Option.Rel (ModuleId.Joined modules modules') (modules.recall options url tree).1
        (modules'.recall options url tree).1 ∧
      List.Forall₂ (fun entry entry' => entry.1 = entry'.1 ∧
          ModuleId.Joined modules modules' entry.2.1 entry'.2.1 ∧ entry.2.2 = entry'.2.2)
        (modules.recall options url tree).2 (modules'.recall options url tree).2 := by
  constructor
  · simp only [ModuleRegistry.recall]
    split
    case isTrue => exact .none
    case isFalse hne =>
      obtain ⟨id, hfind⟩ := hmeets options.coreUrl (by simp [ModuleTree.needs, hne])
      obtain ⟨id', hfind'⟩ := hmeets' options.coreUrl (by simp [ModuleTree.needs, hne])
      rw [hfind, hfind']
      exact .some (.inl ⟨_, hfind, hfind'⟩)
  · exact recallImports_rel (fun dependency hmem => hmeets _ (List.mem_append_right _ hmem))
      fun dependency hmem => hmeets' _ (List.mem_append_right _ hmem)

/-- A module that is built from what both workspaces have comes out alike. -/
theorem Consistent.assemble_coincide {text : String} {tree : ModuleTree}
    (h : base.Consistent base') (hbase : base.Sound) (hbase' : base'.Sound)
    (hoptions : base'.options = base.options) (hsources : base'.sources = base.sources)
    (hpending : base.modules.find? url = none) (hpending' : base'.modules.find? url = none)
    (hfetch : base.sources.fetch url = .ok text) (htree : ModuleTree.ofText? text = some tree)
    (hmeets : base.modules.Meets base.options url tree)
    (hmeets' : base'.modules.Meets base'.options url tree) :
    Coincide (fun draft built draft' built' => ∃ count,
        draft.Matches (Joins (base.modules.SameClass base'.modules) base base' count)
          (ModuleId.Joined base.modules base'.modules) draft' ∧
        built.machine.classes.Matches
          (Joins (base.modules.SameClass base'.modules) base base' count) built'.machine.classes)
      (assemble base.options url tree (base.modules.recall base.options url tree) base)
      (assemble base'.options url tree (base'.modules.recall base'.options url tree) base') := by
  rw [hoptions] at hmeets' ⊢
  have hclasses := h.matches_classes hbase hbase'
  have hmodules := h.matches_modules hbase hbase'
  have hbound : ∀ cls cls', base.modules.SameClass base'.modules cls cls' →
      cls.index < base.machine.classes.size ∧ cls'.index < base'.machine.classes.size :=
    fun _ _ => sameClass_bound hbase hbase'
  have hsource : ∀ decl, Decl.cls decl ∈ tree.declarations → base.sources.DeclaresAt url decl :=
    fun decl hdecl => ⟨text, tree, hfetch, htree, hdecl⟩
  obtain ⟨hcore, himports⟩ := recall_rel hmeets hmeets'
  obtain ⟨hcoreBase, himportsBase⟩ := hbase.recalled base.options url tree
  obtain ⟨hcoreBase', himportsBase'⟩ := hbase'.recalled base.options url tree
  have hstart := ModuleDraft.matches_start (.inr ⟨rfl, rfl⟩) url (base.options.isPrivileged url)
    (coreSymbols_matches hclasses.unique hmodules.unique _ _ hcore)
  have hall := coreSymbols_all base.modules base.machine.classes base.modules.fabric? _ hcoreBase
  have hall' :=
    coreSymbols_all base'.modules base'.machine.classes base'.modules.fabric? _ hcoreBase'
  unfold assemble
  refine Coincide.bind_get (((addImports_coincide hstart himports url base base').and_yields
    (addImports_drafted hbase (drafted_empty tree hbase rfl hall) himportsBase)
    (addImports_drafted hbase' (drafted_empty tree hbase' (by rw [hoptions]) hall')
      himportsBase')).bind ?_)
  rintro draft next draft' next' ⟨⟨hdrafts, hnext, hnext'⟩, ⟨-, hdraft⟩, -, hdraft'⟩
  have hnone : Joins (base.modules.SameClass base'.modules) base base' 0 =
      base.modules.SameClass base'.modules := ClassId.Joined.zero
  have hstep : ModuleDraft.InStep (base.modules.SameClass base'.modules)
      (ModuleId.Joined base.modules base'.modules) base base' 0 draft base draft' base' :=
    ⟨hnone.symm ▸ hdrafts, hnone.symm ▸ hclasses, rfl, rfl⟩
  rw [hnext, hnext']
  refine finish_coincide hclasses.unique hbound hstep hbase hbase' hoptions.symm hpending hpending'
    hsource (hsources ▸ hsource) hdraft hdraft' hmodules fun hne => ?_
  simpa only [ModuleRegistry.recall, if_neg hne] using hcore

variable {start : Workspace} {draft draft' : ModuleDraft}

/-- The second workspace has one module more, built from what the first one has. -/
structure Adds (base : Workspace) (url : String) (draft : ModuleDraft) (next : Workspace) : Prop where
  sound : base.Sound
  pending : base.modules.find? url = none
  assembled : ∃ text tree, base.sources.fetch url = .ok text ∧
    ModuleTree.ofText? text = some tree ∧ base.modules.Meets base.options url tree ∧
    ∃ built notes, notices url tree = .ok notes ∧
      assemble base.options url tree (base.modules.recall base.options url tree) base =
        .ok draft built ∧
      next = { built with modules := (built.modules.register (draft.seal url text notes)).2 }

namespace Adds

theorem of_assemble {text : String} {tree : ModuleTree} {built : Workspace}
    {notes : List String × String} (hbase : base.Sound) (hpending : base.modules.find? url = none)
    (hfetch : base.sources.fetch url = .ok text) (htree : ModuleTree.ofText? text = some tree)
    (hnotes : notices url tree = .ok notes) (hmeets : base.modules.Meets base.options url tree)
    (hbuild : assemble base.options url tree (base.modules.recall base.options url tree) base =
      .ok draft built) :
    base.Adds url draft { built with
      modules := (built.modules.register (draft.seal url text notes)).2 } :=
  ⟨hbase, hpending, text, tree, hfetch, htree, hmeets, built, notes, hnotes, hbuild, rfl⟩

section

variable (h : base.Adds url draft next)
include h

theorem grows : next.Sound ∧ base.Grows next := by
  obtain ⟨text, tree, hfetch, htree, -, built, notes, -, hbuild, rfl⟩ := h.assembled
  exact register_sound h.sound h.pending
    ((assemble_recall h.sound h.pending hfetch htree).of_ok hbuild) text notes

theorem find?_eq (other : String) : next.modules.find? other =
    if other = url then some base.modules.nextId else base.modules.find? other := by
  obtain ⟨text, tree, hfetch, htree, -, built, notes, -, hbuild, rfl⟩ := h.assembled
  have hbuilt := (assemble_recall h.sound h.pending hfetch htree).of_ok hbuild
  dsimp only
  rw [ModuleRegistry.find?_register, hbuilt.modules]
  rfl

theorem getByUrl?_self : ∃ module, next.modules.getByUrl? url = some module ∧
    module.symbols = draft.symbols ∧ module.exports = draft.exports ∧
    module.classes = draft.classes.map Prod.fst := by
  have hfind := (h.find?_eq url).trans (if_pos rfl)
  obtain ⟨text, tree, hfetch, htree, -, built, notes, -, hbuild, rfl⟩ := h.assembled
  have hbuilt := (assemble_recall h.sound h.pending hfetch htree).of_ok hbuild
  dsimp only at hfind ⊢
  refine ⟨{ draft.seal url text notes with id := built.modules.nextId }, ?_, rfl, rfl, rfl⟩
  rw [ModuleRegistry.getByUrl?, hfind, Option.bind_some, ← hbuilt.modules,
    ModuleRegistry.get?_register]
  exact if_pos rfl

theorem getByUrl?_other {other : String} (hne : other ≠ url) :
    next.modules.getByUrl? other = base.modules.getByUrl? other := by
  obtain ⟨hnext, hgrows⟩ := h.grows
  unfold ModuleRegistry.getByUrl?
  rw [h.find?_eq, if_neg hne]
  cases hfind : base.modules.find? other with
  | none => rfl
  | some id =>
    obtain ⟨module, hmodule⟩ := h.sound.registered hfind
    exact (hgrows.modules id module hmodule).trans hmodule.symm

theorem fresh {cls : ClassId} (hcls : next.machine.classes.contains cls) :
    base.machine.classes.contains cls ∨ cls ∈ draft.classes.map Prod.fst := by
  obtain ⟨text, tree, hfetch, htree, -, built, notes, -, hbuild, rfl⟩ := h.assembled
  exact ((assemble_recall h.sound h.pending hfetch htree).of_ok hbuild).fresh hcls

/-- Modules of one address come out alike where everything else does. -/
theorem matches_of_consistent (h' : base'.Adds url draft' next') (hbase : base.Consistent base')
    (hoptions : base'.options = base.options) (hsources : base'.sources = base.sources) :
    ∃ count,
      draft.Matches (Joins (base.modules.SameClass base'.modules) base base' count)
        (ModuleId.Joined base.modules base'.modules) draft' ∧
      next.machine.classes.Matches
        (Joins (base.modules.SameClass base'.modules) base base' count) next'.machine.classes := by
  obtain ⟨text, tree, hfetch, htree, hmeets, built, notes, -, hbuild, rfl⟩ := h.assembled
  obtain ⟨text', tree', hfetch', htree', hmeets', built', notes', -, hbuild', rfl⟩ := h'.assembled
  rw [hsources, hfetch] at hfetch'
  cases hfetch'
  cases htree.symm.trans htree'
  have hcoincide := hbase.assemble_coincide h.sound h'.sound hoptions hsources h.pending h'.pending
    hfetch htree hmeets hmeets'
  rw [hbuild, hbuild'] at hcoincide
  cases hcoincide with
  | ok hmatches => exact hmatches

end

end Adds

/-- A module that is registered was added once. -/
theorem Leads.origin (h : start.Leads next) (hstart : start.Sound)
    (hnone : start.modules.find? url = none) {id : ModuleId}
    (hfind : next.modules.find? url = some id) :
    ∃ base added draft, start.Leads base ∧ base.Adds url draft added ∧ added.Grows next := by
  induction h generalizing id with
  | refl => cases hnone.symm.trans hfind
  | @module base _ _ _ _ _ draft hleads hpending hfetch htree hnotes hmeets hbuild ih =>
    have hadds := Adds.of_assemble (hleads.sound hstart).1 hpending hfetch htree hnotes hmeets hbuild
    rw [hadds.find?_eq] at hfind
    split at hfind
    case isTrue heq =>
      subst heq
      exact ⟨base, _, draft, hleads, hadds, .refl _⟩
    case isFalse =>
      obtain ⟨base', added, draft', hleads', hadds', hgrows⟩ := ih hfind
      exact ⟨base', added, draft', hleads', hadds', hgrows.trans hadds.grows.2⟩
  | kept _ _ hgrows' hmodules _ ih =>
    rw [hmodules] at hfind
    obtain ⟨base', added, draft', hleads', hadds', hgrows⟩ := ih hfind
    exact ⟨base', added, draft', hleads', hadds', hgrows.trans hgrows'⟩

/-- What is new on the left has to match; the rest still does. -/
theorem Consistent.grow (h : base.Consistent workspace) (hbase : base.Sound) (hnext : next.Sound)
    (hworkspace : workspace.Sound) (hgrows : base.Grows next)
    (hnew : ∀ url module module', next.modules.getByUrl? url = some module →
      workspace.modules.getByUrl? url = some module' →
      base.modules.getByUrl? url = some module ∨
        module.Matches (next.modules.SameClass workspace.modules)
          (next.modules.SameModule workspace.modules) module' ∧
        ∀ (position : Nat) (cls cls' : ClassId), module.classes[position]? = some cls →
          module'.classes[position]? = some cls' →
          ∃ found found', next.machine.classes.get? cls = some found ∧
            workspace.machine.classes.get? cls' = some found' ∧
            found.Matches (next.modules.SameClass workspace.modules) found') :
    next.Consistent workspace := by
  have hsame : ∀ cls cls', base.modules.SameClass workspace.modules cls cls' →
      next.modules.SameClass workspace.modules cls cls' :=
    fun _ _ => SameClass.grows hbase hworkspace hnext hworkspace hgrows (.refl _)
  have halike : ∀ id id', base.modules.SameModule workspace.modules id id' →
      next.modules.SameModule workspace.modules id id' :=
    fun _ _ => SameModule.grows hbase hworkspace hnext hworkspace hgrows (.refl _)
  constructor
  case modules =>
    intro url module module' hmodule hmodule'
    rcases hnew url module module' hmodule hmodule' with hold | ⟨hmatches, -⟩
    · exact (h.modules hold hmodule').imp hsame halike
    · exact hmatches
  case classes =>
    rintro cls cls' ⟨url, module, module', hmodule, hmodule', position, hcls, hcls'⟩
    rcases hnew url module module' hmodule hmodule' with hold | ⟨-, hclasses⟩
    · obtain ⟨found, found', hget, hget', hfound⟩ :=
        h.classes ⟨url, module, module', hold, hmodule', position, hcls, hcls'⟩
      exact ⟨found, found', hgrows.classes _ _ hget, hget', hfound.imp hsame⟩
    · exact hclasses position cls cls' hcls hcls'

section

variable (hadds : base.Adds url draft next) (hadds' : base'.Adds url draft' next')
variable (hnext : workspace.Sound) (hgrows : next'.Grows workspace) {count : Nat}
variable (hdrafts : draft.Matches (Joins (base.modules.SameClass base'.modules) base base' count)
  (ModuleId.Joined base.modules base'.modules) draft')
variable (hclasses : next.machine.classes.Matches
  (Joins (base.modules.SameClass base'.modules) base base' count) next'.machine.classes)
include hadds hadds' hnext hgrows

theorem sameModule_of_joined {id id' : ModuleId}
    (h : ModuleId.Joined base.modules base'.modules id id') :
    next.modules.SameModule workspace.modules id id' := by
  rcases h with h | ⟨rfl, rfl⟩
  · exact SameModule.grows hadds.sound hadds'.sound hadds.grows.1 hnext hadds.grows.2
      (hadds'.grows.2.trans hgrows) h
  · refine ⟨url, (hadds.find?_eq url).trans (if_pos rfl), ?_⟩
    exact hadds'.grows.1.find?_grows hnext hgrows ((hadds'.find?_eq url).trans (if_pos rfl))

include hdrafts hclasses

/-- The new classes have their places in the new module. -/
theorem sameClass_of_joins {cls cls' : ClassId}
    (h : Joins (base.modules.SameClass base'.modules) base base' count cls cls') :
    next.modules.SameClass workspace.modules cls cls' := by
  rcases h with h | ⟨position, hlt, rfl, rfl⟩
  · exact SameClass.grows hadds.sound hadds'.sound hadds.grows.1 hnext hadds.grows.2
      (hadds'.grows.2.trans hgrows) h
  · obtain ⟨module, hmodule, -, -, hlist⟩ := hadds.getByUrl?_self
    obtain ⟨module', hmodule', -, -, hlist'⟩ := hadds'.getByUrl?_self
    have hjoined : Joins (base.modules.SameClass base'.modules) base base' count
        ⟨base.machine.classes.size + position⟩ ⟨base'.machine.classes.size + position⟩ :=
      .inr ⟨position, hlt, rfl, rfl⟩
    obtain ⟨found, -, hfound, -⟩ := hclasses.get? hjoined
    have hmem := (hadds.fresh (ClassRegistry.contains_iff.mpr ⟨found, hfound⟩)).resolve_left
      fun hold => by
        have := of_decide_eq_true hold
        dsimp only at this
        omega
    obtain ⟨place, hplace⟩ := List.mem_iff_getElem?.mp hmem
    obtain ⟨hnone, -⟩ | ⟨cls, cls', hsome, hsome', hcls⟩ := rel_cases
      (getElem?_rel hdrafts.ids place)
    · cases hplace.symm.trans hnone
    · cases hplace.symm.trans hsome
      obtain rfl := hclasses.unique.2 hcls hjoined
      exact ⟨url, module, module', hmodule,
        hadds'.grows.1.getByUrl?_grows hnext hgrows hmodule', place, hlist ▸ hsome, hlist' ▸ hsome'⟩

/-- With one module more on both sides, all that is there is still alike. -/
theorem Consistent.adds (hbase : base.Consistent workspace) : next.Consistent workspace := by
  have hsame : ∀ cls cls', Joins (base.modules.SameClass base'.modules) base base' count cls cls' →
      next.modules.SameClass workspace.modules cls cls' :=
    fun _ _ => sameClass_of_joins hadds hadds' hnext hgrows hdrafts hclasses
  have halike : ∀ id id', ModuleId.Joined base.modules base'.modules id id' →
      next.modules.SameModule workspace.modules id id' :=
    fun _ _ => sameModule_of_joined hadds hadds' hnext hgrows
  obtain ⟨module, hmodule, hsymbols, hexports, hlist⟩ := hadds.getByUrl?_self
  obtain ⟨module', hmodule', hsymbols', hexports', hlist'⟩ := hadds'.getByUrl?_self
  have hthere := hadds'.grows.1.getByUrl?_grows hnext hgrows hmodule'
  refine hbase.grow hadds.sound hadds.grows.1 hnext hadds.grows.2
    fun other found found' hfound hfound' => ?_
  by_cases hother : other = url
  case neg => exact .inl (hadds.getByUrl?_other hother ▸ hfound)
  case pos =>
    subst hother
    cases hmodule.symm.trans hfound
    cases hthere.symm.trans hfound'
    refine .inr ⟨⟨?symbols, ?exports⟩, fun position cls cls' hcls hcls' => ?classes⟩
    case symbols =>
      rw [hsymbols, hsymbols']
      exact hdrafts.symbols.imp hsame halike
    case exports =>
      rw [hexports, hexports']
      exact hdrafts.exports.imp (fun _ _ h => h) fun _ _ h => h.imp hsame halike
    case classes =>
      have hjoins := getElem?_rel hdrafts.ids position
      rw [← hlist, ← hlist', hcls, hcls'] at hjoins
      cases hjoins with
      | some hjoins =>
        obtain ⟨cls, cls', hget, hget', hmatches⟩ := hclasses.get? hjoins
        exact ⟨cls, cls', hget, hgrows.classes _ _ hget', hmatches.imp hsame⟩

end

/-- Two histories that begin without modules never disagree. -/
theorem Leads.consistent (hsound : start.Sound) (hnone : ∀ url, start.modules.find? url = none)
    (h : start.Leads workspace) (h' : start.Leads workspace') : workspace.Consistent workspace' := by
  induction h generalizing workspace' with
  | refl =>
    have hempty : ∀ url module, start.modules.getByUrl? url ≠ some module := by
      intro url module hget
      obtain ⟨id, hfind, -⟩ := Option.bind_eq_some_iff.mp hget
      cases (hnone url).symm.trans hfind
    constructor
    · exact fun hget => (hempty _ _ hget).elim
    · rintro cls cls' ⟨url, module, -, hget, -⟩
      exact (hempty _ _ hget).elim
  | @module base _ url _ _ _ _ hleads hpending hfetch htree hnotes hmeets hbuild ih =>
    have hadds := Adds.of_assemble (hleads.sound hsound).1 hpending hfetch htree hnotes hmeets hbuild
    have hworkspace := (h'.sound hsound).1
    cases hfind : workspace'.modules.find? url with
    | none =>
      refine (ih h').grow hadds.sound hadds.grows.1 hworkspace hadds.grows.2
        fun other module module' hmodule hmodule' => .inl ?_
      rwa [hadds.getByUrl?_other] at hmodule
      rintro rfl
      obtain ⟨id, hfind', -⟩ := Option.bind_eq_some_iff.mp hmodule'
      cases hfind.symm.trans hfind'
    | some id =>
      obtain ⟨base', next', draft', hleads', hadds', hgrows⟩ := h'.origin hsound (hnone url) hfind
      have hgrowsBase := (hleads.sound hsound).2
      have hgrowsBase' := (hleads'.sound hsound).2
      obtain ⟨count, hdrafts, hclasses⟩ := hadds.matches_of_consistent hadds' (ih hleads')
        (hgrowsBase'.options.trans hgrowsBase.options.symm)
        (hgrowsBase'.sources.trans hgrowsBase.sources.symm)
      exact Consistent.adds hadds hadds' hworkspace hgrows hdrafts hclasses (ih h')
  | kept hleads hnext hgrows hmodules _ ih =>
    exact (ih h').grow (hleads.sound hsound).1 hnext (h'.sound hsound).1 hgrows
      fun _ _ _ hmodule _ => .inl (hmodules ▸ hmodule)

end Workspace

end Attire
