import Attire.Proofs.Classes.Recomposition
import Attire.Proofs.Import.Loader
import Attire.Proofs.Typing.Bodies

namespace Attire

open Workspace

/-! Modules are built alike, whatever else is registered. -/

variable {same same' : ClassId → ClassId → Prop} {alike alike' : ModuleId → ModuleId → Prop}
variable {modules modules' : ModuleRegistry}

/-- The modules under construction have named the same, and they declare the same classes. -/
structure ModuleDraft.Matches (same : ClassId → ClassId → Prop)
    (alike : ModuleId → ModuleId → Prop) (draft draft' : ModuleDraft) : Prop where
  id : alike draft.id draft'.id
  url : draft.url = draft'.url
  privileged : draft.privileged = draft'.privileged
  symbols : draft.symbols.Matches same alike draft'.symbols
  exports : Table.Pairs (Target.Matches same alike) draft.exports draft'.exports
  main : draft.main.isSome = draft'.main.isSome
  classes : List.Forall₂ (fun entry entry' => same entry.1 entry'.1 ∧ entry.2 = entry'.2)
    draft.classes draft'.classes
  fabrics : draft.fabrics.length = draft'.fabrics.length

namespace ModuleDraft

variable {draft draft' : ModuleDraft} {target target' : Target}

theorem Matches.imp (h : draft.Matches same alike draft')
    (hsame : ∀ cls cls', same cls cls' → same' cls cls') : draft.Matches same' alike draft' :=
  { h with
    symbols := h.symbols.imp hsame fun _ _ h => h
    exports := h.exports.imp (fun _ _ h => h) fun _ _ h => h.imp hsame fun _ _ h => h
    classes := h.classes.imp fun _ _ hentry => ⟨hsame _ _ hentry.1, hentry.2⟩ }

theorem Matches.ids (h : draft.Matches same alike draft') :
    List.Forall₂ same (draft.classes.map Prod.fst) (draft'.classes.map Prod.fst) :=
  List.forall₂_map_left_iff.mpr
    (List.forall₂_map_right_iff.mpr (h.classes.imp fun _ _ hentry => hentry.1))

theorem matches_start {id id' : ModuleId} (hid : alike id id') (url : String) (privileged : Bool)
    {symbols symbols' : SymbolTable} (hsymbols : symbols.Matches same alike symbols') :
    Matches same alike { id, url, privileged, symbols }
      { id := id', url, privileged, symbols := symbols' } :=
  ⟨hid, rfl, rfl, hsymbols, .empty, rfl, .nil, rfl⟩

theorem Matches.scope (h : draft.Matches same alike draft')
    (hmodules : modules.Matches same alike modules') :
    (draft.scope modules).Matches same alike (draft'.scope modules') :=
  ⟨hmodules, h.symbols⟩

theorem Matches.exportIf (h : draft.Matches same alike draft') (exported : Bool) (name : String)
    (htarget : target.Matches same alike target') :
    (draft.exportIf exported name target).Matches same alike
      (draft'.exportIf exported name target') := by
  unfold ModuleDraft.exportIf
  split
  · exact { h with exports := h.exports.insert Table.biUnique_eq rfl htarget }
  · exact h

theorem addLocal_agree (h : draft.Matches same alike draft') (name : String)
    (htarget : target.Matches same alike target') (span : Span) :
    Agree (Matches same alike) (draft.addLocal name target span)
      (draft'.addLocal name target' span) := by
  unfold addLocal
  obtain ⟨hnone, hnone'⟩ | ⟨symbols, symbols', hsome, hsome', hsymbols⟩ :=
    rel_cases (h.symbols.defineLocal? htarget)
  · rw [hnone, hnone']
    exact .error _
  · rw [hsome, hsome']
    exact .ok { h with symbols := hsymbols }

theorem addNames_agree (h : draft.Matches same alike draft') (hunique : Relator.BiUnique same)
    (hmodules : modules.Matches same alike modules') (decl : Decl) :
    Agree (Matches same alike) (draft.addNames modules decl) (draft'.addNames modules' decl) := by
  have hscope := h.scope hmodules
  cases decl with
  | «alias» name path exported span =>
    refine (hscope.resolve_agree path).mapError.bind fun target target' htarget => ?_
    exact (addLocal_agree h name htarget span).bind fun _ _ hnext =>
      .pure (hnext.exportIf exported name htarget)
  | wildcard path span =>
    refine (hscope.resolveModule_agree path).mapError.bind fun source source' hsource => ?_
    have hexports : Table.Pairs (Target.Matches same alike)
        (((modules.get? source).map Module.exports).getD ∅)
        (((modules'.get? source').map Module.exports).getD ∅) := by
      obtain ⟨hnone, hnone'⟩ | ⟨module, module', hsome, hsome', hmodule⟩ :=
        rel_cases (hmodules.get? hsource)
      · rw [hnone, hnone']
        exact .empty
      · rw [hsome, hsome']
        exact hmodule.exports
    refine .pure { h with symbols := List.rel_foldl ?_ h.symbols hexports }
    rintro symbols symbols' hsymbols ⟨name, target⟩ ⟨_, target'⟩ ⟨rfl, htarget⟩
    exact hsymbols.defineNonlocal hunique hmodules.unique htarget
  | _ => exact .ok h

theorem addMain_agree (h : draft.Matches same alike draft')
    (hmodules : modules.Matches same alike modules') (decl : Decl) :
    Agree (Matches same alike) (draft.addMain modules decl) (draft'.addMain modules' decl) := by
  cases decl with
  | main path span =>
    simp only [addMain, h.main]
    split
    · exact .error _
    · exact ((h.scope hmodules).resolveClass_agree path).mapError.bind fun _ _ _ =>
        .pure { h with main := rfl }
  | _ => exact .ok h

theorem coreClass?_rel (h : draft.Matches same alike draft')
    (hmodules : modules.Matches same alike modules') {options : Options}
    (hcore : draft.url ≠ options.coreUrl → Option.Rel alike (modules.find? options.coreUrl)
      (modules'.find? options.coreUrl)) (name : String) :
    Option.Rel same (draft.coreClass? modules options name)
      (draft'.coreClass? modules' options name) := by
  have hsymbols : Option.Rel (SymbolTable.Matches same alike)
      (if draft.url = options.coreUrl then some draft.symbols
        else (modules.getByUrl? options.coreUrl).map Module.symbols)
      (if draft'.url = options.coreUrl then some draft'.symbols
        else (modules'.getByUrl? options.coreUrl).map Module.symbols) := by
    rw [← h.url]
    split
    case isTrue => exact .some h.symbols
    case isFalse hne =>
      obtain ⟨hnone, hnone'⟩ | ⟨module, module', hsome, hsome', hmodule⟩ :=
        rel_cases (hmodules.getByUrl? (hcore hne))
      · rw [hnone, hnone']
        exact .none
      · rw [hsome, hsome']
        exact .some hmodule.symbols
  unfold coreClass?
  dsimp only
  obtain ⟨hnone, hnone'⟩ | ⟨symbols, symbols', hsome, hsome', hsymbols⟩ := rel_cases hsymbols
  · rw [hnone, hnone']
    exact .none
  · rw [hsome, hsome']
    simp only [Option.bind_some]
    obtain ⟨hnone, hnone'⟩ | ⟨binding, binding', hsome, hsome', hbinding⟩ :=
      rel_cases (hsymbols.lookup name)
    · rw [hnone, hnone']
      exact .none
    · rw [hsome, hsome']
      obtain ⟨target, origin, span⟩ := binding
      obtain ⟨target', origin', span'⟩ := binding'
      obtain ⟨htarget, -⟩ := hbinding
      cases htarget with
      | cls hcls => exact .some hcls
      | _ => exact .none

end ModuleDraft

section

variable {names names' : NameScope} (h : names.Matches same alike names')
include h

theorem memberSpec_agree (member : Member) :
    Agree (MemberSpec.Matches same) (memberSpec names member) (memberSpec names' member) := by
  cases member with
  | field decl =>
    exact (h.resolveType_agree decl.ty).mapError.bind fun _ _ hty => .pure (.field ⟨rfl, hty, rfl⟩)
  | method decl =>
    refine (h.resolveTypes_agree _).mapError.bind fun _ _ hparams => ?_
    refine (h.resolveType_agree decl.ret).mapError.bind fun _ _ hret => ?_
    exact .pure (.method ⟨rfl, hparams, hret, rfl, rfl, rfl, rfl⟩)

theorem classSpec_agree (hunique : Relator.BiUnique same) (privileged : Bool)
    {root root' : Option ClassId} (hroot : Option.Rel same root root') {id id' : ClassId}
    (hid : same id id') (decl : ClassDecl) :
    Agree (ClassSpec.Matches same) (classSpec names privileged root id decl)
      (classSpec names' privileged root' id' decl) := by
  refine (Agree.mapM_same h.resolveClass_agree).mapError.bind fun parents parents' hparents => ?_
  refine (Agree.mapM_same (memberSpec_agree h)).bind fun members members' hmembers =>
    .pure ⟨?_, hmembers, rfl⟩
  have hempty : parents.isEmpty = parents'.isEmpty := by cases hparents <;> rfl
  dsimp only
  rw [hempty]
  split
  · obtain ⟨hnone, hnone'⟩ | ⟨root, root', hsome, hsome', hroot⟩ := rel_cases hroot
    · rw [hnone, hnone']
      exact .nil
    · rw [hsome, hsome']
      simp only [Option.filter, ne_eq, decide_not, Relator.rel_eq hunique hroot hid]
      split
      · exact .cons hroot .nil
      · exact .nil
  · exact hparents

theorem classSpecs_agree (hunique : Relator.BiUnique same) (privileged : Bool)
    {root root' : Option ClassId} (hroot : Option.Rel same root root')
    {entries entries' : List (ClassId × ClassDecl)}
    (hentries : List.Forall₂ (fun entry entry' => same entry.1 entry'.1 ∧ entry.2 = entry'.2)
      entries entries') :
    Agree (List.Forall₂ fun entry entry' => same entry.1 entry'.1 ∧
        entry.2.Matches same entry'.2)
      (entries.mapM fun (id, decl) => do return (id, ← classSpec names privileged root id decl))
      (entries'.mapM fun (id, decl) => do
        return (id, ← classSpec names' privileged root' id decl)) := by
  refine Agree.mapM hentries ?_
  rintro ⟨id, decl⟩ ⟨id', _⟩ ⟨hid, rfl⟩
  exact (classSpec_agree h hunique privileged hroot hid decl).bind fun _ _ hspec =>
    .ok ⟨hid, hspec⟩

end

/-- The classes of before, and as many new ones. -/
def ClassId.Joined (same : ClassId → ClassId → Prop) (start start' count : Nat)
    (cls cls' : ClassId) : Prop :=
  same cls cls' ∨ ∃ position < count, cls = ⟨start + position⟩ ∧ cls' = ⟨start' + position⟩

namespace ClassId.Joined

variable {start start' count : Nat} {cls cls' : ClassId}

theorem zero : Joined same start start' 0 = same := by
  funext cls cls'
  simp [Joined]

theorem succ (h : Joined same start start' count cls cls') :
    Joined same start start' (count + 1) cls cls' := by
  rcases h with h | ⟨position, hlt, h⟩
  · exact .inl h
  · exact .inr ⟨position, by omega, h⟩

theorem last : Joined same start start' (count + 1) ⟨start + count⟩ ⟨start' + count⟩ :=
  .inr ⟨count, by omega, rfl, rfl⟩

theorem unique (hunique : Relator.BiUnique same)
    (hbound : ∀ cls cls', same cls cls' → cls.index < start ∧ cls'.index < start') :
    Relator.BiUnique (Joined same start start' count) := by
  have hnew : ∀ {cls cls' : ClassId}, same cls cls' → ∀ position,
      cls ≠ ⟨start + position⟩ ∧ cls' ≠ ⟨start' + position⟩ := by
    intro cls cls' h position
    obtain ⟨hlt, hlt'⟩ := hbound cls cls' h
    constructor <;>
    · rintro rfl
      dsimp only at hlt hlt'
      omega
  constructor
  · rintro a b c (ha | ⟨i, hi, rfl, rfl⟩) (hb | ⟨j, hj, rfl, heq⟩)
    · exact hunique.1 ha hb
    · exact ((hnew ha j).2 heq).elim
    · exact ((hnew hb i).2 rfl).elim
    · simp_all
  · rintro a b c (ha | ⟨i, hi, rfl, rfl⟩) (hb | ⟨j, hj, heq, rfl⟩)
    · exact hunique.2 ha hb
    · exact ((hnew ha j).1 heq).elim
    · exact ((hnew hb i).1 rfl).elim
    · simp_all

end ClassId.Joined

theorem ClassDef.Matches.of_alike {found found' next next' : ClassDef}
    (h : found.Matches same found') (hnext : found.Alike next) (hnext' : found'.Alike next') : next.Matches same next' where
  id := hnext.id ▸ hnext'.id ▸ h.id
  name := hnext.name ▸ hnext'.name ▸ h.name
  parents := hnext.parents ▸ hnext'.parents ▸ h.parents
  methods := hnext.methods ▸ hnext'.methods ▸ h.methods
  fields := hnext.fields ▸ hnext'.fields ▸ h.fields
  ownFields := hnext.ownFields ▸ hnext'.ownFields ▸ h.ownFields
  ownMethods := hnext.ownMethods ▸ hnext'.ownMethods ▸ h.ownMethods

theorem ClassRegistry.Matches.outlines {classes classes' next next' : ClassRegistry}
    (h : classes.Matches same classes') (hnext : classes.Outlines next)
    (hnext' : classes'.Outlines next') : next.Matches same next' where
  unique := h.unique
  get? hcls := by
    obtain ⟨found, found', hget, hget', hfound⟩ := h.get? hcls
    obtain ⟨later, hlater, halike⟩ := hnext _ _ hget
    obtain ⟨later', hlater', halike'⟩ := hnext' _ _ hget'
    exact ⟨later, later', hlater, hlater', hfound.of_alike halike halike'⟩

/-- A class that both registries declare next. -/
theorem ClassRegistry.Matches.declare {classes classes' : ClassRegistry} {start start' count : Nat}
    (h : classes.Matches (ClassId.Joined same start start' count) classes')
    (hunique : Relator.BiUnique (ClassId.Joined same start start' (count + 1)))
    (hsize : classes.size = start + count) (hsize' : classes'.size = start' + count)
    (name url url' : String) (module module' : ModuleId) (span : Span) :
    (classes.declare name url module span).2.Matches
      (ClassId.Joined same start start' (count + 1)) (classes'.declare name url' module' span).2 := by
  have hold : ∀ {cls cls'}, ClassId.Joined same start start' count cls cls' →
      ∃ found found', (classes.declare name url module span).2.get? cls = some found ∧
        (classes'.declare name url' module' span).2.get? cls' = some found' ∧
        found.Matches (ClassId.Joined same start start' (count + 1)) found' := by
    intro cls cls' hcls
    obtain ⟨found, found', hget, hget', hfound⟩ := h.get? hcls
    exact ⟨found, found', declare_extends _ _ hget, declare_extends _ _ hget',
      hfound.imp fun _ _ => ClassId.Joined.succ⟩
  refine ⟨hunique, ?_⟩
  rintro cls cls' (hcls | ⟨position, hlt, rfl, rfl⟩)
  · exact hold (.inl hcls)
  · by_cases hlast : position = count
    · subst hlast
      refine ⟨_, _, (get?_declare _).trans (if_pos hsize.symm),
        (get?_declare _).trans (if_pos hsize'.symm), ?_⟩
      rw [hsize, hsize']
      exact ⟨.last, rfl, .nil, .empty, .empty, .nil, .nil⟩
    · exact hold (.inr ⟨position, by omega, rfl, rfl⟩)

/-- The classes of before, and those that a module has declared since in both workspaces. -/
abbrev Workspace.Joins (same : ClassId → ClassId → Prop) (base base' : Workspace) (count : Nat) :
    ClassId → ClassId → Prop :=
  ClassId.Joined same base.machine.classes.size base'.machine.classes.size count

/-- Drafts that match, in workspaces that have the same new classes. -/
structure ModuleDraft.InStep (same : ClassId → ClassId → Prop) (alike : ModuleId → ModuleId → Prop)
    (base base' : Workspace) (count : Nat) (draft : ModuleDraft) (workspace : Workspace)
    (draft' : ModuleDraft) (workspace' : Workspace) : Prop where
  drafts : draft.Matches (Joins same base base' count) alike draft'
  classes : workspace.machine.classes.Matches (Joins same base base' count)
    workspace'.machine.classes
  size : workspace.machine.classes.size = base.machine.classes.size + count
  size' : workspace'.machine.classes.size = base'.machine.classes.size + count

namespace Workspace

theorem onClasses_bind {α β : Type} {change : ClassRegistry → α × ClassRegistry}
    {next : α → Importing β} {workspace : Workspace} :
    (onClasses change >>= next) workspace = next (change workspace.machine.classes).1
      { workspace with machine := { workspace.machine with
        classes := (change workspace.machine.classes).2 } } := rfl

theorem weave_bind {β : Type} {lines : List String} {next : Value → Importing β}
    {workspace : Workspace} :
    (weave lines >>= next) workspace =
      let fresh := workspace.machine.heap.alloc workspace.machine.odometer.peek
        (.array (lines.map Value.text).toArray)
      next (.array fresh.1) { workspace with machine := { workspace.machine with
        odometer := workspace.machine.odometer.next.2
        heap := fresh.2 } } := rfl

theorem orFail_coincide {α β ε : Type} {related : α → β → Prop} {wrap wrap' : ε → ImportError}
    {result : Except ε α} {result' : Except ε β} (hwrap : wrap = wrap')
    (h : Agree related result result') (workspace workspace' : Workspace) :
    Coincide (fun answer next answer' next' => related answer answer' ∧ next = workspace ∧
      next' = workspace') (orFail wrap result workspace) (orFail wrap' result' workspace') := by
  subst hwrap
  cases h with
  | ok h => exact .ok ⟨h, rfl, rfl⟩
  | error error => exact .error _ _ _

theorem addImports_coincide {draft draft' : ModuleDraft} (h : draft.Matches same alike draft')
    {imports imports' : List (String × ModuleId × Span)}
    (himports : List.Forall₂ (fun entry entry' => entry.1 = entry'.1 ∧
      alike entry.2.1 entry'.2.1 ∧ entry.2.2 = entry'.2.2) imports imports')
    (url : String) (workspace workspace' : Workspace) :
    Coincide (fun draft next draft' next' => ModuleDraft.Matches same alike draft draft' ∧
        next = workspace ∧ next' = workspace')
      ((imports.foldlM (fun draft (name, id, span) =>
        orFail (.resolve url) (draft.addLocal name (.module id) span)) draft :
          Importing ModuleDraft) workspace)
      ((imports'.foldlM (fun draft (name, id, span) =>
        orFail (.resolve url) (draft.addLocal name (.module id) span)) draft' :
          Importing ModuleDraft) workspace') := by
  refine Coincide.foldlM ⟨h, rfl, rfl⟩ himports ?_
  rintro draft _ draft' _ ⟨name, id, span⟩ ⟨_, id', _⟩ ⟨h, rfl, rfl⟩ _ _ ⟨rfl, hid, rfl⟩
  exact orFail_coincide rfl (ModuleDraft.addLocal_agree h name (.module hid) span) _ _

section

variable {base base' workspace workspace' : Workspace} {draft draft' : ModuleDraft} {count : Nat}
variable (hunique : Relator.BiUnique same)
variable (hbound : ∀ cls cls', same cls cls' →
  cls.index < base.machine.classes.size ∧ cls'.index < base'.machine.classes.size)
include hunique hbound

/-- Both modules have declared one class more. -/
theorem inStep_declare
    (h : ModuleDraft.InStep same alike base base' count draft workspace draft' workspace')
    (cls : ClassDecl) :
    ModuleDraft.InStep same alike base base' (count + 1)
        { draft with classes := draft.classes ++ [(⟨workspace.machine.classes.size⟩, cls)] }
        { workspace with machine := { workspace.machine with
          classes := (workspace.machine.classes.declare cls.name draft.url draft.id cls.span).2 } }
        { draft' with classes := draft'.classes ++ [(⟨workspace'.machine.classes.size⟩, cls)] }
        { workspace' with machine := { workspace'.machine with
          classes :=
            (workspace'.machine.classes.declare cls.name draft'.url draft'.id cls.span).2 } } ∧
      Target.Matches (Joins same base base' (count + 1)) alike
        (.cls ⟨workspace.machine.classes.size⟩) (.cls ⟨workspace'.machine.classes.size⟩) := by
  have hclasses := h.classes.declare (ClassId.Joined.unique hunique hbound) h.size h.size' cls.name
    draft.url draft'.url draft.id draft'.id cls.span
  have hdrafts := h.drafts.imp fun _ _ => ClassId.Joined.succ
  have hlast : Joins same base base' (count + 1) ⟨workspace.machine.classes.size⟩
      ⟨workspace'.machine.classes.size⟩ := by
    rw [h.size, h.size']
    exact .last
  refine ⟨?_, .cls hlast⟩
  exact {
    drafts := { hdrafts with
      classes := List.rel_append hdrafts.classes (.cons ⟨hlast, rfl⟩ .nil) }
    classes := hclasses
    size := (Array.size_push _).trans (congrArg (· + 1) h.size)
    size' := (Array.size_push _).trans (congrArg (· + 1) h.size') }

theorem declare_coincide
    (h : ModuleDraft.InStep same alike base base' count draft workspace draft' workspace')
    (decl : Decl) :
    Coincide (fun draft next draft' next' => ∃ count,
        ModuleDraft.InStep same alike base base' count draft next draft' next')
      (declare draft decl workspace) (declare draft' decl workspace') := by
  have hurl := h.drafts.url
  unfold declare
  cases decl with
  | cls cls =>
    obtain ⟨hnew, htarget⟩ := inStep_declare hunique hbound h cls
    dsimp only
    rw [onClasses_bind, onClasses_bind]
    refine Coincide.bind (orFail_coincide (congrArg ImportError.resolve hurl)
      (ModuleDraft.addLocal_agree hnew.drafts cls.name htarget cls.span) _ _) ?_
    rintro next _ next' _ ⟨hnext, rfl, rfl⟩
    exact .ok ⟨count + 1, { hnew with drafts := hnext.exportIf cls.exported cls.name htarget }⟩
  | fabric fabric =>
    dsimp only
    split
    case isTrue =>
      rw [← hurl]
      exact .error _ _ _
    case isFalse =>
      have htarget : Target.Matches (Joins same base base' count) alike
          (.fabric ⟨draft.id, draft.fabrics.length⟩)
          (.fabric ⟨draft'.id, draft'.fabrics.length⟩) := by
        rw [h.drafts.fabrics]
        exact .fabric h.drafts.id
      rw [weave_bind, weave_bind]
      generalize workspace.machine.heap.alloc _ _ = fresh
      generalize workspace'.machine.heap.alloc _ _ = fresh'
      have hnew : ModuleDraft.Matches (Joins same base base' count) alike
          { draft with fabrics := draft.fabrics ++ [.array fresh.1] }
          { draft' with fabrics := draft'.fabrics ++ [.array fresh'.1] } :=
        { h.drafts with fabrics := by simp [h.drafts.fabrics] }
      refine Coincide.bind (orFail_coincide (congrArg ImportError.resolve hurl)
        (ModuleDraft.addLocal_agree hnew fabric.name htarget fabric.span) _ _) ?_
      rintro next _ next' _ ⟨hnext, rfl, rfl⟩
      exact .ok ⟨count, { h with
        drafts := hnext.exportIf fabric.exported fabric.name htarget }⟩
  | _ => exact .ok ⟨count, h⟩

omit hunique hbound in
/-- Completing drafts that match gives classes that are alike. -/
theorem complete_coincide {url : String} {tree : ModuleTree}
    (h : ModuleDraft.InStep same alike base base' count draft workspace draft' workspace')
    (hbase : base.Sound) (hbase' : base'.Sound) (hoptions : base.options = base'.options)
    (hdraft : draft.Drafted base url tree workspace)
    (hdraft' : draft'.Drafted base' url tree workspace')
    (hmodules : base.modules.Matches (Joins same base base' count) alike base'.modules)
    (hcore : url ≠ base.options.coreUrl → Option.Rel alike
      (base.modules.find? base.options.coreUrl) (base'.modules.find? base.options.coreUrl)) :
    Coincide (fun _ next _ next' => next.machine.classes.Matches (Joins same base base' count)
        next'.machine.classes)
      (complete draft workspace) (complete draft' workspace') := by
  have hnames := h.drafts.scope hmodules
  have hcore := ModuleDraft.coreClass?_rel h.drafts hmodules
    fun hne => hcore (hdraft.address ▸ hne)
  have hroot := hcore base.options.rootClass
  unfold complete
  refine Coincide.bind_get ?_
  dsimp only
  rw [hdraft.modules, hdraft'.modules, hdraft.options, hdraft'.options, ← hoptions, hdraft.address,
    hdraft'.address, ← h.drafts.privileged, isNone_eq hroot]
  split
  case isTrue => exact .error _ _ _
  case isFalse =>
    have hspecs := classSpecs_agree hnames h.classes.unique draft.privileged hroot h.drafts.classes
    refine (orFail_coincide rfl hspecs _ _).bind ?_
    rintro specs _ specs' _ ⟨hspecs, rfl, rfl⟩
    refine (orFail_coincide rfl (composeAll_agree h.classes hspecs) _ _).bind ?_
    rintro classes _ classes' _ ⟨hclasses, rfl, rfl⟩
    have hctx : CheckContext.Surrounds _ alike
      { classes
        names := draft.scope base.modules
        rootClass := draft.coreClass? base.modules base.options base.options.rootClass
        clonableClass := draft.coreClass? base.modules base.options base.options.clonableClass }
      { classes := classes'
        names := draft'.scope base'.modules
        rootClass := draft'.coreClass? base'.modules base.options base.options.rootClass
        clonableClass := draft'.coreClass? base'.modules base.options base.options.clonableClass } :=
      ⟨hclasses, hnames, hroot, hcore _⟩
    have hbodies := Body.ofClasses_alike hclasses h.drafts.classes
    refine (orFail_coincide rfl (Agree.mapM hbodies fun _ _ => Body.check_agree hctx).and_eq
      _ _).bind ?_
    rintro checked _ checked' _ ⟨⟨-, hcheck, hcheck'⟩, rfl, rfl⟩
    -- The compilation does not fail where the check has not.
    obtain ⟨installations, hlower⟩ := Body.lower_ok (hdraft.provides hbase rfl) classes hcheck
    obtain ⟨installations', hlower'⟩ := Body.lower_ok (hdraft'.provides hbase' rfl) classes' hcheck'
    have hlowered : Agree (fun _ _ => True)
        (checked.mapM (Body.lower classes (draft.fabric? base.modules)))
        (checked'.mapM (Body.lower classes' (draft'.fabric? base'.modules))) := by
      rw [hlower, hlower']
      exact .ok trivial
    refine (orFail_coincide rfl hlowered _ _).bind ?_
    rintro installations _ installations' _ ⟨-, rfl, rfl⟩
    have hinstalls := Installation.foldl_installs classes (installations.filterMap id)
    have hinstalls' := Installation.foldl_installs classes' (installations'.filterMap id)
    exact .ok (hclasses.outlines hinstalls.forth hinstalls'.forth)

/-- Drafts that have named alike what the modules import end alike. -/
theorem finish_coincide {url : String} {tree : ModuleTree}
    (h : ModuleDraft.InStep same alike base base' count draft workspace draft' workspace')
    (hbase : base.Sound) (hbase' : base'.Sound) (hoptions : base.options = base'.options)
    (hpending : base.modules.find? url = none) (hpending' : base'.modules.find? url = none)
    (hsource : ∀ decl, Decl.cls decl ∈ tree.declarations → base.sources.DeclaresAt url decl)
    (hsource' : ∀ decl, Decl.cls decl ∈ tree.declarations → base'.sources.DeclaresAt url decl)
    (hdraft : draft.Drafted base url tree workspace)
    (hdraft' : draft'.Drafted base' url tree workspace')
    (hmodules : base.modules.Matches same alike base'.modules)
    (hcore : url ≠ base.options.coreUrl → Option.Rel alike
      (base.modules.find? base.options.coreUrl) (base'.modules.find? base.options.coreUrl)) :
    Coincide (fun draft next draft' next' => ∃ count,
        draft.Matches (Joins same base base' count)
          alike draft' ∧
        next.machine.classes.Matches (Joins same base base' count) next'.machine.classes)
      ((do
        let draft ← tree.declarations.foldlM declare draft
        let draft ← orFail (.resolve url)
          (tree.declarations.foldlM (ModuleDraft.addNames base.modules) draft)
        let draft ← orFail (.resolve url)
          (tree.declarations.foldlM (ModuleDraft.addMain base.modules) draft)
        complete draft
        return draft) workspace)
      ((do
        let draft ← tree.declarations.foldlM declare draft'
        let draft ← orFail (.resolve url)
          (tree.declarations.foldlM (ModuleDraft.addNames base'.modules) draft)
        let draft ← orFail (.resolve url)
          (tree.declarations.foldlM (ModuleDraft.addMain base'.modules) draft)
        complete draft
        return draft) workspace') := by
  have hdeclared : Coincide (fun draft next draft' next' =>
        (∃ count, ModuleDraft.InStep same alike base base' count draft next draft' next') ∧
          draft.Drafted base url tree next ∧ draft'.Drafted base' url tree next')
      (tree.declarations.foldlM declare draft workspace)
      (tree.declarations.foldlM declare draft' workspace') := by
    refine Coincide.foldlM ⟨⟨count, h⟩, hdraft, hdraft'⟩ (List.forall₂_same.mpr fun _ _ => rfl) ?_
    rintro draft next draft' next' decl _ ⟨⟨count, h⟩, hdraft, hdraft'⟩ hdecl hdecl' rfl
    exact (declare_coincide hunique hbound h decl).and_yields
      (hdraft.declare hbase hpending hsource hdecl)
      (hdraft'.declare hbase' hpending' hsource' hdecl')
  refine hdeclared.bind ?_
  rintro draft next draft' next' ⟨⟨count, h⟩, hdraft, hdraft'⟩
  have hjoined : Relator.BiUnique (Joins same base base' count) :=
    ClassId.Joined.unique hunique hbound
  have hmodules : base.modules.Matches (Joins same base base' count) alike base'.modules :=
    hmodules.imp fun _ _ => .inl
  refine (orFail_coincide rfl (Agree.foldlM_same h.drafts fun _ _ decl hdrafts =>
    ModuleDraft.addNames_agree hdrafts hjoined hmodules decl).and_eq _ _).bind ?_
  rintro named next named' next' ⟨⟨hnamed, hrun, hrun'⟩, rfl, rfl⟩
  have hdraft := foldlM_induction (motive := fun draft => draft.Drafted base url tree next) hdraft
    (fun _ _ _ _ hdraft hadd => hdraft.addNames hbase hadd) hrun
  have hdraft' := foldlM_induction (motive := fun draft => draft.Drafted base' url tree next')
    hdraft' (fun _ _ _ _ hdraft hadd => hdraft.addNames hbase' hadd) hrun'
  refine (orFail_coincide rfl (Agree.foldlM_same hnamed fun _ _ decl hdrafts =>
    ModuleDraft.addMain_agree hdrafts hmodules decl).and_eq _ _).bind ?_
  rintro final next final' next' ⟨⟨hfinal, hrun, hrun'⟩, rfl, rfl⟩
  have hdraft := foldlM_induction (motive := fun draft => draft.Drafted base url tree next) hdraft
    (fun _ _ _ _ hdraft hadd => hdraft.addMain hbase hadd) hrun
  have hdraft' := foldlM_induction (motive := fun draft => draft.Drafted base' url tree next')
    hdraft' (fun _ _ _ _ hdraft hadd => hdraft.addMain hbase' hadd) hrun'
  refine (complete_coincide { h with drafts := hfinal } hbase hbase' hoptions hdraft hdraft' hmodules
    hcore).bind ?_
  exact fun _ _ _ _ hclasses => .ok ⟨count, hfinal, hclasses⟩

end

end Workspace

end Attire
