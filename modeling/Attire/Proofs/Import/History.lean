import Attire.Proofs.Import.Loader
import Mathlib.Data.List.Chain

namespace Attire

/-! Imports as histories of modules that are built one after the other, each from what it needs. -/

/-- The module that a declaration imports. -/
def Decl.dependency? : Decl → Option String
  | .import dependency _ _ => some dependency
  | _ => none

/-- The modules that a module at `url` needs. -/
def ModuleTree.needs (tree : ModuleTree) (options : Options) (url : String) : List String :=
  (if url = options.coreUrl then [] else [options.coreUrl]) ++
    tree.declarations.filterMap Decl.dependency?

/-- The first module needs the second one, whether or not the sources have that. -/
def Sources.Imports (sources : Sources) (options : Options) (url dependency : String) : Prop :=
  ∃ text tree, sources.fetch url = .ok text ∧ ModuleTree.ofText? text = some tree ∧
    dependency ∈ tree.needs options url

/-- Every module of the chain needs the next one, and the last one is the first one. -/
structure Sources.Circle (sources : Sources) (options : Options) (chain : List String) : Prop where
  closed : chain.head? = chain.getLast?
  length : 2 ≤ chain.length
  linked : chain.IsChain (sources.Imports options)

/-- What the error of an import says is so. -/
structure ImportError.Justified (sources : Sources) (options : Options) (error : ImportError) :
    Prop where
  informed : error.Informed
  circle {chain : List String} : error = .cycle chain → sources.Circle options chain

theorem ImportError.Justified.of_acyclic {sources : Sources} {options : Options}
    {error : ImportError} (hinformed : error.Informed) (hacyclic : ∀ chain, error ≠ .cycle chain) :
    error.Justified sources options :=
  ⟨hinformed, fun heq => (hacyclic _ heq).elim⟩

/-- The import of a module that is registered already, under the name that it is given. -/
def ModuleRegistry.recallImport (modules : ModuleRegistry) :
    Decl → Option (String × ModuleId × Span)
  | .import dependency name span => (modules.find? dependency).map fun id => (name, id, span)
  | _ => none

/-- What a module imports, as far as it is registered already. -/
def ModuleRegistry.recall (modules : ModuleRegistry) (options : Options) (url : String)
    (tree : ModuleTree) : Option ModuleId × List (String × ModuleId × Span) :=
  (if url = options.coreUrl then none else modules.find? options.coreUrl,
    tree.declarations.filterMap modules.recallImport)

/-- Everything that the module needs is registered. -/
def ModuleRegistry.Meets (modules : ModuleRegistry) (options : Options) (url : String)
    (tree : ModuleTree) : Prop :=
  ∀ dependency ∈ tree.needs options url, ∃ id, modules.find? dependency = some id

namespace Workspace

variable {workspace next base : Workspace} {tree : ModuleTree} {options : Options} {url : String}
variable {load : String → Importing ModuleId} {err : ImportError → Workspace → Prop}

/-- The part of a build that imports what the module needs. -/
def gather (load : String → Importing ModuleId) (options : Options) (url : String)
    (tree : ModuleTree) : Importing (Option ModuleId × List (String × ModuleId × Span)) := do
  let core ← loadCore load options url
  return (core, ← tree.declarations.filterMapM (loadImport load))

theorem build_eq (url : String) (tree : ModuleTree) : build load url tree = (do
    let options := (← get).options
    assemble options url tree (← gather load options url tree)) := by
  simp only [gather, bind_assoc, pure_bind]
  rfl

theorem Sound.find?_grows {id : ModuleId} (h : workspace.Sound) (hnext : next.Sound)
    (hgrows : workspace.Grows next) (hfind : workspace.modules.find? url = some id) :
    next.modules.find? url = some id := by
  obtain ⟨module, hmodule, rfl⟩ := h.byUrl hfind
  exact hnext.located (hgrows.modules _ _ hmodule)

section

variable {keeps : Workspace → Prop} (hsound : ∀ workspace, keeps workspace → workspace.Sound)
include hsound

/-- After the imports of a module, each of them is registered. -/
theorem loadImports_yields {decls : List Decl}
    (hload : ∀ dependency ∈ decls.filterMap Decl.dependency?, ∀ workspace, keeps workspace →
      Yields (load dependency) workspace
        (fun id next => keeps next ∧ workspace.Grows next ∧ next.modules.find? dependency = some id)
        err) (h : keeps workspace) :
    Yields (decls.filterMapM (loadImport load)) workspace
      (fun imports next => keeps next ∧ workspace.Grows next ∧
        (∀ dependency ∈ decls.filterMap Decl.dependency?,
          ∃ id, next.modules.find? dependency = some id) ∧
        imports = decls.filterMap next.modules.recallImport) err := by
  induction decls generalizing workspace with
  | nil => exact ⟨h, .refl _, nofun, rfl⟩
  | cons decl rest ih =>
    simp only [List.filterMapM_cons]
    cases decl with
    | «import» dependency name span =>
      refine yields_bind.mpr (yields_bind.mpr ((hload dependency (by simp [Decl.dependency?]) _
        h).imp ?_ fun _ _ h => h))
      rintro id next ⟨hnext, hgrows, hfind⟩
      refine yields_bind.mpr ((ih (fun dependency hmem => hload dependency ?_) hnext).imp ?_
        fun _ _ h => h)
      · exact List.mem_cons_of_mem _ hmem
      rintro imports last ⟨hlast, hgrows', hmeets, rfl⟩
      have hfound := (hsound _ hnext).find?_grows (hsound _ hlast) hgrows' hfind
      refine ⟨hlast, hgrows.trans hgrows', fun other hmem => ?_, ?_⟩
      · rcases List.mem_cons.mp hmem with rfl | hmem
        · exact ⟨id, hfound⟩
        · exact hmeets other hmem
      · simp [ModuleRegistry.recallImport, hfound]
    | _ => exact ih hload h

theorem gather_yields
    (hload : ∀ dependency ∈ tree.needs options url, ∀ workspace, keeps workspace →
      Yields (load dependency) workspace
        (fun id next => keeps next ∧ workspace.Grows next ∧ next.modules.find? dependency = some id)
        err) (h : keeps workspace) :
    Yields (gather load options url tree) workspace
      (fun needs next => keeps next ∧ workspace.Grows next ∧ next.modules.Meets options url tree ∧
        needs = next.modules.recall options url tree) err := by
  have himports : ∀ {core : Option ModuleId} {middle : Workspace}, keeps middle →
      workspace.Grows middle → (url ≠ options.coreUrl → ∃ id,
        middle.modules.find? options.coreUrl = some id) →
      core = (if url = options.coreUrl then none else middle.modules.find? options.coreUrl) →
      Yields (do return (core, ← tree.declarations.filterMapM (loadImport load))) middle
        (fun needs next => keeps next ∧ workspace.Grows next ∧ next.modules.Meets options url tree ∧
          needs = next.modules.recall options url tree) err := by
    intro core middle hmiddle hgrows hregistered hcore
    refine yields_bind.mpr ((loadImports_yields hsound (fun dependency hmem => hload _ ?_)
      hmiddle).imp ?_ fun _ _ h => h)
    · exact List.mem_append_right _ hmem
    rintro imports next ⟨hnext, hgrows', hmeets, rfl⟩
    have hkept : ∀ id, middle.modules.find? options.coreUrl = some id →
        next.modules.find? options.coreUrl = some id := fun id =>
      (hsound _ hmiddle).find?_grows (hsound _ hnext) hgrows'
    refine yields_pure.mpr ⟨hnext, hgrows.trans hgrows', fun dependency hmem => ?_, ?_⟩
    · rcases List.mem_append.mp hmem with hmem | hmem
      · split at hmem
        case isTrue => cases hmem
        case isFalse hne =>
          obtain rfl := List.mem_singleton.mp hmem
          exact (hregistered hne).imp hkept
      · exact hmeets dependency hmem
    · rw [hcore]
      split
      case isTrue heq => rw [ModuleRegistry.recall, if_pos heq]
      case isFalse hne =>
        obtain ⟨id, hfind⟩ := hregistered hne
        rw [ModuleRegistry.recall, if_neg hne, hfind, hkept id hfind]
  unfold gather loadCore
  split
  case isTrue heq =>
    exact himports h (.refl _) (fun hne => (hne heq).elim) (if_pos heq).symm
  case isFalse hne =>
    refine yields_bind.mpr (yields_map.mpr ((hload _ ?_ _ h).imp ?_ fun _ _ h => h))
    · simp [ModuleTree.needs, hne]
    rintro id middle ⟨hmiddle, hgrows, hfind⟩
    exact himports hmiddle hgrows (fun _ => ⟨id, hfind⟩) (by rw [if_neg hne, hfind])

end

/-- The second workspace comes from the first one: modules are built when all that they need is
registered, and what fails is taken back. -/
inductive Leads (start : Workspace) : Workspace → Prop
  | refl : Leads start start
  | module {base built : Workspace} {url text : String} {tree : ModuleTree}
      {notes : List String × String} {draft : ModuleDraft} :
      Leads start base → base.modules.find? url = none → base.sources.fetch url = .ok text →
      ModuleTree.ofText? text = some tree → notices url tree = .ok notes →
      base.modules.Meets base.options url tree →
      assemble base.options url tree (base.modules.recall base.options url tree) base =
        .ok draft built →
      Leads start { built with
        modules := (built.modules.register (draft.seal url text notes)).2 }
  | kept {base next : Workspace} : Leads start base → next.Sound → base.Grows next →
      next.modules = base.modules → next.machine.classes.Extends base.machine.classes →
      Leads start next

theorem Leads.trans {last : Workspace} (h : workspace.Leads next) (h' : next.Leads last) :
    workspace.Leads last := by
  induction h' with
  | refl => exact h
  | module _ hfind hfetch htree hnotes hmeets hbuild ih =>
    exact .module ih hfind hfetch htree hnotes hmeets hbuild
  | kept _ hsound hgrows hmodules hclasses ih => exact .kept ih hsound hgrows hmodules hclasses

theorem Sound.registered {id : ModuleId} (h : workspace.Sound)
    (hfind : workspace.modules.find? url = some id) :
    ∃ module, workspace.modules.get? id = some module :=
  (h.byUrl hfind).imp fun _ => And.left

/-- What a module recalls is registered. -/
theorem Sound.recalled (h : workspace.Sound) (options : Options) (url : String) (tree : ModuleTree) :
    (∀ id, (workspace.modules.recall options url tree).1 = some id →
      ∃ module, workspace.modules.get? id = some module) ∧
    ∀ entry ∈ (workspace.modules.recall options url tree).2,
      ∃ module, workspace.modules.get? entry.2.1 = some module := by
  constructor
  · intro id hid
    simp only [ModuleRegistry.recall] at hid
    split at hid
    · cases hid
    · exact h.registered hid
  · intro entry hmem
    obtain ⟨decl, -, hrecall⟩ := List.mem_filterMap.mp hmem
    cases decl with
    | «import» dependency name span =>
      obtain ⟨id, hfind, rfl⟩ := Option.map_eq_some_iff.mp hrecall
      exact h.registered hfind
    | _ => cases hrecall

theorem assemble_recall {text : String} (hbase : base.Sound)
    (hpending : base.modules.find? url = none) (hfetch : base.sources.fetch url = .ok text)
    (htree : ModuleTree.ofText? text = some tree) :
    Yields (assemble base.options url tree (base.modules.recall base.options url tree)) base
      (fun draft built => draft.Built base url built) base.Breaks := by
  obtain ⟨hcore, himports⟩ := hbase.recalled base.options url tree
  exact assemble_sound hbase hpending (fun decl hdecl => ⟨text, tree, hfetch, htree, hdecl⟩) hcore
    himports

theorem Leads.sound (h : workspace.Leads next) (hsound : workspace.Sound) :
    next.Sound ∧ workspace.Grows next := by
  induction h with
  | refl => exact ⟨hsound, .refl _⟩
  | module _ hfind hfetch htree _ _ hbuild ih =>
    obtain ⟨hbase, hgrows⟩ := ih
    have hbuilt := (assemble_recall hbase hfind hfetch htree).of_ok hbuild
    obtain ⟨hnext, hgrows'⟩ := register_sound hbase hfind hbuilt _ _
    exact ⟨hnext, hgrows.trans hgrows'⟩
  | kept _ hnext hgrows' _ _ ih => exact ⟨hnext, ih.2.trans hgrows'⟩

variable {chain : List String}

/-- A sound workspace in which the modules that are being imported are not registered yet. -/
structure Awaits (chain : List String) (workspace : Workspace) : Prop extends workspace.Sound where
  pending : ∀ url ∈ chain, workspace.modules.find? url = none

/-- What the import of a module that the modules of a chain need promises, whether it succeeds or
fails. -/
def Loads (chain : List String) (load : String → Importing ModuleId) : Prop :=
  ∀ (url : String) (workspace : Workspace), workspace.Awaits chain →
    (chain ++ [url]).IsChain (workspace.sources.Imports workspace.options) →
    Yields (load url) workspace
      (fun id next => next.Awaits chain ∧ workspace.Leads next ∧ next.modules.find? url = some id)
      fun error next => next.Awaits chain ∧ workspace.Leads next ∧
        error.Justified workspace.sources workspace.options

theorem circle_of_mem {sources : Sources} (hmem : url ∈ chain)
    (hlinked : (chain ++ [url]).IsChain (sources.Imports options)) :
    sources.Circle options (chain.dropWhile (· ≠ url) ++ [url]) := by
  obtain ⟨before, after, rfl, hbefore⟩ := List.eq_append_cons_of_mem hmem
  have hdrop : (before ++ url :: after).dropWhile (· ≠ url) = url :: after := by
    rw [List.dropWhile_append_of_pos]
    · simp
    · rintro other hother
      exact decide_eq_true fun heq => hbefore (heq ▸ hother)
  rw [hdrop]
  constructor
  case closed => rw [List.getLast?_concat, List.cons_append, List.head?_cons]
  case length => simp
  case linked =>
    rw [List.append_assoc] at hlinked
    exact hlinked.suffix (List.suffix_append _ _)

/-- What a build leaves behind when it fails, with the workspace that it can be taken back to. -/
def Fails (chain : List String) (workspace : Workspace) (error : ImportError) (failed : Workspace) :
    Prop :=
  ∃ base : Workspace, base.Awaits chain ∧ workspace.Leads base ∧ base.Amid failed ∧
    error.Justified workspace.sources workspace.options

theorem Awaits.append (h : workspace.Awaits chain) (hfind : workspace.modules.find? url = none) :
    workspace.Awaits (chain ++ [url]) := by
  refine ⟨h.toSound, fun other hmem => ?_⟩
  rcases List.mem_append.mp hmem with hmem | hmem
  · exact h.pending other hmem
  · exact List.mem_singleton.mp hmem ▸ hfind

/-- What the last module of a chain needs continues the chain. -/
theorem Grows.linked {text dependency : String} (h : workspace.Grows next)
    (hlinked : (chain ++ [url]).IsChain (workspace.sources.Imports workspace.options))
    (hfetch : workspace.sources.fetch url = .ok text) (htree : ModuleTree.ofText? text = some tree)
    (hdependency : dependency ∈ tree.needs workspace.options url) :
    ((chain ++ [url]) ++ [dependency]).IsChain (next.sources.Imports next.options) := by
  rw [h.sources, h.options]
  refine List.isChain_append.mpr ⟨hlinked, .singleton _, ?_⟩
  rintro last hlast _ ⟨⟩
  obtain rfl : url = last := by simpa using hlast
  exact ⟨text, tree, hfetch, htree, hdependency⟩

section

variable {text : String} (hload : Loads (chain ++ [url]) load)
variable (h : workspace.Awaits (chain ++ [url]))
variable (hlinked : (chain ++ [url]).IsChain (workspace.sources.Imports workspace.options))
variable (hfetch : workspace.sources.fetch url = .ok text)
variable (htree : ModuleTree.ofText? text = some tree)
include hload h hlinked hfetch htree

theorem gather_sound :
    Yields (gather load workspace.options url tree) workspace
      (fun needs next => (next.Awaits (chain ++ [url]) ∧ workspace.Leads next) ∧
        workspace.Grows next ∧ next.modules.Meets workspace.options url tree ∧
        needs = next.modules.recall workspace.options url tree)
      fun error next => next.Awaits (chain ++ [url]) ∧ workspace.Leads next ∧
        error.Justified workspace.sources workspace.options := by
  refine gather_yields (fun _ hkeeps => hkeeps.1.toSound) ?_ ⟨h, .refl⟩
  rintro dependency hdependency next ⟨hnext, hleads⟩
  have hgrows := (hleads.sound h.toSound).2
  refine (hload dependency next hnext
    (hgrows.linked hlinked hfetch htree hdependency)).imp ?_ ?_
  · rintro id last ⟨hlast, hleads', hfind⟩
    exact ⟨⟨hlast, hleads.trans hleads'⟩, (hleads'.sound hnext.toSound).2, hfind⟩
  · rintro error last ⟨hlast, hleads', herror⟩
    rw [hgrows.sources, hgrows.options] at herror
    exact ⟨hlast, hleads.trans hleads', herror⟩

/-- A module is built when all that it needs is registered. -/
theorem build_sound :
    Yields (build load url tree) workspace
      (fun draft built => ∃ base : Workspace, base.Awaits (chain ++ [url]) ∧ workspace.Leads base ∧
        base.modules.Meets base.options url tree ∧
        assemble base.options url tree (base.modules.recall base.options url tree) base =
          .ok draft built)
      (workspace.Fails (chain ++ [url])) := by
  rw [build_eq]
  refine yields_bind.mpr (yields_get.mpr (yields_bind.mpr
    ((gather_sound hload h hlinked hfetch htree).imp ?_ ?_)))
  · rintro _ base ⟨⟨hbase, hleads⟩, hgrows, hmeets, rfl⟩
    rw [← hgrows.options] at hmeets ⊢
    have hbuild := assemble_recall hbase.toSound (hbase.pending url (by simp))
      (hgrows.sources ▸ hfetch) htree
    refine (Yields.result hbuild).imp ?_ ?_
    · exact fun draft built ⟨_, hrun⟩ => ⟨base, hbase, hleads, hmeets, hrun⟩
    · rintro error failed ⟨hbreaks, hrun⟩
      exact ⟨base, hbase, hleads, hbreaks.toAmid, .of_acyclic hbreaks.informed hbreaks.acyclic⟩
  · exact fun error next ⟨hnext, hleads, herror⟩ => ⟨next, hnext, hleads, hnext.amid, herror⟩

end

/-- An import keeps the workspace sound, also when it fails. -/
theorem importBelow_sound (steps : Nat) (chain : List String) :
    Loads chain (importBelow steps chain) := by
  induction steps generalizing chain with
  | zero => exact fun url workspace h _ => yields_throw.mpr ⟨h, .refl, .of_acyclic nofun nofun⟩
  | succ steps ih =>
    intro url workspace h hlinked
    have hsame : ∀ error : ImportError, error.Justified workspace.sources workspace.options →
        workspace.Awaits chain ∧ workspace.Leads workspace ∧
          error.Justified workspace.sources workspace.options :=
      fun _ herror => ⟨h, .refl, herror⟩
    unfold importBelow
    refine yields_bind.mpr (yields_get.mpr ?_)
    split
    case h_1 id hfind => exact yields_pure.mpr ⟨h, .refl, hfind⟩
    case h_2 hunregistered =>
      have hawaits := h.append hunregistered
      split
      case isTrue hmem =>
        exact yields_throw.mpr (hsame _ ⟨nofun, by rintro _ ⟨⟩; exact circle_of_mem hmem hlinked⟩)
      case isFalse hchain =>
        refine yields_bind.mpr (yields_orFail (fun text htext => ?_)
          fun _ _ => hsame _ (.of_acyclic nofun nofun))
        split
        case h_2 => exact yields_throw.mpr (hsame _ (.of_acyclic nofun nofun))
        case h_1 tree htree =>
          refine yields_bind.mpr (yields_orFail (fun notes hnotes => ?_)
            fun _ _ => hsame _ (.of_acyclic nofun nofun))
          refine yields_bind.mpr (yields_tryCatch.mpr
            ((build_sound (ih (chain ++ [url])) hawaits hlinked htext htree).imp ?_ ?_))
          · rintro draft built ⟨base, hbase, hleads, hmeets, hbuild⟩
            have hfetch := (hleads.sound h.toSound).2.sources.symm ▸ htext
            have hpending := hbase.pending url (by simp)
            have hbuilt := (assemble_recall hbase.toSound hpending hfetch htree).of_ok hbuild
            have hstep : workspace.Leads { built with
                modules := (built.modules.register (draft.seal url text notes)).2 } :=
              .module hleads hpending hfetch htree hnotes hmeets hbuild
            refine yields_modifyGet.mpr ⟨⟨(hstep.sound h.toSound).1, fun other hmem => ?_⟩, hstep, ?_⟩
            · dsimp only
              rw [ModuleRegistry.find?_register, if_neg, hbuilt.modules]
              · exact hbase.pending other (List.mem_append_left _ hmem)
              · rintro rfl
                exact hchain hmem
            · exact (ModuleRegistry.find?_register _).trans (if_pos rfl)
          · rintro error failed ⟨base, hbase, hleads, hamid, herror⟩
            refine yields_bind.mpr (hamid.rollBack hbase.toSound
              (hleads.sound h.toSound).2.classes.size ?_)
            intro last hlast hgrows hmodules hclasses
            refine yields_throw.mpr
              ⟨⟨hlast, fun other hmem => ?_⟩, .kept hleads hlast hgrows hmodules hclasses, herror⟩
            rw [hmodules]
            exact hbase.pending other (List.mem_append_left _ hmem)

theorem importModule_leads (url : String) (h : workspace.Sound) :
    Yields (importModule url) workspace
      (fun id next => workspace.Leads next ∧ next.modules.find? url = some id)
      fun error next => workspace.Leads next ∧
        error.Justified workspace.sources workspace.options :=
  yields_bind.mpr (yields_get.mpr ((importBelow_sound _ [] url workspace ⟨h, nofun⟩ (.singleton _)).imp
    (fun _ _ ⟨_, hnext⟩ => hnext) fun _ _ ⟨_, hnext⟩ => hnext))

theorem importModule_sound (url : String) (h : workspace.Sound) :
    Yields (importModule url) workspace
      (fun id next => next.Sound ∧ workspace.Grows next ∧
        ∃ module, next.modules.get? id = some module)
      fun _ next => next.Sound ∧ workspace.Grows next := by
  refine (importModule_leads url h).imp ?_ fun _ _ ⟨hleads, _⟩ => hleads.sound h
  rintro id next ⟨hleads, hfind⟩
  obtain ⟨hnext, hgrows⟩ := hleads.sound h
  exact ⟨hnext, hgrows, hnext.registered hfind⟩

end Workspace

end Attire
