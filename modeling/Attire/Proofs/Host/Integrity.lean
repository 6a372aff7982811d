import Attire.Proofs.Host.Effects
import Attire.Proofs.Import.Verdicts

namespace Attire

/-! What the registries say of one another after imports, whether these succeed or fail. -/

namespace Workspace

/-- What an import leaves behind, also when it fails. -/
def imported (workspace : Workspace) (url : String) : Workspace :=
  match «import» url workspace with
  | .ok _ next | .error _ next => next

def importAll (workspace : Workspace) (urls : List String) : Workspace :=
  urls.foldl imported workspace

/-- Modules, classes and names fit together. -/
structure Integral (workspace : Workspace) : Prop where
  /-- The number of a module is its place. -/
  numbered {id : ModuleId} {module : Module} : workspace.modules.get? id = some module →
    module.id = id
  located {url : String} {id : ModuleId} : workspace.modules.find? url = some id ↔
    ∃ module, workspace.modules.get? id = some module ∧ module.url = url
  nodup {id : ModuleId} {module : Module} : workspace.modules.get? id = some module →
    module.classes.Nodup
  disjoint {id other : ModuleId} {module module' : Module} {cls : ClassId} :
    workspace.modules.get? id = some module → workspace.modules.get? other = some module' →
    cls ∈ module.classes → cls ∈ module'.classes → id = other
  /-- The modules declare all classes that are registered, and no others. -/
  covered {cls : ClassId} : cls.index < workspace.machine.classes.size ↔
    ∃ id module, workspace.modules.get? id = some module ∧ cls ∈ module.classes
  recorded {id : ModuleId} {module : Module} {cls : ClassId} :
    workspace.modules.get? id = some module → cls ∈ module.classes →
    ∃ found, workspace.machine.classes.get? cls = some found ∧ found.id = cls ∧
      found.module = id ∧
      found.qualifiedName = ClassRegistry.qualifiedName module.url found.name
  symbols {id : ModuleId} {module : Module} {name : String} {binding : Binding} :
    workspace.modules.get? id = some module → module.symbols.lookup name = some binding →
    binding.target.Stands workspace.modules workspace.machine.classes workspace.modules.fabric?
  exports {id : ModuleId} {module : Module} {name : String} {target : Target} :
    workspace.modules.get? id = some module → (name, target) ∈ module.exports.entries →
    target.Stands workspace.modules workspace.machine.classes workspace.modules.fabric?
  main {id : ModuleId} {module : Module} {cls : ClassId} :
    workspace.modules.get? id = some module → module.main = some cls →
    workspace.machine.classes.contains cls

variable {workspace : Workspace}

theorem Sound.integral (h : workspace.Sound) : workspace.Integral where
  numbered := h.numbered
  located {url id} := by
    constructor
    · exact h.byUrl
    · rintro ⟨module, hmodule, rfl⟩
      exact h.located hmodule
  nodup hmodule := (h.modules hmodule).nodup
  disjoint {id other module module' cls} hmodule hmodule' hcls hcls' := by
    -- A class is on record as one of a single module.
    obtain ⟨-, -, found, hfound, hid, -⟩ := h.recorded hmodule hcls
    obtain ⟨-, -, found', hfound', hother, -⟩ := h.recorded hmodule' hcls'
    rw [hfound] at hfound'
    cases hfound'
    exact hid.symm.trans hother
  covered {cls} := by
    constructor
    · exact fun hlt => h.owned (decide_eq_true hlt)
    · rintro ⟨id, module, hmodule, hcls⟩
      exact of_decide_eq_true ((h.modules hmodule).declared cls hcls)
  recorded {id module cls} hmodule hcls := by
    obtain ⟨decl, -, found, hfound, hid, hname, hqualified⟩ := h.recorded hmodule hcls
    exact ⟨found, hfound, h.composed.id hfound, hid, hname ▸ hqualified⟩
  symbols hmodule hlookup := (h.modules hmodule).symbols _ _ hlookup
  exports hmodule hmem := (h.modules hmodule).exports _ hmem
  main hmodule hmain := (h.modules hmodule).main hmain

theorem Sound.imported (h : workspace.Sound) (url : String) :
    (workspace.imported url).Sound ∧ workspace.Grows (workspace.imported url) := by
  have hyields := importModule_sound url h
  unfold Workspace.imported Workspace.import EStateM.run
  cases hrun : importModule url workspace with
  | ok id next => exact ⟨(hyields.of_ok hrun).1, (hyields.of_ok hrun).2.1⟩
  | error error next => exact hyields.of_error hrun

theorem Sound.importAll (h : workspace.Sound) (urls : List String) :
    (workspace.importAll urls).Sound := by
  induction urls generalizing workspace with
  | nil => exact h
  | cons url rest ih => exact ih (h.imported url).1

/-- Whatever is imported, in whatever order, the registries fit together, and the next import leaves
every module and every class with all that is installed in it as they are. -/
theorem imports_integral (options : Options) (sources : Sources) (urls : List String) :
    let workspace := (ofSources options sources).importAll urls
    workspace.Integral ∧ ∀ url, workspace.Grows (workspace.imported url) := by
  have hsound := (sound_ofSources options sources).importAll urls
  exact ⟨hsound.integral, fun url => (hsound.imported url).2⟩

/-! Classes by their qualified names. -/

theorem Reachable.sources {options : Options} {sources : Sources}
    (h : Reachable options sources workspace) : workspace.sources = sources :=
  (h.leads.sound (sound_ofSources options sources)).2.sources

theorem unambiguous_of_unmarked {sources : Sources}
    (h : ∀ url decl, sources.DeclaresAt url decl → '#' ∉ decl.name.toList) :
    sources.Unambiguous := by
  -- The last mark of a qualified name separates its parts.
  have hparts : ∀ url decl, sources.DeclaresAt url decl →
      let reversed := (ClassRegistry.qualifiedName url decl.name).toList.reverse
      reversed.takeWhile (· ≠ '#') = decl.name.toList.reverse ∧
        reversed.dropWhile (· ≠ '#') = '#' :: url.toList.reverse := by
    intro url decl hdecl
    have hplain : ∀ c ∈ decl.name.toList.reverse, decide (c ≠ '#') = true := by
      intro c hmem
      refine decide_eq_true fun heq => h url decl hdecl ?_
      exact heq ▸ List.mem_reverse.mp hmem
    have hreversed : (ClassRegistry.qualifiedName url decl.name).toList.reverse =
        decl.name.toList.reverse ++ '#' :: url.toList.reverse := by
      simp [ClassRegistry.qualifiedName]
    simp only [hreversed, List.takeWhile_append_of_pos hplain,
      List.dropWhile_append_of_pos hplain]
    simp
  intro url url' decl decl' hdecl hdecl' heq
  obtain ⟨hname, hurl⟩ := hparts url decl hdecl
  obtain ⟨hname', hurl'⟩ := hparts url' decl' hdecl'
  rw [heq] at hname hurl
  constructor
  · have hreversed := (List.cons.inj (hurl.symm.trans hurl')).2
    exact String.toList_inj.mp (List.reverse_injective hreversed)
  · exact String.toList_inj.mp (List.reverse_injective (hname.symm.trans hname'))

/-- The name of a class never leads to another one, and it leads to the class as long as no two
classes that modules declare share a name.  Imports take no name away then, also when they fail. -/
theorem names_exact {options : Options} {sources : Sources}
    (h : Reachable options sources workspace) :
    (∀ name id, workspace.machine.classes.find? name = some id →
      ∃ found, workspace.machine.classes.get? id = some found ∧ found.qualifiedName = name) ∧
    (sources.Unambiguous →
      (∀ id found, workspace.machine.classes.get? id = some found →
        workspace.machine.classes.find? found.qualifiedName = some id) ∧
      ∀ url name id, workspace.machine.classes.find? name = some id →
        (workspace.imported url).machine.classes.find? name = some id) := by
  refine ⟨h.sound.named, fun hsources => ?_⟩
  rw [← h.sources] at hsources
  refine ⟨h.sound.indexed hsources, fun url name id hfind => ?_⟩
  obtain ⟨hsound, hgrows⟩ := h.sound.imported url
  obtain ⟨found, hfound, rfl⟩ := h.sound.named name id hfind
  exact hsound.indexed (hgrows.sources.symm ▸ hsources) id found (hgrows.classes id found hfound)

theorem dice_unambiguous : diceSources.Unambiguous := by
  have hurl : ∀ url decl, diceSources.DeclaresAt url decl → url = "weft:core" := by
    rintro url decl ⟨text, tree, hfetch, -⟩
    exact dice_fetch hfetch
  intro url url' decl decl' hdecl hdecl' heq
  obtain rfl := hurl _ _ hdecl
  obtain rfl := hurl _ _ hdecl'
  exact ⟨rfl, ClassRegistry.qualifiedName_right heq⟩

theorem die_named : ∃ workspace found, Reachable {} diceSources workspace ∧
    diceSources.Unambiguous ∧ workspace.machine.classes.get? ⟨0⟩ = some found ∧
    workspace.machine.classes.find? found.qualifiedName = some ⟨0⟩ := by
  obtain ⟨workspace, ref, hreachable, -, ⟨found, hfound, -⟩, -⟩ := dice_reachable
  exact ⟨workspace, found, hreachable, dice_unambiguous, hfound,
    ((names_exact hreachable).2 dice_unambiguous).1 _ _ hfound⟩

end Workspace

end Attire

namespace Attire

/-! What an import answers does not depend on the imports before it. -/

inductive TargetKind
  | module
  | cls
  | fabric
deriving DecidableEq, Repr

def Target.kind : Target → TargetKind
  | .module _ => .module
  | .cls _ => .cls
  | .fabric _ => .fabric

/-- The names that a module exports, with the kinds of what they stand for. -/
def Module.signature (module : Module) : List (String × TargetKind) :=
  module.exports.entries.map fun (name, target) => (name, target.kind)

variable {same : ClassId → ClassId → Prop} {alike : ModuleId → ModuleId → Prop}

theorem Target.Matches.kind_eq {target target' : Target} (h : target.Matches same alike target') :
    target.kind = target'.kind := by
  cases h <;> rfl

theorem Module.Matches.signature_eq {module module' : Module}
    (h : module.Matches same alike module') : module.signature = module'.signature := by
  have hentries : List.Forall₂ Eq module.signature module'.signature := by
    refine List.forall₂_map_left_iff.mpr (List.forall₂_map_right_iff.mpr
      (List.Forall₂.imp ?_ h.exports))
    rintro ⟨name, target⟩ ⟨_, target'⟩ ⟨rfl, htarget⟩
    exact congrArg (name, ·) htarget.kind_eq
  exact List.forall₂_eq_eq_eq ▸ hentries

namespace Workspace

variable {workspace workspace' start : Workspace}

theorem Sound.leads_importAll (h : workspace.Sound) (urls : List String) :
    workspace.Leads (workspace.importAll urls) := by
  induction urls generalizing workspace with
  | nil => exact .refl
  | cons url rest ih =>
    refine Leads.trans ?_ (ih (h.imported url).1)
    have hyields := importModule_leads url h
    unfold Workspace.imported Workspace.import EStateM.run
    cases hrun : importModule url workspace with
    | ok id next => exact (hyields.of_ok hrun).1
    | error error next => exact (hyields.of_error hrun).1

/-- After any imports from the same sources, an import succeeds or fails as it does after any
others, and it fails with the same error or registers a module that exports the same names. -/
theorem imports_independent (options : Options) (sources : Sources) (before before' : List String)
    (url : String) :
    Coincide (fun _ next _ next' => ∃ module module',
        next.modules.getByUrl? url = some module ∧ next'.modules.getByUrl? url = some module' ∧
        module.signature = module'.signature)
      («import» url ((ofSources options sources).importAll before))
      («import» url ((ofSources options sources).importAll before')) := by
  have hsound := sound_ofSources options sources
  have hcoincide := importModule_coincide hsound (fun _ => rfl) (hsound.leads_importAll before)
    (hsound.leads_importAll before') url
  unfold Workspace.import EStateM.run
  generalize importModule url ((ofSources options sources).importAll before) = result at hcoincide ⊢
  generalize importModule url ((ofSources options sources).importAll before') = result'
    at hcoincide ⊢
  cases hcoincide with
  | ok h =>
    obtain ⟨module, module', hmodule, hmodule', hmatches⟩ := h
    exact .ok ⟨module, module', hmodule, hmodule', hmatches.signature_eq⟩
  | error error => exact .error _ _ _

end Workspace

end Attire
