import Attire.Proofs.Host.Effects
import Attire.Proofs.Import.Termination

namespace Attire

open Workspace

/-! Imports end, and whatever a module needs is registered before it. -/

/-- Every module has a source, and what it needs has smaller numbers. -/
def ModuleRegistry.Ordered (modules : ModuleRegistry) (sources : Sources) (options : Options) :
    Prop :=
  ∀ id module, modules.get? id = some module → ∃ text tree,
    sources.fetch module.url = .ok text ∧ ModuleTree.ofText? text = some tree ∧
      ∀ dependency ∈ tree.needs options module.url,
        ∃ earlier, modules.find? dependency = some earlier ∧ earlier.index < id.index

namespace ModuleRegistry

variable {modules : ModuleRegistry} {sources : Sources} {options : Options}

theorem Ordered.register {module : Module} {text : String} {tree : ModuleTree}
    (h : modules.Ordered sources options) (hnew : modules.find? module.url = none)
    (hlocated : ∀ url id, modules.find? url = some id → id.index < modules.size)
    (hfetch : sources.fetch module.url = .ok text) (htree : ModuleTree.ofText? text = some tree)
    (hmeets : modules.Meets options module.url tree) :
    (modules.register module).2.Ordered sources options := by
  have hkept : ∀ url id, modules.find? url = some id →
      (modules.register module).2.find? url = some id := by
    intro url id hfind
    rw [find?_register, if_neg, hfind]
    rintro rfl
    rw [hnew] at hfind
    cases hfind
  intro id found hget
  rw [get?_register] at hget
  split at hget
  case isTrue heq =>
    cases hget
    refine ⟨text, tree, hfetch, htree, fun dependency hdependency => ?_⟩
    obtain ⟨earlier, hfind⟩ := hmeets dependency hdependency
    exact ⟨earlier, hkept _ _ hfind, heq ▸ hlocated _ _ hfind⟩
  case isFalse =>
    obtain ⟨text, tree, hfetch, htree, hneeds⟩ := h id found hget
    refine ⟨text, tree, hfetch, htree, fun dependency hdependency => ?_⟩
    exact (hneeds dependency hdependency).imp fun _ ⟨hfind, hlt⟩ => ⟨hkept _ _ hfind, hlt⟩

theorem Ordered.imports {id : ModuleId} {module : Module} {dependency : String}
    (h : modules.Ordered sources options) (hmodule : modules.get? id = some module)
    (himports : sources.Imports options module.url dependency) :
    ∃ earlier, modules.find? dependency = some earlier ∧ earlier.index < id.index := by
  obtain ⟨text, tree, hfetch, htree, hneeds⟩ := h id module hmodule
  obtain ⟨text', tree', hfetch', htree', hdependency⟩ := himports
  cases hfetch.symm.trans hfetch'
  cases htree.symm.trans htree'
  exact hneeds dependency hdependency

end ModuleRegistry

namespace Workspace

variable {workspace next : Workspace} {options : Options} {sources : Sources} {url other : String}
variable {id : ModuleId}

theorem Leads.ordered (h : workspace.Leads next) (hsound : workspace.Sound)
    (hordered : workspace.modules.Ordered workspace.sources workspace.options) :
    next.modules.Ordered workspace.sources workspace.options := by
  induction h with
  | refl => exact hordered
  | @module base built url text tree notes draft hleads hfind hfetch htree _ hmeets hbuild ih =>
    obtain ⟨hbase, hgrows⟩ := hleads.sound hsound
    have hbuilt := (assemble_recall hbase hfind hfetch htree).of_ok hbuild
    dsimp only
    rw [hbuilt.modules]
    refine ih.register hfind (fun url id hlocated => ?_) (hgrows.sources ▸ hfetch) htree
      (hgrows.options ▸ hmeets)
    obtain ⟨module, hmodule⟩ := hbase.registered hlocated
    exact (Array.getElem?_eq_some_iff.mp hmodule).1
  | kept _ _ _ hmodules _ ih => exact hmodules ▸ ih

/-- Along a path of imports the numbers fall. -/
theorem Sound.imports_registered (h : workspace.Sound)
    (hordered : workspace.modules.Ordered sources options)
    (hfind : workspace.modules.find? url = some id)
    (hpath : Relation.TransGen (sources.Imports options) url other) :
    ∃ earlier, workspace.modules.find? other = some earlier ∧ earlier.index < id.index := by
  induction hpath with
  | single himports =>
    obtain ⟨module, hmodule, rfl⟩ := h.byUrl hfind
    exact hordered.imports hmodule himports
  | tail _ himports ih =>
    obtain ⟨middle, hmiddle, hlt⟩ := ih
    obtain ⟨module, hmodule, rfl⟩ := h.byUrl hmiddle
    obtain ⟨earlier, hearlier, hlt'⟩ := hordered.imports hmodule himports
    exact ⟨earlier, hearlier, hlt'.trans hlt⟩

theorem Sound.no_circle (h : workspace.Sound) (hordered : workspace.modules.Ordered sources options)
    (hfind : workspace.modules.find? url = some id)
    (hpath : Relation.ReflTransGen (sources.Imports options) url other) :
    ¬Relation.TransGen (sources.Imports options) other other := by
  intro hcircle
  have hother : ∃ found, workspace.modules.find? other = some found := by
    rcases Relation.reflTransGen_iff_eq_or_transGen.mp hpath with rfl | hpath
    · exact ⟨id, hfind⟩
    · exact (h.imports_registered hordered hfind hpath).imp fun _ => And.left
  obtain ⟨found, hfound⟩ := hother
  obtain ⟨earlier, hearlier, hlt⟩ := h.imports_registered hordered hfound hcircle
  cases hfound.symm.trans hearlier
  exact Nat.lt_irrefl _ hlt

theorem Reachable.ordered (h : Reachable options sources workspace) :
    workspace.modules.Ordered sources options :=
  h.leads.ordered (sound_ofSources options sources) nofun

/-- Imports end after as many steps as there are sources, whatever stands beyond these; what they
report as a circle is one; and modules need only what was registered before them, so that none of
them leads to a circle. -/
theorem imports_acyclic (h : Reachable options sources workspace) :
    (∀ url beyond steps, sources.size < steps →
      importTo beyond steps [] url workspace = importModule url workspace) ∧
    (∀ url chain next, importModule url workspace = .error (.cycle chain) next →
      sources.Circle options chain) ∧
    (∀ id module, workspace.modules.get? id = some module →
      (module.url ≠ options.coreUrl → ∃ core,
        workspace.modules.find? options.coreUrl = some core ∧ core.index < id.index) ∧
      ∀ dependency, sources.Imports options module.url dependency → ∃ earlier,
        workspace.modules.find? dependency = some earlier ∧ earlier.index < id.index) ∧
    ∀ url id, workspace.modules.find? url = some id → ∀ other,
      Relation.ReflTransGen (sources.Imports options) url other →
      ¬Relation.TransGen (sources.Imports options) other other := by
  have hgrows := (h.leads.sound (sound_ofSources options sources)).2
  have hsources : workspace.sources = sources := hgrows.sources
  have hoptions : workspace.options = options := hgrows.options
  refine ⟨fun url beyond steps hsteps => ?_, fun url chain next himport => ?_,
    fun id module hmodule => ⟨fun hcore => ?_, fun dependency himports => ?_⟩,
    fun url id hfind other hpath => h.sound.no_circle h.ordered hfind hpath⟩
  · refine importTo_eq beyond ⟨h.sound, nofun⟩ List.nodup_nil (.singleton _) nofun ?_ ?_
    · simpa [hsources] using hsteps
    · simp
  · have hjustified := ((importModule_leads url h.sound).of_error himport).2
    rw [hsources, hoptions] at hjustified
    exact hjustified.circle rfl
  · obtain ⟨text, tree, -, -, hneeds⟩ := h.ordered id module hmodule
    exact hneeds _ (by simp [ModuleTree.needs, hcore])
  · exact h.ordered.imports hmodule himports

/-! A core module that imports itself, and one that does not. -/

def loopText : String :=
  "[\"module\",[[[\"copyright\",\x7b\"text\":\"\"\x7d]," ++
  "[\"license\",\x7b\"text\":\"\"\x7d]," ++
  "[\"import\",\x7b\"url\":\"weft:core\",\"name\":\"self\"\x7d]]]]"

def loopTree : ModuleTree where
  declarations := [.copyright "" {}, .license "" {}, .import "weft:core" "self" {}]

def loopSources : Sources := Table.insert ∅ "weft:core" (.ok loopText)

set_option maxRecDepth 100000 in
theorem loop_tree : ModuleTree.ofText? loopText = some loopTree := by
  unfold ModuleTree.ofText? Json.ofText? loopText
  simp only [String.toList_append]
  cbv

theorem loop_fetch : loopSources.fetch "weft:core" = .ok loopText := by
  unfold Sources.fetch loopSources
  rw [Table.get?_insert_self]
  rfl

theorem loop_refused {sources : Sources} {text : String}
    (hfetch : sources.fetch "weft:core" = .ok text) (htree : ModuleTree.ofText? text = some loopTree)
    (hsize : sources.size = 1) : ∃ next, importModule "weft:core" (ofSources {} sources) =
      .error (.cycle ["weft:core", "weft:core"]) next := by
  have hnotices : notices "weft:core" loopTree = .ok ([""], "") := rfl
  have hcore : (ofSources {} sources).options.coreUrl = "weft:core" := rfl
  have hfind : (ofSources {} sources).modules.find? "weft:core" = none := rfl
  have hsources : (ofSources {} sources).sources = sources := rfl
  generalize ofSources {} sources = workspace at *
  have hagain : Yields (importBelow 1 ["weft:core"] "weft:core") workspace
      (fun _ _ => False) fun error next => error = .cycle ["weft:core", "weft:core"] := by
    unfold importBelow
    simp [hfind]
  have hbuild : Yields (build (importBelow 1 ["weft:core"]) "weft:core" loopTree) workspace
      (fun _ _ => False) fun error _ => error = .cycle ["weft:core", "weft:core"] := by
    rw [build_eq]
    refine yields_bind.mpr (yields_get.mpr (yields_bind.mpr ?_))
    simp only [gather, loadCore, hcore, loopTree, if_pos, pure_bind, List.filterMapM_cons, loadImport,
      bind_assoc]
    exact yields_bind.mpr (hagain.imp (fun _ _ h => h.elim) fun _ _ h => h)
  have hyields : Yields (importModule "weft:core") workspace (fun _ _ => False)
      fun error _ => error = .cycle ["weft:core", "weft:core"] := by
    refine yields_bind.mpr (yields_get.mpr ?_)
    rw [hsources, hsize]
    unfold importBelow
    simp only [yields_bind, yields_get, hfind, List.not_mem_nil, if_false, hsources, hfetch, htree,
      hnotices, orFail, yields_pure, yields_tryCatch, List.nil_append]
    refine hbuild.imp (fun _ _ h => h.elim) ?_
    rintro _ failed rfl
    exact yields_modify.mpr rfl
  cases hrun : importModule "weft:core" workspace with
  | ok id next => exact (hyields.of_ok hrun).elim
  | error error next => exact ⟨next, by rw [hyields.of_error hrun]⟩

theorem loop_circle : loopSources.Circle {} ["weft:core", "weft:core"] ∧
    ∃ workspace, Reachable {} diceSources workspace ∧
      (∀ beyond, importTo beyond 2 [] "weft:core" workspace = importModule "weft:core" workspace) ∧
      ¬Relation.TransGen (diceSources.Imports {}) "weft:core" "weft:core" := by
  constructor
  · obtain ⟨next, hloop⟩ := loop_refused loop_fetch loop_tree rfl
    exact (imports_acyclic .start).2.1 _ _ _ hloop
  · obtain ⟨workspace, ref, hreachable, -, ⟨found, hfound, -⟩, -⟩ := dice_reachable
    have hacyclic := imports_acyclic hreachable
    have hsize : diceSources.size < 2 := Nat.one_lt_two
    refine ⟨workspace, hreachable, fun beyond => hacyclic.1 "weft:core" beyond 2 hsize, ?_⟩
    -- The class of the die belongs to the core module.
    obtain ⟨id, module, hmodule, -⟩ :=
      hreachable.sound.owned (ClassRegistry.contains_iff.mpr ⟨found, hfound⟩)
    obtain ⟨text, tree, hfetch, -⟩ := hreachable.ordered id module hmodule
    have hfind := hreachable.sound.located hmodule
    rw [dice_fetch hfetch] at hfind
    exact hacyclic.2.2.2 _ id hfind _ .refl

end Workspace

end Attire
