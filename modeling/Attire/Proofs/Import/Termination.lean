import Attire.Proofs.Import.History

namespace Attire.Workspace

/-! Imports end: no chain of imports is longer than the table of sources. -/

variable {workspace : Workspace} {tree : ModuleTree} {options : Options} {url : String}
variable {chain : List String}

/-- One step of the recursion of an import.  `again` imports what the module needs. -/
def importStep (again : List String → String → Importing ModuleId) (chain : List String)
    (url : String) : Importing ModuleId := do
  let workspace ← get
  match workspace.modules.find? url with
  | some id => return id
  | none =>
    if url ∈ chain then
      throw (.cycle (chain.dropWhile (· ≠ url) ++ [url]))
    let text ← orFail (.fetch url) (workspace.sources.fetch url)
    let some tree := ModuleTree.ofText? text | throw (.malformed url)
    let notes ← orFail (fun cause => .resolve url ⟨cause, none⟩) (notices url tree)
    let mark := workspace.machine.classes.size
    let draft ←
      tryCatch (build (again (chain ++ [url])) url tree) fun error => do
        rollBack mark
        throw error
    modifyGet fun workspace =>
      let (id, modules) := workspace.modules.register (draft.seal url text notes)
      (id, { workspace with modules })

/-- The recursion of an import down to a depth, and whatever stands beyond it. -/
def importTo (beyond : List String → String → Importing ModuleId) :
    Nat → List String → String → Importing ModuleId
  | 0 => beyond
  | steps + 1 => importStep (importTo beyond steps)

theorem importBelow_succ (steps : Nat) :
    importBelow (steps + 1) = importStep (importBelow steps) := rfl

section

variable {keeps : Workspace → Prop} {err : ImportError → Workspace → Prop} {α β : Type}

/-- The steps do the same wherever a condition holds, and the condition holds afterwards. -/
def Agrees (keeps : Workspace → Prop) (err : ImportError → Workspace → Prop)
    (step step' : Importing α) : Prop :=
  ∀ workspace, keeps workspace → step workspace = step' workspace ∧
    Yields step' workspace (fun _ next => keeps next) err

theorem Agrees.pure (answer : α) : Agrees keeps err (pure answer) (pure answer) :=
  fun _ h => ⟨rfl, h⟩

theorem Agrees.bind {step step' : Importing α} {next next' : α → Importing β}
    (h : Agrees keeps err step step') (hnext : ∀ answer, Agrees keeps err (next answer) (next' answer)) :
    Agrees keeps err (step >>= next) (step' >>= next') := by
  intro workspace hkeeps
  obtain ⟨heq, hyields⟩ := h workspace hkeeps
  refine ⟨?_, yields_bind.mpr (hyields.imp (fun answer _ hafter => (hnext answer _ hafter).2)
    fun _ _ h => h)⟩
  unfold Yields at hyields
  simp only [Bind.bind, EStateM.bind, heq]
  cases hresult : step' workspace with
  | ok answer after =>
    rw [hresult] at hyields
    exact (hnext answer after hyields).1
  | error error after => rfl

variable {load load' : String → Importing ModuleId}

theorem loadImports_agrees {decls : List Decl}
    (h : ∀ dependency ∈ decls.filterMap Decl.dependency?,
      Agrees keeps err (load dependency) (load' dependency)) :
    Agrees keeps err (decls.filterMapM (loadImport load)) (decls.filterMapM (loadImport load')) := by
  induction decls with
  | nil => exact .pure []
  | cons decl rest ih =>
    simp only [List.filterMapM_cons]
    cases decl with
    | «import» dependency name span =>
      refine .bind (.bind (h dependency (by simp [Decl.dependency?])) fun id => .pure _) fun entry => ?_
      have hrest := ih fun other hmem => h other (List.mem_cons_of_mem _ hmem)
      cases entry with
      | none => exact hrest
      | some entry => exact hrest.bind fun imports => .pure _
    | _ => exact ih h

theorem gather_agrees
    (h : ∀ dependency ∈ tree.needs options url,
      Agrees keeps err (load dependency) (load' dependency)) :
    Agrees keeps err (gather load options url tree) (gather load' options url tree) := by
  have himports : Agrees keeps err (tree.declarations.filterMapM (loadImport load))
      (tree.declarations.filterMapM (loadImport load')) :=
    loadImports_agrees fun dependency hmem => h dependency (List.mem_append_right _ hmem)
  refine .bind ?_ fun core => himports.bind fun imports => .pure _
  unfold loadCore
  split
  case isTrue => exact .pure none
  case isFalse hne =>
    exact .bind (h options.coreUrl (by simp [ModuleTree.needs, hne])) fun id => .pure _

end

theorem get_bind_congr {α : Type} {next next' : Workspace → Importing α}
    (h : next workspace workspace = next' workspace workspace) :
    (get >>= next) workspace = (get >>= next') workspace := h

theorem orFail_bind_congr {α β ε : Type} {wrap : ε → ImportError} {result : Except ε α}
    {next next' : α → Importing β}
    (h : ∀ value, result = .ok value → next value workspace = next' value workspace) :
    (orFail wrap result >>= next) workspace = (orFail wrap result >>= next') workspace := by
  cases result with
  | ok value => exact h value rfl
  | error error => rfl

theorem tryCatch_bind_congr {α β : Type} {step step' : Importing α}
    {handler : ImportError → Importing α} {next : α → Importing β}
    (h : step workspace = step' workspace) :
    (tryCatch step handler >>= next) workspace = (tryCatch step' handler >>= next) workspace := by
  simp only [Bind.bind, EStateM.bind, tryCatch, tryCatchThe, MonadExceptOf.tryCatch,
    EStateM.tryCatch, h]

theorem importStep_congr {again again' : List String → String → Importing ModuleId}
    (h : workspace.modules.find? url = none → url ∉ chain → ∀ text tree,
      workspace.sources.fetch url = .ok text → ModuleTree.ofText? text = some tree →
      gather (again (chain ++ [url])) workspace.options url tree workspace =
        gather (again' (chain ++ [url])) workspace.options url tree workspace) :
    importStep again chain url workspace = importStep again' chain url workspace := by
  refine get_bind_congr ?_
  cases hfind : workspace.modules.find? url with
  | some id => rfl
  | none =>
    by_cases hmem : url ∈ chain
    · simp only [if_pos hmem]
      rfl
    · simp only [if_neg hmem]
      refine orFail_bind_congr fun text hfetch => ?_
      cases htree : ModuleTree.ofText? text with
      | none => rfl
      | some tree =>
        refine orFail_bind_congr fun notes _ => tryCatch_bind_congr ?_
        rw [build_eq, build_eq]
        refine get_bind_congr ?_
        simp only [Bind.bind, EStateM.bind, h hfind hmem text tree hfetch htree]

theorem length_le_size {sources : Sources} (hnodup : chain.Nodup)
    (hsources : ∀ url ∈ chain, ∃ text, sources.fetch url = .ok text) :
    chain.length ≤ sources.size := by
  have hsubset : chain ⊆ sources.keys := by
    intro url hmem
    obtain ⟨text, hfetch⟩ := hsources url hmem
    refine Table.contains_iff.mp ?_
    unfold Sources.fetch at hfetch
    unfold Table.contains
    cases hget : sources.get? url with
    | none => simp [hget] at hfetch
    | some found => rfl
  have hlength := (hnodup.subperm hsubset).length_le
  simpa [Table.keys, Table.size] using hlength

theorem sourced_append {sources : Sources} {text : String} (hnodup : chain.Nodup)
    (hsources : ∀ url ∈ chain, ∃ text, sources.fetch url = .ok text) (hmem : url ∉ chain)
    (hfetch : sources.fetch url = .ok text) :
    (chain ++ [url]).Nodup ∧ ∀ other ∈ chain ++ [url], ∃ text, sources.fetch other = .ok text := by
  constructor
  · rw [List.nodup_append]
    refine ⟨hnodup, List.nodup_singleton _, ?_⟩
    rintro other hother _ hlast rfl
    exact hmem (List.mem_singleton.mp hlast ▸ hother)
  · intro other hother
    rcases List.mem_append.mp hother with hother | hother
    · exact hsources other hother
    · exact List.mem_singleton.mp hother ▸ ⟨text, hfetch⟩

/-- Once the recursion may go deeper than there are sources, it never goes as deep as it may. -/
theorem importTo_eq (beyond : List String → String → Importing ModuleId) {steps steps' : Nat}
    (h : workspace.Awaits chain) (hnodup : chain.Nodup)
    (hlinked : (chain ++ [url]).IsChain (workspace.sources.Imports workspace.options))
    (hsources : ∀ url ∈ chain, ∃ text, workspace.sources.fetch url = .ok text)
    (hsteps : workspace.sources.size < steps + chain.length)
    (hsteps' : workspace.sources.size < steps' + chain.length) :
    importTo beyond steps chain url workspace = importBelow steps' chain url workspace := by
  have hlength := length_le_size hnodup hsources
  induction steps generalizing steps' chain url workspace with
  | zero => omega
  | succ steps ih =>
    cases steps' with
    | zero => omega
    | succ steps' =>
      rw [importBelow_succ]
      refine importStep_congr fun hfind hmem text tree hfetch htree => ?_
      have hawaits := h.append hfind
      refine (gather_agrees fun dependency hdependency => ?_ : Agrees
        (fun next => next.Awaits (chain ++ [url]) ∧ workspace.Leads next) (fun _ _ => True)
        _ _) workspace ⟨hawaits, .refl⟩ |>.1
      rintro next ⟨hnext, hleads⟩
      have hgrows := (hleads.sound h.toSound).2
      have hfollows := hgrows.linked hlinked hfetch htree hdependency
      obtain ⟨hdistinct, hfetched⟩ := sourced_append hnodup hsources hmem hfetch
      rw [← hgrows.sources] at hfetched
      refine ⟨ih hnext hdistinct hfollows hfetched ?_ ?_ (length_le_size hdistinct hfetched), ?_⟩
      · simp only [hgrows.sources, List.length_append, List.length_singleton]
        omega
      · simp only [hgrows.sources, List.length_append, List.length_singleton]
        omega
      · refine (importBelow_sound steps' _ dependency next hnext hfollows).imp ?_ fun _ _ _ => trivial
        exact fun _ _ ⟨hlast, hleads', _⟩ => ⟨hlast, hleads.trans hleads'⟩

end Attire.Workspace
