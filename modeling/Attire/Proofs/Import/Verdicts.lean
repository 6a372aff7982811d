import Attire.Proofs.Import.Consistency
import Attire.Proofs.Import.Termination

namespace Attire.Workspace

/-! The verdict on an import depends on the sources alone. -/

variable {start workspace workspace' : Workspace} {tree : ModuleTree} {options : Options}
variable {url text : String} {chain : List String} {load load' : String → Importing ModuleId}

/-- Both imports succeed, or both fail for the same reason. -/
abbrev SameVerdict {α β : Type} (result : EStateM.Result ImportError Workspace α)
    (result' : EStateM.Result ImportError Workspace β) : Prop :=
  Coincide (fun _ _ _ _ => True) result result'

theorem SameVerdict.symm {α β : Type} {result : EStateM.Result ImportError Workspace α}
    {result' : EStateM.Result ImportError Workspace β} (h : SameVerdict result result') :
    SameVerdict result' result := by
  cases h with
  | ok => exact .ok trivial
  | error error => exact .error error _ _

section

variable {keeps : Workspace → Workspace → Prop}

theorem loadImports_coincide {decls : List Decl}
    (hload : ∀ dependency ∈ decls.filterMap Decl.dependency?, ∀ workspace workspace',
      keeps workspace workspace' → Coincide (fun _ next _ next' => keeps next next')
        (load dependency workspace) (load' dependency workspace'))
    (h : keeps workspace workspace') :
    Coincide (fun _ next _ next' => keeps next next') (decls.filterMapM (loadImport load) workspace)
      (decls.filterMapM (loadImport load') workspace') := by
  induction decls generalizing workspace workspace' with
  | nil => exact .ok h
  | cons decl rest ih =>
    simp only [List.filterMapM_cons]
    cases decl with
    | «import» dependency name span =>
      have hfirst : Coincide (fun entry next entry' next' => keeps next next' ∧
            entry.isSome ∧ entry'.isSome)
          (loadImport load (.import dependency name span) workspace)
          (loadImport load' (.import dependency name span) workspace') :=
        (hload dependency (by simp [Decl.dependency?]) _ _ h).bind fun _ _ _ _ h => .ok ⟨h, rfl, rfl⟩
      refine hfirst.bind ?_
      rintro entry next entry' next' ⟨hnext, hsome, hsome'⟩
      obtain ⟨entry, rfl⟩ := Option.isSome_iff_exists.mp hsome
      obtain ⟨entry', rfl⟩ := Option.isSome_iff_exists.mp hsome'
      exact (ih (fun other hmem => hload other (List.mem_cons_of_mem _ hmem)) hnext).bind
        fun _ _ _ _ h => .ok h
    | _ => exact ih hload h

theorem gather_coincide
    (hload : ∀ dependency ∈ tree.needs options url, ∀ workspace workspace',
      keeps workspace workspace' → Coincide (fun _ next _ next' => keeps next next')
        (load dependency workspace) (load' dependency workspace'))
    (h : keeps workspace workspace') :
    Coincide (fun _ next _ next' => keeps next next') (gather load options url tree workspace)
      (gather load' options url tree workspace') := by
  have hcore : Coincide (fun _ next _ next' => keeps next next')
      (loadCore load options url workspace) (loadCore load' options url workspace') := by
    unfold loadCore
    split
    case isTrue => exact .ok h
    case isFalse hne =>
      simp only [map_eq_pure_bind]
      exact (hload _ (by simp [ModuleTree.needs, hne]) _ _ h).bind fun _ _ _ _ h => .ok h
  refine hcore.bind fun _ _ _ _ hnext => ?_
  exact (loadImports_coincide (fun dependency hmem => hload dependency
    (List.mem_append_right _ hmem)) hnext).bind fun _ _ _ _ h => .ok h

end

/-- What two histories that lead up to an import of a module have in common. -/
structure Abreast (start : Workspace) (chain : List String) (workspace workspace' : Workspace) :
    Prop where
  leads : start.Leads workspace
  leads' : start.Leads workspace'
  awaits : workspace.Awaits chain
  awaits' : workspace'.Awaits chain

theorem Abreast.symm (h : Abreast start chain workspace workspace') :
    Abreast start chain workspace' workspace :=
  ⟨h.leads', h.leads, h.awaits', h.awaits⟩

theorem Abreast.next {next next' : Workspace} (h : Abreast start chain workspace workspace')
    (hawaits : next.Awaits chain) (hleads : workspace.Leads next) (hawaits' : next'.Awaits chain)
    (hleads' : workspace'.Leads next') : Abreast start chain next next' :=
  ⟨h.leads.trans hleads, h.leads'.trans hleads', hawaits, hawaits'⟩

section

variable (hsound : start.Sound)
include hsound

theorem Leads.options_eq (h : start.Leads workspace) : workspace.options = start.options :=
  (h.sound hsound).2.options

theorem Leads.sources_eq (h : start.Leads workspace) : workspace.sources = start.sources :=
  (h.sound hsound).2.sources

theorem gather_leads (hleads : start.Leads workspace) (hawaits : workspace.Awaits (chain ++ [url]))
    (hlinked : (chain ++ [url]).IsChain (start.sources.Imports start.options))
    (hfetch : start.sources.fetch url = .ok text) (htree : ModuleTree.ofText? text = some tree)
    (hloads : Loads (chain ++ [url]) load) :
    Yields (gather load start.options url tree) workspace
      (fun needs next => (next.Awaits (chain ++ [url]) ∧ workspace.Leads next) ∧
        next.modules.Meets next.options url tree ∧
        needs = next.modules.recall next.options url tree) fun _ _ => True := by
  have hoptions := hleads.options_eq hsound
  have hsources := hleads.sources_eq hsound
  rw [← hsources, ← hoptions] at hlinked
  refine hoptions ▸ (gather_sound hloads hawaits hlinked (hsources ▸ hfetch) htree).imp ?_
    fun _ _ _ => trivial
  rintro needs next ⟨hnext, hgrows, hmeets, hneeds⟩
  rw [hgrows.options]
  exact ⟨hnext, hmeets, hneeds⟩

variable (hnone : ∀ url, start.modules.find? url = none)
include hnone

/-- Where all that is needed is imported with one verdict, the module is built with one. -/
theorem build_verdict (h : Abreast start (chain ++ [url]) workspace workspace')
    (hlinked : (chain ++ [url]).IsChain (start.sources.Imports start.options))
    (hfetch : start.sources.fetch url = .ok text) (htree : ModuleTree.ofText? text = some tree)
    (hloads : Loads (chain ++ [url]) load)
    (hload : ∀ dependency ∈ tree.needs start.options url, ∀ next next',
      Abreast start (chain ++ [url]) next next' → SameVerdict (load dependency next)
        (load dependency next')) :
    SameVerdict (build load url tree workspace) (build load url tree workspace') := by
  have hgather : Coincide (fun _ next _ next' => Abreast start (chain ++ [url]) next next')
      (gather load start.options url tree workspace)
      (gather load start.options url tree workspace') := by
    refine gather_coincide (fun dependency hmem next next' hnext => ?_) h
    have hyields : ∀ {workspace : Workspace}, start.Leads workspace →
        workspace.Awaits (chain ++ [url]) → Yields (load dependency) workspace
          (fun id next => next.Awaits (chain ++ [url]) ∧ workspace.Leads next ∧
            next.modules.find? dependency = some id)
          fun error next => next.Awaits (chain ++ [url]) ∧ workspace.Leads next ∧
            error.Justified workspace.sources workspace.options :=
      fun hleads hawaits => hloads dependency _ hawaits
        ((hleads.sound hsound).2.linked hlinked hfetch htree hmem)
    refine ((hload dependency hmem next next' hnext).and_yields (hyields hnext.leads hnext.awaits)
      (hyields hnext.leads' hnext.awaits')).imp ?_
    rintro _ last _ last' ⟨-, ⟨hlast, hleads, -⟩, hlast', hleads', -⟩
    exact hnext.next hlast hleads hlast' hleads'
  rw [build_eq]
  refine Coincide.bind_get ?_
  rw [h.leads.options_eq hsound, h.leads'.options_eq hsound]
  refine (hgather.and_yields
    (gather_leads hsound h.leads h.awaits hlinked hfetch htree hloads)
    (gather_leads hsound h.leads' h.awaits' hlinked hfetch htree hloads)).bind ?_
  rintro _ base _ base' ⟨hbases, ⟨-, hmeets, rfl⟩, -, hmeets', rfl⟩
  have hoptions := hbases.leads.options_eq hsound
  have hoptions' := hbases.leads'.options_eq hsound
  have hsources := hbases.leads.sources_eq hsound
  have hsources' := hbases.leads'.sources_eq hsound
  have hassemble := (hbases.leads.consistent hsound hnone hbases.leads').assemble_coincide
    hbases.awaits.toSound hbases.awaits'.toSound (hoptions'.trans hoptions.symm)
    (hsources'.trans hsources.symm) (hbases.awaits.pending url (by simp))
    (hbases.awaits'.pending url (by simp)) (hsources.symm ▸ hfetch) htree hmeets hmeets'
  rw [hoptions, hoptions'] at hassemble ⊢
  exact hassemble.imp fun _ _ _ _ _ => trivial

theorem importStep_verdict {again : List String → String → Importing ModuleId}
    (h : Abreast start chain workspace workspace') (hfind : workspace.modules.find? url = none)
    (hfind' : workspace'.modules.find? url = none)
    (hlinked : (chain ++ [url]).IsChain (start.sources.Imports start.options))
    (hloads : Loads (chain ++ [url]) (again (chain ++ [url])))
    (hload : url ∉ chain → ∀ text tree, start.sources.fetch url = .ok text →
      ModuleTree.ofText? text = some tree → ∀ dependency ∈ tree.needs start.options url,
      ∀ next next', Abreast start (chain ++ [url]) next next' →
        SameVerdict (again (chain ++ [url]) dependency next)
          (again (chain ++ [url]) dependency next')) :
    SameVerdict (importStep again chain url workspace) (importStep again chain url workspace') := by
  unfold importStep
  refine Coincide.bind_get ?_
  rw [h.leads.sources_eq hsound, h.leads'.sources_eq hsound, hfind, hfind']
  by_cases hmem : url ∈ chain
  · simp only [if_pos hmem]
    exact .error _ _ _
  simp only [if_neg hmem]
  refine (orFail_coincide rfl (Agree.of_eq rfl).and_eq _ _).bind ?_
  rintro text _ _ _ ⟨⟨rfl, hfetch, -⟩, rfl, rfl⟩
  cases htree : ModuleTree.ofText? text with
  | none => exact .error _ _ _
  | some tree =>
    refine (orFail_coincide rfl (Agree.of_eq rfl) _ _).bind ?_
    rintro notes next _ next' ⟨rfl, rfl, rfl⟩
    have hstep : Abreast start (chain ++ [url]) next next' :=
      ⟨h.leads, h.leads', h.awaits.append hfind, h.awaits'.append hfind'⟩
    refine Coincide.bind ((build_verdict hsound hnone hstep hlinked hfetch htree hloads
      (hload hmem text tree hfetch htree)).tryCatch fun error _ _ => ?_) ?_
    · exact .error _ _ _
    · exact fun _ _ _ _ _ => .ok trivial

end

theorem importBelow_registered {id : ModuleId} (hfind : workspace.modules.find? url = some id)
    (steps : Nat) (chain : List String) :
    importBelow (steps + 1) chain url workspace = .ok id workspace := by
  refine yields_eq_ok.mp ?_
  unfold importBelow
  refine yields_bind.mpr (yields_get.mpr ?_)
  rw [hfind]
  exact ⟨rfl, rfl⟩

/-- A module that was added once could be imported where it was added. -/
theorem Adds.imports {base next : Workspace} {draft : ModuleDraft} (h : base.Adds url draft next)
    (hmem : url ∉ chain) (steps : Nat) :
    Yields (importBelow (steps + 2) chain url) base (fun _ _ => True) fun _ _ => False := by
  obtain ⟨text, tree, hfetch, htree, hmeets, built, notes, hnotes, hbuild, -⟩ := h.assembled
  have hgather : Yields (gather (importBelow (steps + 1) (chain ++ [url])) base.options url tree) base
      (fun needs next => next = base ∧ base.Grows next ∧ next.modules.Meets base.options url tree ∧
        needs = next.modules.recall base.options url tree) fun _ _ => False := by
    refine gather_yields ?_ ?_ rfl
    · rintro _ rfl
      exact h.sound
    · rintro dependency hdependency _ rfl
      obtain ⟨id, hfind⟩ := hmeets dependency hdependency
      refine (yields_eq_ok.mpr (importBelow_registered hfind steps _)).imp ?_ fun _ _ h => h
      rintro _ _ ⟨rfl, rfl⟩
      exact ⟨rfl, .refl _, hfind⟩
  rw [importBelow_succ]
  unfold importStep
  refine yields_bind.mpr (yields_get.mpr ?_)
  rw [h.pending]
  simp only [if_neg hmem]
  refine yields_bind.mpr (yields_orFail ?_ fun _ hcause => by cases hfetch.symm.trans hcause)
  intro found hfound
  cases hfetch.symm.trans hfound
  rw [htree]
  refine yields_bind.mpr (yields_orFail ?_ fun _ hcause => by cases hnotes.symm.trans hcause)
  intro found hfound
  refine yields_bind.mpr (yields_tryCatch.mpr ?_)
  rw [build_eq]
  refine yields_bind.mpr (yields_get.mpr (yields_bind.mpr (hgather.imp ?_ fun _ _ h => h.elim)))
  rintro _ _ ⟨rfl, -, -, rfl⟩
  refine (yields_eq_ok.mpr hbuild).imp (fun _ _ _ => ?_) fun _ _ h => h.elim
  exact yields_modifyGet.mpr trivial

section

variable (hsound : start.Sound) (hnone : ∀ url, start.modules.find? url = none)
include hsound hnone

/-- A module that one history has registered can be taken back there. -/
theorem registered_verdict {steps : Nat} {id : ModuleId}
    (h : Abreast start chain workspace workspace') (hfind : workspace.modules.find? url = some id)
    (hnodup : chain.Nodup) (hsources : ∀ url ∈ chain, ∃ text, start.sources.fetch url = .ok text)
    (hsteps : start.sources.size < steps + 1 + chain.length)
    (hagain : ∀ base, Abreast start chain base workspace' → base.modules.find? url = none →
      SameVerdict (importBelow (steps + 1) chain url base)
        (importBelow (steps + 1) chain url workspace')) :
    SameVerdict (importBelow (steps + 1) chain url workspace)
      (importBelow (steps + 1) chain url workspace') := by
  obtain ⟨base, added, draft, hleads, hadds, hgrows⟩ := h.leads.origin hsound (hnone url) hfind
  have hmem : url ∉ chain := by
    intro hmem
    cases hfind.symm.trans (h.awaits.pending url hmem)
  -- The module has a source, so the chain does not use up the steps.
  obtain ⟨steps, rfl⟩ : ∃ fewer, steps = fewer + 1 := by
    obtain ⟨text, -, hfetch, -⟩ := hadds.assembled
    rw [hleads.sources_eq hsound] at hfetch
    obtain ⟨hdistinct, hfetched⟩ := sourced_append hnodup hsources hmem hfetch
    have hlength := length_le_size hdistinct hfetched
    simp only [List.length_append, List.length_singleton] at hlength
    exact ⟨steps - 1, by omega⟩
  have hbase : base.Awaits chain := by
    refine ⟨hadds.sound, fun other hother => Option.eq_none_iff_forall_ne_some.mpr fun id hid => ?_⟩
    have hkept := hadds.sound.find?_grows h.awaits.toSound (hadds.grows.2.trans hgrows) hid
    cases hkept.symm.trans (h.awaits.pending other hother)
  have hverdict := hagain base ⟨hleads, h.leads', hbase, h.awaits'⟩ hadds.pending
  have himports := hadds.imports hmem steps
  rw [importBelow_registered hfind]
  generalize importBelow (steps + 2) chain url workspace' = result at hverdict ⊢
  unfold Yields at himports
  cases hrun : importBelow (steps + 2) chain url base with
  | error error failed =>
    rw [hrun] at himports
    exact himports.elim
  | ok answer last =>
    rw [hrun] at hverdict
    cases hverdict
    exact .ok trivial

theorem importBelow_verdict (steps : Nat) (h : Abreast start chain workspace workspace')
    (hnodup : chain.Nodup)
    (hlinked : (chain ++ [url]).IsChain (start.sources.Imports start.options))
    (hsources : ∀ url ∈ chain, ∃ text, start.sources.fetch url = .ok text)
    (hsteps : start.sources.size < steps + chain.length) :
    SameVerdict (importBelow steps chain url workspace) (importBelow steps chain url workspace') := by
  have hlength := length_le_size hnodup hsources
  induction steps generalizing chain url workspace workspace' with
  | zero => omega
  | succ steps ih =>
    have hpending : ∀ {workspace workspace' : Workspace}, Abreast start chain workspace workspace' →
        workspace.modules.find? url = none → workspace'.modules.find? url = none →
        SameVerdict (importBelow (steps + 1) chain url workspace)
          (importBelow (steps + 1) chain url workspace') := by
      intro workspace workspace' h hfind hfind'
      rw [importBelow_succ]
      refine importStep_verdict hsound hnone h hfind hfind' hlinked (importBelow_sound _ _)
        fun hmem text tree hfetch htree dependency hdependency next next' hnext => ?_
      obtain ⟨hdistinct, hfetched⟩ := sourced_append hnodup hsources hmem hfetch
      refine ih hnext hdistinct ((Grows.refl start).linked hlinked hfetch htree hdependency) hfetched
        ?_ (length_le_size hdistinct hfetched)
      simp only [List.length_append, List.length_singleton]
      omega
    cases hfind : workspace.modules.find? url with
    | none =>
      cases hfind' : workspace'.modules.find? url with
      | none => exact hpending h hfind hfind'
      | some id =>
        exact (registered_verdict hsound hnone h.symm hfind' hnodup hsources hsteps
          fun base hbase hunregistered => hpending hbase hunregistered hfind).symm
    | some id =>
      cases hfind' : workspace'.modules.find? url with
      | none =>
        exact registered_verdict hsound hnone h hfind hnodup hsources hsteps
          fun base hbase hunregistered => hpending hbase hunregistered hfind'
      | some id' =>
        rw [importBelow_registered hfind, importBelow_registered hfind']
        exact .ok trivial

/-- Whatever two histories have imported, the next import has one verdict, and the module that it
registers exports the same. -/
theorem importModule_coincide (h : start.Leads workspace) (h' : start.Leads workspace')
    (url : String) :
    Coincide (fun _ next _ next' => ∃ module module', next.modules.getByUrl? url = some module ∧
        next'.modules.getByUrl? url = some module' ∧
        module.Matches (next.modules.SameClass next'.modules)
          (next.modules.SameModule next'.modules) module')
      (importModule url workspace) (importModule url workspace') := by
  have hworkspace := (h.sound hsound).1
  have hworkspace' := (h'.sound hsound).1
  have hverdict : SameVerdict (importModule url workspace) (importModule url workspace') := by
    refine Coincide.bind_get ?_
    rw [h.sources_eq hsound, h'.sources_eq hsound]
    exact importBelow_verdict hsound hnone _ ⟨h, h', ⟨hworkspace, nofun⟩, ⟨hworkspace', nofun⟩⟩
      List.nodup_nil (.singleton _) nofun (Nat.lt_succ_self _)
  refine (hverdict.and_yields (importModule_leads url hworkspace)
    (importModule_leads url hworkspace')).imp ?_
  rintro id next id' next' ⟨-, ⟨hleads, hfind⟩, hleads', hfind'⟩
  have hnext := (hleads.sound hworkspace).1
  have hnext' := (hleads'.sound hworkspace').1
  obtain ⟨module, -, hmodule⟩ := hnext.getByUrl?_of_find hfind
  obtain ⟨module', -, hmodule'⟩ := hnext'.getByUrl?_of_find hfind'
  exact ⟨module, module', hmodule, hmodule',
    ((h.trans hleads).consistent hsound hnone (h'.trans hleads')).modules hmodule hmodule'⟩

end

end Attire.Workspace
