import Attire.Proofs.Host.Batches

namespace Attire

open Machine Workspace

/-! What batches take back. -/

/-- The object does not wear the class. -/
def Machine.Sheds (machine : Machine) (ref : Ref) (cls : ClassId) : Prop :=
  ∃ object, machine.heap.object? ref = some object ∧ cls ∉ object.worn

namespace Workspace

variable {workspace : Workspace} {machine moment next : Machine} {ref : Ref} {cls : ClassId}
variable {steps stamp : Nat} {batch : List Step} {turns : List (Ref × ClassId)}

theorem Dresses.sheds {touched : Nat → Prop}
    (h : workspace.Dresses touched (dressed doffed turns) machine next)
    (href : machine.Knows (.object ref)) (hmem : (ref, cls) ∈ turns) : next.Sheds ref cls := by
  obtain ⟨object, hobject⟩ := Heap.object?_of_names href
  obtain ⟨object', hobject', hbecomes⟩ := h.object href hobject
  refine ⟨object', hobject', fun hworn => ?_⟩
  rw [hbecomes.wears, dressed_doffed] at hworn
  exact of_decide_eq_true (List.mem_filter.mp hworn).2 (mem_turnsOf.mpr hmem)

/-- A class stays off an object from where the object has its turn. -/
theorem Sound.yields_sheds (h : Sound { workspace with machine })
    (href : machine.Knows (.object ref)) (hknows : ∀ turn ∈ turns, machine.Knows (.object turn.1))
    (steps : Nat) (cls : ClassId) :
    Yields (((ref, cls) :: turns).forM fun turn => retract steps turn.1 turn.2) machine
      (fun _ next => next.Sheds ref cls)
      fun halt next => ∀ error, halt = .error error → next.Sheds ref cls := by
  refine yields_bind.mpr ((h.retract_dresses href steps cls).imp ?_ ?_)
  · intro _ moment hturn
    have hcomes : ∀ {done : List (Ref × ClassId)} {next : Machine},
        workspace.Dresses (TouchedBy turns) (dressed doffed done) moment next →
        next.Sheds ref cls := by
      intro done next hrest
      have hanywhere : workspace.Dresses (fun _ => True) (dressed doffed [(ref, cls)]) machine
          moment := hturn.mono fun _ _ => trivial
      exact (hanywhere.append (hrest.mono fun _ _ => trivial) oneWay_doffed h).sheds href
        List.mem_cons_self
    refine (hturn.sound.yields_revokes (fun turn hmem => hturn.knows (hknows turn hmem)) steps).imp
      ?_ ?_
    · exact fun _ _ hrest => hcomes hrest
    · intro halt next herror error heq
      obtain ⟨done, -, hrest⟩ := herror error heq
      exact hcomes hrest
  · exact fun _ _ herror error heq => (herror error heq).sheds href List.mem_cons_self

/-- In particular in the last pass over a batch. -/
theorem Sound.yields_sheds_after (h : Sound { workspace with machine })
    (hknows : ∀ turn ∈ batch.filterMap Step.revokes?, machine.Knows (.object turn.1))
    {done later : List Step} (hsplit : batch = done ++ .retract (.object ref) cls :: later)
    (hdone : done.forM (revoke steps) machine = .ok ⟨⟩ moment) :
    Yields (batch.forM (revoke steps)) machine (fun _ after => after.Sheds ref cls)
      fun halt after => ∀ error, halt = .error error → after.Sheds ref cls := by
  have hturns : batch.filterMap Step.revokes? =
      done.filterMap Step.revokes? ++ (ref, cls) :: later.filterMap Step.revokes? := by
    rw [hsplit, List.filterMap_append]
    rfl
  rw [hturns] at hknows
  obtain ⟨hbefore, hlater⟩ := List.forall_mem_append.mp hknows
  rw [forM_revoke] at hdone
  have hmoment := (h.yields_revokes hbefore steps).of_ok hdone
  have hknown : ∀ turn ∈ (ref, cls) :: later.filterMap Step.revokes?,
      moment.Knows (.object turn.1) := fun turn hmem => hmoment.knows (hlater turn hmem)
  rw [forM_revoke, hturns]
  unfold Yields
  rw [run_forM_append hdone]
  exact hmoment.sound.yields_sheds (hknown _ List.mem_cons_self)
    (fun turn hmem => hknown turn (List.mem_cons_of_mem _ hmem)) steps cls

/-- The passes before the last one keep machines sound. -/
theorem Sound.keeps_before_revoke (h : workspace.Sound)
    (hbatch : workspace.machine.Knows (.suggestion stamp batch)) (steps : Nat) :
    workspace.Keeps (batch.forM (grant steps) >>= fun _ => batch.forM (carryOut steps)) := by
  have hadmits : ∀ step ∈ batch, h.full.discipline.AdmitsStep workspace.stage step :=
    Discipline.admits_suggestion.mp hbatch
  have hkeeps := h.full.discipline.keeps steps
  have hsafe := Regime.Safe.bind (Discipline.Keeps.pass (hkeeps.grant trivial) h.full_fits hadmits)
    fun _ _ _ hle hfits _ => Discipline.Keeps.pass (hkeeps.carryOut trivial) hfits
      fun step hmem => (hadmits step hmem).mono hle
  exact h.keeps hsafe.lenient

/-- Where a retraction has begun, the class is off the object when the batch ends, with an error or
without. -/
theorem Sound.yields_enforce_sheds (h : Sound { workspace with machine })
    (hbatch : machine.Knows (.suggestion stamp batch)) (hstep : .retract (.object ref) cls ∈ batch)
    (steps : Nat) :
    Yields (enforce steps batch) machine (fun _ after => after.Sheds ref cls)
      fun halt after => ∀ error, halt = .error error → ∀ rest moment,
        (Activity.enforce steps batch).Begins machine (.retract rest ref cls) moment →
        after.Sheds ref cls := by
  cases steps with
  | zero =>
    rw [enforce]
    rintro error ⟨⟩
  | succ steps =>
    rw [enforce_succ, ← bind_assoc]
    refine yields_bind.mpr ((h.keeps_before_revoke hbatch steps).result.imp ?_ ?_)
    · rintro _ called ⟨hreplaces, hcalled⟩
      have hsound : Sound { workspace with machine := called } := hreplaces.sound_workspace h
      have hknows : ∀ turn ∈ batch.filterMap Step.revokes?, called.Knows (.object turn.1) :=
        fun turn hmem => hreplaces.knows (knows_revokes hbatch turn hmem)
      have hturn : (ref, cls) ∈ batch.filterMap Step.revokes? :=
        List.mem_filterMap.mpr ⟨_, hstep, rfl⟩
      have hpass := hsound.yields_revokes hknows steps
      rw [← forM_revoke] at hpass
      refine hpass.result.imp ?_ ?_
      · rintro _ after ⟨hdresses, -⟩
        exact hdresses.sheds (hknows _ hturn) hturn
      · rintro halt after ⟨-, hrun⟩ error heq rest moment hbegins
        cases hbegins with
        | @revoked _ _ done later _ _ _ granted called' _ hsplit hgrant hcarry hdone =>
          -- The turns before this one ran through, so that the error is one of this or a later turn.
          obtain rfl : called = called' := by
            have hsame := hcalled.symm.trans ((run_bind_ok hgrant).trans hcarry)
            cases hsame
            rfl
          exact (hsound.yields_sheds_after hknows hsplit hdone).of_error hrun error heq
    · rintro halt after ⟨-, hrun⟩ error heq rest moment hbegins
      cases hbegins with
      | revoked hsplit hgrant hcarry _ =>
        rw [run_bind_ok hgrant, hcarry] at hrun
        cases hrun

/-- The batch is at some point of its first pass, and has not put the class on the object. -/
structure Ungranted (workspace : Workspace) (steps : Nat) (batch : List Step) (ref : Ref)
    (cls : ClassId) (machine : Machine) (rest : List Step) (moment : Machine) : Prop where
  done : ∃ done, batch = done ++ rest ∧ done.forM (grant steps) machine = .ok ⟨⟩ moment ∧
    .extend (.object ref) cls ∉ done
  sound : Sound { workspace with machine := moment }
  knows {value : Value} : machine.Knows value → moment.Knows value
  sheds : moment.Sheds ref cls

theorem Dresses.still_sheds {touched : Nat → Prop}
    (h : workspace.Dresses touched (dressed donned turns) machine next)
    (href : machine.Knows (.object ref)) (hsheds : machine.Sheds ref cls)
    (hmem : (ref, cls) ∉ turns) : next.Sheds ref cls := by
  obtain ⟨object, hobject, hworn⟩ := hsheds
  obtain ⟨object', hobject', hbecomes⟩ := h.object href hobject
  refine ⟨object', hobject', fun hworn' => ?_⟩
  rw [hbecomes.wears, dressed_donned] at hworn'
  rcases List.mem_append.mp hworn' with hworn' | hworn'
  · exact hworn hworn'
  · rw [List.mem_eraseDups] at hworn'
    exact hmem (mem_turnsOf.mp (List.mem_filter.mp hworn').1)

/-- A step of the first pass that is another one neither puts the class on the object. -/
theorem Ungranted.proceeds {step : Step} {rest : List Step}
    (h : workspace.Ungranted steps batch ref cls machine (step :: rest) moment)
    (hbatch : machine.Knows (.suggestion stamp batch)) (href : machine.Knows (.object ref))
    (hother : step ≠ .extend (.object ref) cls) :
    Yields (grant steps step) moment
      (fun _ next => workspace.Ungranted steps batch ref cls machine rest next)
      fun halt next => ∀ error, halt = .error error → next.Sheds ref cls := by
  obtain ⟨done, hsplit, hdone, hnone⟩ := h.done
  have hcontinues : ∀ {next : Machine}, grant steps step moment = .ok ⟨⟩ next →
      ∃ done', batch = done' ++ rest ∧ done'.forM (grant steps) machine = .ok ⟨⟩ next ∧
        .extend (.object ref) cls ∉ done' := by
    intro next hrun
    refine ⟨done ++ [step], by rw [hsplit, List.append_assoc]; rfl,
      (run_forM_append hdone).trans (run_bind_ok hrun), fun hmem => ?_⟩
    rcases List.mem_append.mp hmem with hmem | hmem
    · exact hnone hmem
    · exact hother (List.mem_singleton.mp hmem).symm
  cases hturn : step.grants? with
  | none =>
    have hskips : grant steps step = pure ⟨⟩ := by
      cases step with
      | extend target =>
        cases target with
        | object => cases hturn
        | _ => rfl
      | retract | call => rfl
    rw [hskips]
    exact ⟨hcontinues (by rw [hskips]; rfl), h.sound, h.knows, h.sheds⟩
  | some turn =>
    obtain ⟨target, other⟩ := turn
    have hknown : moment.Knows (.object target) :=
      h.knows (knows_turn hbatch (by simp [hsplit]) (.inl hturn))
    obtain rfl : step = .extend (.object target) other := by
      cases step with
      | extend value => cases value <;> simp_all [Step.grants?]
      | retract | call => cases hturn
    have hnot : (ref, cls) ∉ [(target, other)] := by
      intro hmem
      cases List.mem_singleton.mp hmem
      exact hother rfl
    refine (h.sound.extend_dresses hknown steps other).result.imp ?_ ?_
    · rintro _ next ⟨hdresses, hrun⟩
      exact ⟨hcontinues hrun, hdresses.sound, fun hvalue => hdresses.knows (h.knows hvalue),
        hdresses.still_sheds (h.knows href) h.sheds hnot⟩
    · rintro halt next ⟨herror, -⟩ error heq
      obtain ⟨done', hbefore, hdresses⟩ := herror error heq
      exact hdresses.still_sheds (h.knows href) h.sheds fun hmem => hnot (hbefore.subset hmem)

/-- Where an extension has not even begun, the batch has failed before that, and the class is not on
the object. -/
theorem Sound.yields_ungranted (h : Sound { workspace with machine })
    (hbatch : machine.Knows (.suggestion stamp batch)) (hstep : .extend (.object ref) cls ∈ batch)
    (hsheds : machine.Sheds ref cls) (steps : Nat)
    (hnever : ¬∃ rest moment,
      (Activity.enforce steps batch).Begins machine (.extend rest ref cls) moment) :
    Yields (enforce steps batch) machine (fun _ _ => False)
      fun halt after => ∀ error, halt = .error error → after.Sheds ref cls := by
  cases steps with
  | zero =>
    rw [enforce]
    rintro error ⟨⟩
  | succ steps =>
    have href : machine.Knows (.object ref) := knows_turn hbatch hstep (.inl rfl)
    have hstart : workspace.Ungranted steps batch ref cls machine batch machine :=
      ⟨⟨[], rfl, rfl, List.not_mem_nil⟩, h, id, hsheds⟩
    have hpass : Yields (batch.forM (grant steps)) machine
        (fun _ next => workspace.Ungranted steps batch ref cls machine [] next)
        fun halt next => ∀ error, halt = .error error → next.Sheds ref cls := by
      refine Yields.forM hstart fun step rest moment hmoment =>
        hmoment.proceeds hbatch href ?_
      rintro rfl
      obtain ⟨done, hsplit, hdone, -⟩ := hmoment.done
      exact hnever ⟨steps, moment, .granted hsplit hdone⟩
    rw [enforce_succ]
    refine yields_bind.mpr (hpass.imp ?_ fun _ _ herror => herror)
    intro _ next hnext
    obtain ⟨done, hsplit, -, hnone⟩ := hnext.done
    rw [hsplit, List.append_nil] at hstep
    exact absurd hstep hnone

/-- A batch takes back what it has granted, whatever it has granted and called meanwhile, unless it
fails after the extension has begun and before the retraction has. -/
theorem batch_takes_back {options : Options} {sources : Sources}
    (h : Reachable options sources workspace)
    (hoccurs : workspace.Occurs (.enforce steps batch) machine)
    (hgrant : .extend (.object ref) cls ∈ batch) (hrevoke : .retract (.object ref) cls ∈ batch)
    (hnew : machine.Sheds ref cls) :
    Yields (enforce steps batch) machine (fun _ after => after.Sheds ref cls)
      fun halt after => ∀ error, halt = .error error →
        ((∃ rest moment,
            (Activity.enforce steps batch).Begins machine (.extend rest ref cls) moment) →
          ∃ rest moment,
            (Activity.enforce steps batch).Begins machine (.retract rest ref cls) moment) →
        after.Sheds ref cls := by
  obtain ⟨stage, hfits, hadmits⟩ := h.sound.allows_occurring hoccurs
  obtain ⟨hsound, hknows⟩ := h.sound.moment hfits
  have hbatch : machine.Knows (.suggestion 0 batch) :=
    hknows _ (Discipline.admits_suggestion.mpr hadmits)
  refine (hsound.yields_enforce_sheds hbatch hrevoke steps).result.imp ?_ ?_
  · rintro _ after ⟨hsheds, -⟩
    exact hsheds
  · rintro halt after ⟨herror, hrun⟩ error heq hbegun
    by_cases hgranted : ∃ rest moment,
        (Activity.enforce steps batch).Begins machine (.extend rest ref cls) moment
    · obtain ⟨rest, moment, hrevoked⟩ := hbegun hgranted
      exact herror error heq rest moment hrevoked
    · exact (hsound.yields_ungranted hbatch hgrant hnew steps hgranted).of_error hrun error heq

theorem moult_taken_back : ∃ workspace bird object crested last,
    Moults workspace bird object crested last ∧
      enforce 21 (moult bird) workspace.machine = .ok ⟨⟩ last ∧ last.Sheds bird ⟨2⟩ := by
  obtain ⟨workspace, bird, object, crested, last, h⟩ := bird_moults
  have hgrant : Step.extend (.object bird) ⟨2⟩ ∈ moult bird := List.mem_cons_self
  have hrevoke : Step.retract (.object bird) ⟨2⟩ ∈ moult bird :=
    List.mem_cons_of_mem _ List.mem_cons_self
  have hnew : workspace.machine.Sheds bird ⟨2⟩ := by
    refine ⟨object, h.made, ?_⟩
    rw [h.worn]
    decide
  have hsheds := batch_takes_back h.reachable h.occurs_batch hgrant hrevoke hnew
  exact ⟨workspace, bird, object, crested, last, h, h.enforced, hsheds.of_ok h.enforced⟩

end Workspace

end Attire
