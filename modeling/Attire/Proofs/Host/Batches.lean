import Attire.Proofs.Host.Dressing

namespace Attire

open Machine Workspace

/-! What batches do to what objects wear. -/

/-- The class that the step puts on an object. -/
def Step.grants? : Step → Option (Ref × ClassId)
  | .extend (.object ref) cls => some (ref, cls)
  | _ => none

/-- The class that the step takes off an object. -/
def Step.revokes? : Step → Option (Ref × ClassId)
  | .retract (.object ref) cls => some (ref, cls)
  | _ => none

/-- The step does not call a method. -/
def Step.Shapes : Step → Prop
  | .call .. => False
  | _ => True

/-- What an object wears after the batch: the batch puts on what the object does not wear yet, in
order, and then takes off classes, no matter where they come from. -/
def outfit (batch : List Step) (ref : Ref) (worn : List ClassId) : List ClassId :=
  (worn ++ ((turnsOf (batch.filterMap Step.grants?) ref).filter (· ∉ worn)).eraseDups).filter
    (· ∉ turnsOf (batch.filterMap Step.revokes?) ref)

section

variable {steps : Nat} {batch : List Step} {machine : Machine} {stamp : Nat}

theorem forM_turns {action : Step → Run PUnit} {turn? : Step → Option (Ref × ClassId)}
    {turn : Ref × ClassId → Run PUnit}
    (h : ∀ step, action step = (turn? step).elim (pure ⟨⟩) turn) (batch : List Step) :
    batch.forM action = (batch.filterMap turn?).forM turn := by
  induction batch with
  | nil => rfl
  | cons step rest ih =>
    show (action step >>= fun _ => rest.forM action) = _
    rw [h, ih]
    cases hturn : turn? step with
    | none =>
      rw [List.filterMap_cons_none hturn]
      rfl
    | some found =>
      rw [List.filterMap_cons_some hturn]
      rfl

theorem forM_grant (steps : Nat) (batch : List Step) : batch.forM (grant steps) =
    (batch.filterMap Step.grants?).forM fun turn => extend steps turn.1 turn.2 := by
  refine forM_turns (fun step => ?_) batch
  cases step with
  | extend target => cases target <;> rfl
  | retract | call => rfl

theorem forM_revoke (steps : Nat) (batch : List Step) : batch.forM (revoke steps) =
    (batch.filterMap Step.revokes?).forM fun turn => retract steps turn.1 turn.2 := by
  refine forM_turns (fun step => ?_) batch
  cases step with
  | retract target => cases target <;> rfl
  | extend | call => rfl

theorem forM_carryOut (hshapes : ∀ step ∈ batch, step.Shapes) (steps : Nat) :
    batch.forM (carryOut steps) = pure ⟨⟩ := by
  induction batch with
  | nil => rfl
  | cons step rest ih =>
    show (carryOut steps step >>= fun _ => rest.forM (carryOut steps)) = _
    rw [ih fun other hmem => hshapes other (List.mem_cons_of_mem _ hmem)]
    cases step with
    | call => exact (hshapes _ List.mem_cons_self).elim
    | extend | retract => rfl

/-- Without calls there are only two passes. -/
theorem enforce_shapes (hshapes : ∀ step ∈ batch, step.Shapes) (steps : Nat) :
    enforce (steps + 1) batch =
      (batch.forM (grant steps) >>= fun _ => batch.forM (revoke steps)) := by
  rw [enforce_succ, forM_carryOut hshapes]
  rfl

theorem knows_turn {step : Step} {turn : Ref × ClassId}
    (hbatch : machine.Knows (.suggestion stamp batch)) (hmem : step ∈ batch)
    (hturn : step.grants? = some turn ∨ step.revokes? = some turn) :
    machine.Knows (.object turn.1) := by
  have hwithin := Step.allWithin_iff.mp hbatch step hmem
  unfold Step.grants? Step.revokes? at hturn
  cases step with
  | call => simp at hturn
  | extend target | retract target =>
    cases target with
    | object =>
      simp only [Option.some.injEq, reduceCtorEq, or_false, false_or] at hturn
      obtain rfl := hturn
      exact hwithin.2
    | _ => simp at hturn

theorem knows_grants (hbatch : machine.Knows (.suggestion stamp batch)) :
    ∀ turn ∈ batch.filterMap Step.grants?, machine.Knows (.object turn.1) := by
  intro turn hturn
  obtain ⟨step, hmem, hstep⟩ := List.mem_filterMap.mp hturn
  exact knows_turn hbatch hmem (.inl hstep)

theorem knows_revokes (hbatch : machine.Knows (.suggestion stamp batch)) :
    ∀ turn ∈ batch.filterMap Step.revokes?, machine.Knows (.object turn.1) := by
  intro turn hturn
  obtain ⟨step, hmem, hstep⟩ := List.mem_filterMap.mp hturn
  exact knows_turn hbatch hmem (.inr hstep)

end

/-- The step puts a class on the object at the address, or takes one off it. -/
def Step.Targets (step : Step) (address : Nat) : Prop :=
  ∃ turn, (step.grants? = some turn ∨ step.revokes? = some turn) ∧ turn.1.address = address

/-- What a batch without calls does to what there was. -/
structure Machine.NetEffect (batch : List Step) (before after : Machine) : Prop where
  spares : before.Spares (fun address => ∃ step ∈ batch, step.Targets address) after
  fields : before.KeepsFields after
  object {ref : Ref} {object : Object} : before.Knows (.object ref) →
    before.heap.object? ref = some object → ∃ object', after.heap.object? ref = some object' ∧
      object'.worn = outfit batch ref object.worn ∧
      ∀ cls, cls ∈ object'.manifest ↔ ∃ start ∈ object'.worn, before.classes.Inherits start cls

namespace Workspace

variable {workspace : Workspace} {machine next : Machine} {ref : Ref} {cls : ClassId}
variable {steps stamp : Nat} {batch : List Step} {turns : List (Ref × ClassId)}

theorem Sound.yields_grants (h : Sound { workspace with machine })
    (hknows : ∀ turn ∈ turns, machine.Knows (.object turn.1)) (steps : Nat) :
    Yields (turns.forM fun turn => extend steps turn.1 turn.2) machine
      (fun _ next => workspace.Dresses (TouchedBy turns) (dressed donned turns) machine next)
      fun halt next => ∀ error, halt = .error error → ∃ done, done <+: turns ∧
        workspace.Dresses (TouchedBy turns) (dressed donned done) machine next :=
  yields_pass oneWay_donned (fun hsound href => hsound.extend_dresses href steps _) h hknows

theorem Sound.yields_revokes (h : Sound { workspace with machine })
    (hknows : ∀ turn ∈ turns, machine.Knows (.object turn.1)) (steps : Nat) :
    Yields (turns.forM fun turn => retract steps turn.1 turn.2) machine
      (fun _ next => workspace.Dresses (TouchedBy turns) (dressed doffed turns) machine next)
      fun halt next => ∀ error, halt = .error error → ∃ done, done <+: turns ∧
        workspace.Dresses (TouchedBy turns) (dressed doffed done) machine next := by
  refine yields_pass oneWay_doffed (fun hsound href => ?_) h hknows
  exact (hsound.retract_dresses href steps _).imp (fun _ _ hturn => hturn)
    fun _ _ herror error heq => ⟨_, List.prefix_rfl, herror error heq⟩

/-! A crest is put on a bird and taken off in one batch. -/

def moult (bird : Ref) : List Step := [.extend (.object bird) ⟨2⟩, .retract (.object bird) ⟨2⟩]

section

variable {bird : Ref} {object : Object} {crested last : Machine}

theorem contains_of_extend (hrun : extend steps ref cls machine = .ok ⟨⟩ next) :
    machine.classes.contains cls := by
  by_contra hcls
  cases steps with
  | zero => cases hrun
  | succ steps =>
    have hfails : Yields (extend (steps + 1) ref cls) machine (fun _ _ => False)
        fun _ _ => True := by
      rw [extend]
      refine yields_bind.mpr (yields_get.mpr ?_)
      rw [if_neg hcls]
      trivial
    exact hfails.of_ok hrun

theorem Moults.occurs_batch (h : Moults workspace bird object crested last) :
    workspace.Occurs (.enforce 21 (moult bird)) workspace.machine := by
  have hcls := contains_of_extend h.extended
  have hknows : workspace.machine.Knows
      (.suggestion workspace.machine.suggestions (moult bird)) :=
    ⟨⟨hcls, h.knows⟩, ⟨hcls, h.knows⟩, trivial⟩
  exact ⟨.enforce 21 (moult bird), 0, hknows, .itself⟩

theorem Moults.shapes (bird : Ref) : ∀ step ∈ moult bird, step.Shapes := by
  simp [moult, Step.Shapes]

theorem Moults.enforced (h : Moults workspace bird object crested last) :
    enforce 21 (moult bird) workspace.machine = .ok ⟨⟩ last := by
  rw [enforce_shapes (Moults.shapes bird), forM_grant, forM_revoke]
  have hextended : ([(bird, ⟨2⟩)].forM fun turn : Ref × ClassId => extend 20 turn.1 turn.2)
      workspace.machine = .ok ⟨⟩ crested := run_bind_ok h.extended
  exact (run_bind_ok hextended).trans (run_bind_ok h.retracted)

end

/-- All grants come before all revocations. -/
theorem Sound.yields_shapes (h : Sound { workspace with machine })
    (hgrants : ∀ turn ∈ batch.filterMap Step.grants?, machine.Knows (.object turn.1))
    (hrevokes : ∀ turn ∈ batch.filterMap Step.revokes?, machine.Knows (.object turn.1))
    (hshapes : ∀ step ∈ batch, step.Shapes) (steps : Nat) :
    Yields (enforce (steps + 1) batch) machine
      (fun _ after => workspace.Dresses (fun address => ∃ step ∈ batch, step.Targets address)
        (outfit batch) machine after)
      fun _ _ => True := by
  have htouched : ∀ {turn? : Step → Option (Ref × ClassId)}, (∀ step turn, turn? step = some turn →
      step.grants? = some turn ∨ step.revokes? = some turn) → ∀ address,
      TouchedBy (batch.filterMap turn?) address → ∃ step ∈ batch, step.Targets address := by
    rintro turn? hturn address ⟨turn, hmem, haddress⟩
    obtain ⟨step, hstep, heq⟩ := List.mem_filterMap.mp hmem
    exact ⟨step, hstep, turn, hturn step turn heq, haddress⟩
  have houtfit : outfit batch = fun ref worn =>
      dressed doffed (batch.filterMap Step.revokes?) ref
        (dressed donned (batch.filterMap Step.grants?) ref worn) := by
    funext ref worn
    rw [dressed_doffed, dressed_donned, outfit]
  rw [enforce_shapes hshapes, forM_grant, forM_revoke, houtfit]
  refine yields_bind.mpr ((h.yields_grants hgrants steps).imp ?_ fun _ _ _ => trivial)
  intro _ granted hgranted
  refine (hgranted.sound.yields_revokes (fun turn hmem => hgranted.knows (hrevokes turn hmem))
    steps).imp ?_ fun _ _ _ => trivial
  intro _ after hrevoked
  exact (hgranted.mono (htouched fun _ _ => .inl)).trans
    (hrevoked.mono (htouched fun _ _ => .inr)) h (.inl (subset_dressed subset_donned))

theorem Dresses.netEffect
    (h : workspace.Dresses (fun address => ∃ step ∈ batch, step.Targets address)
      (outfit batch) machine next) : machine.NetEffect batch next where
  spares := h.spares
  fields := h.keepsFields
  object {ref object} href hobject := by
    obtain ⟨object', hobject', hbecomes⟩ := h.object href hobject
    refine ⟨object', hobject', hbecomes.wears, fun cls => ?_⟩
    rw [h.manifest hobject']
    exact ClassRegistry.mem_manifest

/-- A batch without calls puts on all of its classes before it takes any off, so that what counts is
the order of its extensions and which retractions there are; that holds of a merged batch too. -/
theorem batch_nets {options : Options} {sources : Sources} (h : Reachable options sources workspace)
    (hoccurs : workspace.Occurs (.enforce (steps + 1) batch) machine)
    (hshapes : ∀ step ∈ batch, step.Shapes)
    (hrun : enforce (steps + 1) batch machine = .ok ⟨⟩ next) :
    machine.NetEffect batch next ∧
      (∀ more other last, (∀ step ∈ other, step.Shapes) →
        other.filterMap Step.grants? = batch.filterMap Step.grants? →
        (∀ turn, turn ∈ other.filterMap Step.revokes? ↔ turn ∈ batch.filterMap Step.revokes?) →
        enforce (more + 1) other machine = .ok ⟨⟩ last → ∀ ref, machine.Knows (.object ref) →
        (last.heap.object? ref).map Object.worn = (next.heap.object? ref).map Object.worn) ∧
      ∀ stamp stamp' first second,
        batch = mergeSteps (.suggestion stamp first) (.suggestion stamp' second) →
        enforce (steps + 1) batch =
          (first.forM (grant steps) >>= fun _ => second.forM (grant steps) >>= fun _ =>
            first.forM (revoke steps) >>= fun _ => second.forM (revoke steps)) := by
  obtain ⟨stage, hfits, hadmits⟩ := h.sound.allows_occurring hoccurs
  obtain ⟨hsound, hknows⟩ := h.sound.moment hfits
  have hbatch : machine.Knows (.suggestion 0 batch) :=
    hknows _ (Discipline.admits_suggestion.mpr hadmits)
  have hgrants := knows_grants hbatch
  have hrevokes := knows_revokes hbatch
  have hdresses := (hsound.yields_shapes hgrants hrevokes hshapes steps).of_ok hrun
  refine ⟨hdresses.netEffect, ?_, ?_⟩
  · intro more other last hshapes' hsame hsame' hrun' ref href
    have hdresses' := (hsound.yields_shapes (hsame ▸ hgrants)
      (fun turn hmem => hrevokes turn ((hsame' turn).mp hmem)) hshapes' more).of_ok hrun'
    have houtfit : ∀ worn, outfit other ref worn = outfit batch ref worn := by
      intro worn
      unfold outfit
      rw [hsame]
      refine List.filter_congr fun cls _ => ?_
      simp only [mem_turnsOf, hsame']
    obtain ⟨object, hobject⟩ := Heap.object?_of_names href
    obtain ⟨object', hobject', hbecomes⟩ := hdresses.object href hobject
    obtain ⟨object'', hobject'', hbecomes'⟩ := hdresses'.object href hobject
    rw [hobject', hobject'']
    exact congrArg some (hbecomes'.wears.trans ((houtfit _).trans hbecomes.wears.symm))
  · intro stamp stamp' first second hmerged
    have hsplit : ∀ action : Step → Run PUnit, batch.forM action =
        (first.forM action >>= fun _ => second.forM action) := by
      intro action
      have happend : batch = first ++ second := hmerged
      rw [happend]
      exact List.forM_append
    rw [enforce_shapes hshapes, hsplit, hsplit, bind_assoc]

/-- The die is not the bird. -/
theorem others_drawn : ¬∀ (workspace : Workspace) (steps : Nat) (batch : List Step)
    (machine next : Machine), Reachable {} flockSources workspace →
    workspace.Occurs (.enforce (steps + 1) batch) machine → (∀ step ∈ batch, step.Shapes) →
    enforce (steps + 1) batch machine = .ok ⟨⟩ next →
    ∀ (ref : Ref) (object : Object), (¬∃ step ∈ batch, step.Targets ref.address) →
      machine.heap.object? ref = some object → next.heap.object? ref = some object := by
  intro hclaim
  obtain ⟨workspace, bird, object, crested, last, h⟩ := bird_moults
  obtain ⟨die, hdie, htick⟩ := h.before
  obtain ⟨die', hdie', htick'⟩ := h.after
  have hother : ¬∃ step ∈ moult bird, step.Targets 1 := by
    rintro ⟨step, hmem, turn, hturn, haddress⟩
    have hbird : turn = (bird, ⟨2⟩) := by
      rcases List.mem_cons.mp hmem with rfl | hmem
      · simpa [Step.grants?, Step.revokes?, eq_comm] using hturn
      · obtain rfl := List.mem_singleton.mp hmem
        simpa [Step.grants?, Step.revokes?, eq_comm] using hturn
    rw [hbird, h.address] at haddress
    cases haddress
  have hsame := hclaim workspace 20 (moult bird) workspace.machine last h.reachable h.occurs_batch
    (Moults.shapes bird) h.enforced ⟨1, ⟨1⟩⟩ die hother hdie
  obtain rfl := Option.some.inj (hdie'.symm.trans hsame)
  rw [htick] at htick'
  cases htick'

theorem moult_nets : ∃ workspace bird object crested last,
    Moults workspace bird object crested last ∧
      enforce 21 (moult bird) workspace.machine = .ok ⟨⟩ last ∧
      workspace.machine.NetEffect (moult bird) last := by
  obtain ⟨workspace, bird, object, crested, last, h⟩ := bird_moults
  obtain ⟨heffect, -, -⟩ :=
    batch_nets h.reachable h.occurs_batch (Moults.shapes bird) h.enforced
  exact ⟨workspace, bird, object, crested, last, h, h.enforced, heffect⟩

end Workspace

end Attire
