import Attire.Proofs.Runs.Reading
import Attire.Proofs.Runs.Steps

namespace Attire

open Machine

/-! Programs that come to the same, but for the slots that they use besides those of variables. -/

variable {α : Type}

namespace Frame

/-- The frames are alike but for these slots. -/
structure AgreesOff (slots : List Nat) (frame other : Frame) : Prop where
  this : frame.this = other.this
  caller : frame.caller = other.caller
  get : ∀ slot ∉ slots, frame.get slot = other.get slot

variable {frame other : Frame} {slots : List Nat} {slot : Nat} {value : Value}

theorem get_set_self (h : slot < frame.slots.size) : (frame.set slot value).get slot = value := by
  simp [get, set, h]

theorem get_set_of_ne {read : Nat} (h : read ≠ slot) :
    (frame.set slot value).get read = frame.get read := by
  simp [get, set, Array.getElem?_setIfInBounds_ne h.symm]

@[simp] theorem size_set : (frame.set slot value).slots.size = frame.slots.size := by
  simp [set]

theorem Agrees.set (h : frame.Agrees slots other) (hslot : slot ∉ slots) :
    frame.Agrees slots (other.set slot value) where
  this := h.this
  caller := h.caller
  get read hmem := by
    rw [h.get read hmem, get_set_of_ne]
    rintro rfl
    exact hslot hmem

namespace AgreesOff

theorem symm (h : frame.AgreesOff slots other) : other.AgreesOff slots frame :=
  ⟨h.this.symm, h.caller.symm, fun slot hslot => (h.get slot hslot).symm⟩

theorem set (h : frame.AgreesOff slots other) (hslot : slot ∈ slots) :
    frame.AgreesOff slots (other.set slot value) where
  this := h.this
  caller := h.caller
  get read hread := by
    rw [h.get read hread, get_set_of_ne]
    rintro rfl
    exact hread hslot

theorem set_left (h : frame.AgreesOff slots other) (hslot : slot ∈ slots) :
    (frame.set slot value).AgreesOff slots other :=
  (h.symm.set hslot).symm

theorem agrees {reads : List Nat} (h : frame.AgreesOff slots other)
    (hreads : ∀ slot ∈ slots, slot ∉ reads) : frame.Agrees reads other :=
  ⟨h.this, h.caller, fun slot hmem => h.get slot fun hslot => hreads slot hslot hmem⟩

end AgreesOff

/-- A routine runs in frames with as many slots as it has. -/
theorem slots_le_ofRoutine (routine : Routine) (this caller : Value) (args : List Value) :
    routine.slots ≤ (ofRoutine routine this caller args).slots.size := by
  simp only [ofRoutine, List.size_toArray, List.length_append, List.length_replicate]
  omega

end Frame

/-- How a run in a frame ends.  An error leaves no frame behind. -/
abbrev Ending := EStateM.Result Halt Machine (Flow × Frame)

/-- The endings are the same, but for these slots of the frame. -/
inductive Ending.AgreesOff (slots : List Nat) : Ending → Ending → Prop
  | ok {flow : Flow} {frame other : Frame} {machine : Machine} :
      frame.AgreesOff slots other →
      AgreesOff slots (.ok (flow, frame) machine) (.ok (flow, other) machine)
  | error {halt : Halt} {machine : Machine} :
      AgreesOff slots (.error halt machine) (.error halt machine)

theorem Ending.AgreesOff.symm {slots : List Nat} {ending other : Ending}
    (h : ending.AgreesOff slots other) : other.AgreesOff slots ending := by
  cases h with
  | ok h => exact .ok h.symm
  | error => exact .error

/-- With enough steps the program ends so, and not for want of steps. -/
def ComesTo (program : List Instr) (frame : Frame) (machine : Machine) (ending : Ending) : Prop :=
  (∀ after, ending ≠ .error .exhausted after) ∧
    ∃ steps, (execBlock steps program).run frame machine = ending

/-- In frames that are alike but for these slots, the programs end alike but for these slots, and one
of them ends whenever the other does.  The first one runs in frames of `count` slots at least; those
of the second one have the slots `fresh`. -/
def Interchangeable (count : Nat) (own fresh : List Nat) (program other : List Instr) : Prop :=
  ∀ (frame frame' : Frame) (machine : Machine), frame.AgreesOff (own ++ fresh) frame' →
    count ≤ frame.slots.size → (∀ slot ∈ fresh, slot < frame'.slots.size) →
      (∀ ending, ComesTo program frame machine ending →
        ∃ ending', ComesTo other frame' machine ending' ∧ ending.AgreesOff (own ++ fresh) ending') ∧
      ∀ ending', ComesTo other frame' machine ending' →
        ∃ ending, ComesTo program frame machine ending ∧ ending.AgreesOff (own ++ fresh) ending'

/-- A program ends as another one does that runs the same in the machine. -/
theorem ComesTo.transfer {program other : List Instr} {frame frame' : Frame} {machine : Machine}
    {ending : Ending} {slots : List Nat} {run run' : Nat → Run α} {after after' : α → Frame}
    {extra extra' more : Nat}
    (hrun : ∀ steps, (execBlock (steps + extra) program).run frame =
      run steps >>= fun answer => pure (.next, after answer))
    (hrun' : ∀ steps, (execBlock (steps + extra') other).run frame' =
      run' steps >>= fun answer => pure (.next, after' answer))
    (hmore : ∀ steps, Refines (run steps) (run' (steps + more)))
    (hafter : ∀ answer, (after answer).AgreesOff slots (after' answer))
    (h : ComesTo program frame machine ending) :
    ∃ ending', ComesTo other frame' machine ending' ∧ ending.AgreesOff slots ending' := by
  obtain ⟨hends, steps, rfl⟩ := h
  -- More steps change nothing, so that there are as many as `hrun` asks for.
  have hextra := execBlock_refines (Nat.le_add_right steps extra) program frame machine
  replace hextra := hextra.resolve_left fun ⟨after, h⟩ => hends after h
  rw [hextra] at hends ⊢
  have hother := congrFun (hrun' (steps + more)) machine
  simp only [hrun, Bind.bind, EStateM.bind] at hends hother ⊢
  rcases hmore steps machine with ⟨last, h⟩ | h
  · rw [h] at hends
    exact absurd rfl (hends last)
  · rw [h] at hends ⊢
    cases hcases : run' (steps + more) machine with
    | ok answer last =>
      rw [hcases] at hother
      exact ⟨.ok (.next, after' answer) last, ⟨nofun, _, hother⟩, .ok (hafter answer)⟩
    | error halt last =>
      rw [hcases] at hends hother
      exact ⟨_, ⟨hends, _, hother⟩, .error⟩

theorem Interchangeable.of_runs {count : Nat} {own fresh : List Nat} {program other : List Instr}
    (run run' : Frame → Nat → Run α) (after after' : Frame → α → Frame) {extra extra' : Nat}
    (more more' : Nat)
    (hrun : ∀ frame, count ≤ frame.slots.size → ∀ steps,
      (execBlock (steps + extra) program).run frame =
        run frame steps >>= fun answer => pure (.next, after frame answer))
    (hrun' : ∀ frame frame', frame.AgreesOff (own ++ fresh) frame' →
      (∀ slot ∈ fresh, slot < frame'.slots.size) → ∀ steps,
        (execBlock (steps + extra') other).run frame' =
          run' frame steps >>= fun answer => pure (.next, after' frame' answer))
    (hmore : ∀ frame steps, Refines (run frame steps) (run' frame (steps + more)))
    (hmore' : ∀ frame steps, Refines (run' frame steps) (run frame (steps + more')))
    (hafter : ∀ frame frame', frame.AgreesOff (own ++ fresh) frame' → ∀ answer,
      (after frame answer).AgreesOff (own ++ fresh) (after' frame' answer)) :
    Interchangeable count own fresh program other := by
  intro frame frame' machine hagrees hcount hfresh
  have hleft := hrun frame hcount
  have hright := hrun' frame frame' hagrees hfresh
  have hframes := hafter frame frame' hagrees
  refine ⟨fun ending h => h.transfer hleft hright (hmore frame) hframes, fun ending' h => ?_⟩
  obtain ⟨ending, hends, hending⟩ :=
    h.transfer hright hleft (hmore' frame) fun answer => (hframes answer).symm
  exact ⟨ending, hends, hending.symm⟩

end Attire
