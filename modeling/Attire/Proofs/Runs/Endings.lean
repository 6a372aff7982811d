import Attire.Proofs.Lowering.Containment
import Attire.Proofs.Runs.Rules

namespace Attire

open Machine

/-! Bodies whose breaks and continues are inside of loops end in nothing or in a return. -/

/-- The flow does not ask a loop for anything. -/
def Flow.Settled : Flow → Prop
  | .next | .return _ => True
  | .break | .continue => False

/-- A run that ends in an answer leaves no loop behind. -/
def Exec.Settles (run : Exec Flow) : Prop :=
  ∀ frame machine, Yields (run.run frame) machine (fun answer _ => answer.1.Settled) fun _ _ => True

namespace Exec

variable {α : Type} {run : Exec α}

theorem settles_pure {flow : Flow} (h : flow.Settled) : Settles (pure flow) :=
  fun _ _ => h

theorem settles_bind {next : α → Exec Flow} (h : ∀ answer, Settles (next answer)) :
    Settles (run >>= next) := by
  intro frame machine
  rw [StateT.run_bind]
  refine yields_bind.mpr ?_
  cases hrun : run.run frame machine with
  | ok answer after =>
    rw [Yields, hrun]
    exact h answer.1 answer.2 after
  | error halt after =>
    rw [Yields, hrun]
    trivial

theorem settles_bind_flow {run : Exec Flow} {next : Flow → Exec Flow} (hrun : run.Settles)
    (h : ∀ flow, flow.Settled → Settles (next flow)) : Settles (run >>= next) := by
  intro frame machine
  rw [StateT.run_bind]
  exact yields_bind.mpr ((hrun frame machine).imp (fun answer after hflow =>
    h answer.1 hflow answer.2 after) fun _ _ h => h)

theorem settles_exhausted : Settles (liftM (exhausted (α := Flow))) :=
  fun _ _ => trivial

end Exec

open Exec

/-- Loops take in whatever their bodies ask for. -/
theorem settles_repeatWhile (cond : Code) (body : List Instr) :
    ∀ steps, Settles (repeatWhile steps cond body)
  | 0 => settles_exhausted
  | steps + 1 => by
    unfold repeatWhile
    refine settles_bind fun answer => ?_
    split
    · refine settles_bind fun flow => ?_
      cases flow with
      | «break» | «return» => exact settles_pure trivial
      | next | «continue» => exact settles_repeatWhile cond body steps
    · exact settles_pure trivial

theorem settles_repeatFor (first : Nat) (second : Option Nat) (body : List Instr) :
    ∀ steps rounds, Settles (repeatFor steps first second body rounds)
  | 0, _ => settles_exhausted
  | steps + 1, [] => settles_pure trivial
  | steps + 1, (a, b) :: rest => by
    unfold repeatFor
    refine settles_bind fun _ => ?_
    extract_lets runRound
    have hround : Settles (runRound ⟨⟩) := settles_bind fun flow => by
      cases flow with
      | «break» | «return» => exact settles_pure trivial
      | next | «continue» => exact settles_repeatFor first second body steps rest
    split
    · exact settles_bind fun _ => hround
    · exact hround

mutual

theorem settles_exec : ∀ (steps : Nat) {instr : Instr}, instr.Contained →
    Settles (exec steps instr)
  | 0, _, _ => settles_exhausted
  | steps + 1, instr, h => by
    unfold exec
    cases instr with
    | eval => exact settles_bind fun _ => settles_pure trivial
    | store => exact settles_bind fun _ => settles_bind fun _ => settles_pure trivial
    | setField | append | remove =>
      exact settles_bind fun _ => settles_bind fun _ => settles_bind fun _ => settles_pure trivial
    | setIndex =>
      exact settles_bind fun _ => settles_bind fun _ => settles_bind fun _ =>
        settles_bind fun _ => settles_pure trivial
    | branch cond yes no =>
      refine settles_bind fun cond => ?_
      split
      · exact settles_execBlock steps h.1
      · exact settles_execBlock steps h.2
    | «while» cond body => exact settles_repeatWhile cond body steps
    | forEach source kind first second body =>
      exact settles_bind fun _ => settles_bind fun _ => settles_repeatFor first second body steps _
    | «break» | «continue» => exact h.elim
    | «return» => exact settles_bind fun _ => settles_pure trivial
    | extend | retract | enforce =>
      refine settles_bind fun target => ?_
      split
      · exact settles_bind fun _ => settles_pure trivial
      · exact settles_pure trivial
    | release => exact settles_bind fun _ => settles_pure trivial

theorem settles_execBlock : ∀ (steps : Nat) {body : List Instr}, Instr.AllContained body →
    Settles (execBlock steps body)
  | 0, _, _ => settles_exhausted
  | _ + 1, [], _ => settles_pure trivial
  | steps + 1, instr :: rest, h => by
    unfold execBlock
    refine settles_bind_flow (settles_exec steps h.1) fun flow hflow => ?_
    cases flow with
    | next => exact settles_execBlock steps h.2
    | _ => exact settles_pure hflow

end

end Attire
