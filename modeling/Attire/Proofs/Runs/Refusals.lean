import Attire.Proofs.Runs.Activities
import Attire.Proofs.Snapshot.Numbering

namespace Attire

open Machine

/-! A call is refused if as many calls are nested already as are allowed.  The error comes up from it
through all that takes place around it. -/

/-- The run only ends in the error for a reason. -/
def Machine.Blames {α : Type} (limit : Nat) (reason : Prop) (run : Run α) (machine : Machine) :
    Prop :=
  Yields run machine (fun _ _ => True) fun halt _ =>
    halt = .error (.callDepthExceeded limit) → reason

namespace Machine

variable {α β γ : Type} {limit : Nat} {reason : Prop} {machine after : Machine} {run : Run α}
variable {frame : Frame}

/-! Rules for the reasons of an error. -/

theorem blames_fail {error : RuntimeError} (h : error ≠ .callDepthExceeded limit) :
    Blames limit reason (fail error : Run α) machine := by
  rintro ⟨⟩
  exact absurd rfl h

theorem blames_exhausted : Blames limit reason (exhausted : Run α) machine := by
  rintro ⟨⟩

theorem blames_get {next : Machine → Run α} (h : Blames limit reason (next machine) machine) :
    Blames limit reason (get >>= next) machine := h

theorem blames_machine {next : Machine → Exec α}
    (h : Blames limit reason ((next machine).run frame) machine) :
    Blames limit reason ((getThe Machine >>= next).run frame) machine := h

theorem blames_currentHeap {next : Heap → Exec α}
    (h : Blames limit reason ((next machine.heap).run frame) machine) :
    Blames limit reason ((currentHeap >>= next).run frame) machine := h

theorem blames_frame {next : Frame → Exec α}
    (h : Blames limit reason ((next frame).run frame) machine) :
    Blames limit reason ((get >>= next).run frame) machine := h

theorem Blames.bind {next : α → Run β} (h : Blames limit reason run machine)
    (hnext : ∀ answer after, run machine = .ok answer after →
      Blames limit reason (next answer) after) :
    Blames limit reason (run >>= next) machine :=
  yields_bind.mpr (h.result.imp (fun answer after hanswer => hnext answer after hanswer.2)
    fun _ _ herror => herror.1)

theorem Blames.discard (h : Blames limit reason run machine) :
    Blames limit reason (discard run) machine :=
  yields_map.mpr (h.imp (fun _ _ _ => trivial) fun _ _ h => h)

theorem Blames.lift (h : Blames limit reason run machine) :
    Blames limit reason ((liftM run : Exec α).run frame) machine :=
  h.bind fun _ _ _ => trivial

theorem run_liftM_bind (run : Run α) (next : α → Exec β) (frame : Frame) :
    (liftM run >>= next : Exec β).run frame = run >>= fun answer => (next answer).run frame := by
  rw [StateT.run_bind]
  exact bind_assoc run _ _

theorem Blames.bind_lift {next : α → Exec β} (h : Blames limit reason run machine)
    (hnext : ∀ answer after, run machine = .ok answer after →
      Blames limit reason ((next answer).run frame) after) :
    Blames limit reason ((liftM run >>= next : Exec β).run frame) machine := by
  rw [run_liftM_bind]
  exact h.bind hnext

theorem blames_nested {run : Exec α}
    (h : Blames limit reason (run.run frame) { machine with depth := machine.depth + 1 }) :
    Blames limit reason (nested (run.run' frame)) machine := by
  have hrun' : Blames limit reason (run.run' frame) { machine with depth := machine.depth + 1 } :=
    yields_map.mpr (h.imp (fun _ _ _ => trivial) fun _ _ h => h)
  unfold Blames Yields nested at *
  cases hrun : run.run' frame { machine with depth := machine.depth + 1 } with
  | ok flow after => trivial
  | error halt after =>
    rw [hrun] at hrun'
    exact hrun'

theorem blames_release (slots : List Nat) (frame : Frame) (machine : Machine) :
    Blames limit reason ((slots.forM fun slot => setSlot slot .null : Exec PUnit).run frame)
      machine := by
  induction slots generalizing frame with
  | nil => trivial
  | cons slot rest ih => exact ih (frame.set slot .null)

/-! Loops, of which some rounds are done. -/

theorem mapM_cons_ok {action : γ → Exec β} {item : γ} {rest : List γ} {answer : β}
    {answers : List β} {frame frame' frame'' : Frame} {machine machine' machine'' : Machine}
    (hitem : (action item).run frame machine = .ok (answer, frame') machine')
    (hrest : (rest.mapM action).run frame' machine' = .ok (answers, frame'') machine'') :
    ((item :: rest).mapM action).run frame machine =
      .ok (answer :: answers, frame'') machine'' := by
  rw [List.mapM_cons]
  exact (run_bind_ok hitem).trans (run_bind_ok hrest)

theorem Blames.mapM {action : γ → Exec β} {items : List γ}
    (h : ∀ done item rest answers frame' after, items = done ++ item :: rest →
      (done.mapM action).run frame machine = .ok (answers, frame') after →
      Blames limit reason ((action item).run frame') after) :
    Blames limit reason ((items.mapM action).run frame) machine := by
  induction items generalizing frame machine with
  | nil => exact trivial
  | cons item rest ih =>
    rw [List.mapM_cons]
    refine (h [] item rest [] frame machine rfl rfl).bind fun answer after hitem => ?_
    refine Blames.bind (ih fun done other rest answers frame' last heq hdone => ?_)
      fun _ _ _ => trivial
    exact h (item :: done) other rest _ frame' last (by rw [heq]; rfl) (mapM_cons_ok hitem hdone)

theorem Blames.forM {action : γ → Run PUnit} {items : List γ}
    (h : ∀ done item rest after, items = done ++ item :: rest →
      done.forM action machine = .ok ⟨⟩ after → Blames limit reason (action item) after) :
    Blames limit reason (items.forM action) machine := by
  induction items generalizing machine with
  | nil => exact trivial
  | cons item rest ih =>
    refine (h [] item rest machine rfl rfl).bind fun _ after hitem => ?_
    refine ih fun done other rest last heq hdone => ?_
    exact h (item :: done) other rest last (by rw [heq]; rfl) ((run_bind_ok hitem).trans hdone)

/-! What calls nothing is not to blame. -/

mutual

theorem blames_defaultValue (constructed : Bool) :
    ∀ (ty : Ty) (machine : Machine), Blames limit reason (defaultValue constructed ty) machine
  | .num, _ | .text, _ | .bool, _ | .void, _ | .null, _ | .object _, _ | .method .., _ => trivial
  | .suggestion, _ => trivial
  | .tuple elements, machine =>
    (blames_defaultValues constructed elements machine).bind fun _ _ _ => trivial
  | .array _, _ | .map _ _, _ | .set _, _ => by cases constructed <;> trivial

theorem blames_defaultValues (constructed : Bool) :
    ∀ (types : List Ty) (machine : Machine),
      Blames limit reason (defaultValues constructed types) machine
  | [], _ => trivial
  | ty :: rest, machine => (blames_defaultValue constructed ty machine).bind fun _ after _ =>
    (blames_defaultValues constructed rest after).bind fun _ _ _ => trivial

end

theorem blames_cloneValue (value : Value) : Blames limit reason (cloneValue value) machine := by
  refine blames_get ?_
  split
  case h_5 => trivial
  all_goals
    dsimp only
    split <;> trivial

theorem blames_classRoutine? (cls : ClassId) (slot : MethodSlot) :
    Blames limit reason (classRoutine? cls slot) machine := trivial

theorem blames_installManifest (ref : Ref) : Blames limit reason (installManifest ref) machine :=
  (installManifest_tallies ref machine).imp (fun _ _ _ => trivial) fun _ _ hfalse => hfalse.elim

theorem snapshot_ne_callDepthExceeded (content : SnapshotFault) (limit : Nat) :
    RuntimeError.snapshot content ≠ .callDepthExceeded limit := nofun

/-- A faulty snapshot is another error. -/
def faults : Account Ledger.World where
  fits _ _ := True
  fault error := ∀ limit, error ≠ .callDepthExceeded limit
  faulty := snapshot_ne_callDepthExceeded
  congr _ _ := trivial

theorem blames_of_faults {post : Ledger.World → Machine → α → Prop}
    (h : faults.Safe .only run machine post) : Blames limit reason run machine :=
  h.imp (fun _ _ _ => trivial) fun _ _ herror heq => absurd rfl ((herror _ heq).1 limit)

end Machine

namespace Activity

/-- The activity is a call that is refused. -/
def Refused (limit : Nat) : Activity → Machine → Prop
  | invoke .., machine => machine.callLimit = limit ∧ limit ≤ machine.depth
  | _, _ => False

def Exceeds (activity : Activity) (limit : Nat) (machine : Machine) : Prop :=
  ∃ after, activity.run machine = .error (.error (.callDepthExceeded limit)) after

/-- The activity is refused itself, or something that it begins ends in such an error. -/
def Suffers (activity : Activity) (limit : Nat) (machine : Machine) : Prop :=
  activity.Refused limit machine ∨
    ∃ part start, activity.Begins machine part start ∧ part.Exceeds limit start

variable {activity part : Activity} {limit steps : Nat} {machine start : Machine} {frame : Frame}

/-- The error of a part is an error of the activity. -/
theorem Begins.blames {α : Type} {run : Run α} (h : activity.Begins machine part start)
    (hpart : part.run = discard run) : Blames limit (activity.Suffers limit machine) run start := by
  unfold Blames Yields
  cases hrun : run start with
  | ok answer after => trivial
  | error halt after =>
    rintro rfl
    refine .inr ⟨part, start, h, after, ?_⟩
    rw [hpart]
    show EStateM.map (Function.const α PUnit.unit) run start = _
    simp only [EStateM.map, hrun]

/-- The codes are evaluated next, in the course of the activity. -/
def Awaits (activity : Activity) (machine : Machine) (steps : Nat) (codes : List Code)
    (frame : Frame) (current : Machine) : Prop :=
  ∀ {done rest : List Code} {operand : Code} {values : List Value} {frame' : Frame}
    {after : Machine}, codes = done ++ operand :: rest →
    (done.mapM (Machine.eval steps)).run frame current = .ok (values, frame') after →
    activity.Begins machine (eval steps operand frame') after

namespace Awaits

variable {code : Code} {codes : List Code} {current : Machine} {α : Type}

theorem all (h : activity.Awaits machine steps codes frame current) :
    Blames limit (activity.Suffers limit machine) ((codes.mapM (Machine.eval steps)).run frame)
      current :=
  .mapM fun _ _ _ _ _ _ heq hdone => (h heq hdone).blames rfl

theorem bind {next : Value → Exec α}
    (h : activity.Awaits machine steps (code :: codes) frame current)
    (hnext : ∀ value frame' after,
      (Machine.eval steps code).run frame current = .ok (value, frame') after →
      activity.Awaits machine steps codes frame' after →
      Blames limit (activity.Suffers limit machine) ((next value).run frame') after) :
    Blames limit (activity.Suffers limit machine) ((Machine.eval steps code >>= next).run frame)
      current := by
  refine ((h (List.nil_append _).symm rfl).blames rfl).bind fun answer after hcode => ?_
  refine hnext answer.1 answer.2 after hcode fun heq hdone => ?_
  exact h (congrArg (code :: ·) heq) (mapM_cons_ok hcode hdone)

end Awaits

/-! A run that ends in the error is refused, or it begins what ends in the error.  Its own steps
between its parts never end in it. -/

theorem suffers_eval (steps : Nat) (code : Code) (frame : Frame) (machine : Machine) :
    Blames limit ((eval steps code frame).Suffers limit machine)
      ((Machine.eval steps code).run frame) machine := by
  cases steps with
  | zero => exact blames_exhausted.lift
  | succ steps =>
    have hoperands : (eval (steps + 1) code frame).Awaits machine steps code.operands frame
      machine := .operand
    cases code <;> unfold Machine.eval
    case num | text | bool | null | const | «local» | this | caller => trivial
    case «default» ty constructed => exact (blames_defaultValue constructed ty machine).lift
    case tee slot operand => exact hoperands.bind fun _ _ _ _ _ => trivial
    case getField object key ty =>
      refine hoperands.bind fun target frame' after _ _ => blames_currentHeap ?_
      split
      · trivial
      · exact (blames_defaultValue false ty after).lift
    case index object kind index ty =>
      refine hoperands.bind fun container _ _ _ hoperands => ?_
      refine hoperands.bind fun position frame' after _ _ => blames_currentHeap ?_
      split
      · trivial
      · exact (blames_defaultValue false ty after).lift
    case tupleGet tuple _ =>
      refine hoperands.bind fun target _ _ _ _ => ?_
      split <;> trivial
    case call object slot args ret =>
      refine hoperands.bind fun target frame' after htarget hargs => ?_
      refine hargs.all.bind fun values after' hvalues => ?_
      exact ((Begins.dispatched (mapM_cons_ok htarget hvalues)).blames rfl).lift
    case superCall parent slot args =>
      refine hoperands.all.bind fun values after hvalues => ?_
      refine (blames_classRoutine? parent slot).bind_lift fun found after' hfound => ?_
      split
      · exact ((Begins.supered hvalues hfound).blames rfl).lift
      · exact blames_machine (Blames.lift (blames_fail (by rintro ⟨⟩)))
    case new cls => exact (Begins.new.blames rfl).lift.bind fun _ _ _ => trivial
    case newArray | newMap | newSet => trivial
    case array elements | tuple elements => exact hoperands.all.bind fun _ _ _ => trivial
    case arith | concat | compare | equal =>
      exact hoperands.bind fun _ _ _ _ hoperands => hoperands.bind fun _ _ _ _ _ => trivial
    case merge | has =>
      exact hoperands.bind fun _ _ _ _ hoperands => hoperands.bind fun _ _ _ _ _ => trivial
    case logic conjunction left right =>
      refine hoperands.bind fun value frame' after hvalue _ => ?_
      split
      case isTrue heq => 
        subst heq
        exact ((Begins.right hvalue).blames rfl).bind fun _ _ _ => trivial
      case isFalse => trivial
    case not | neg | cast | len | is => exact hoperands.bind fun _ _ _ _ _ => trivial
    case clone operand =>
      exact hoperands.bind fun value _ _ _ _ => (blames_cloneValue value).lift
    case random =>
      refine blames_frame ?_
      split <;> trivial
    case suggest parts =>
      refine Blames.bind (.mapM fun _ _ _ _ _ _ heq hdone => ?_) fun _ _ _ => trivial
      exact (Begins.part heq hdone).blames rfl

theorem suffers_evalStep (steps : Nat) (code : StepCode) (frame : Frame) (machine : Machine) :
    Blames limit ((evalStep steps code frame).Suffers limit machine)
      ((Machine.evalStep steps code).run frame) machine := by
  cases steps with
  | zero => exact blames_exhausted.lift
  | succ steps =>
    have hoperands : (evalStep (steps + 1) code frame).Awaits machine steps code.operands frame
      machine := .stepOperand
    cases code <;> unfold Machine.evalStep
    case extend | retract => exact hoperands.bind fun _ _ _ _ _ => trivial
    case call target slot args =>
      refine hoperands.bind fun _ _ _ _ hargs => blames_frame ?_
      exact hargs.all.bind fun _ _ _ => trivial

theorem suffers_exec (steps : Nat) (instr : Instr) (frame : Frame) (machine : Machine) :
    Blames limit ((exec steps instr frame).Suffers limit machine)
      ((Machine.exec steps instr).run frame) machine := by
  cases steps with
  | zero => exact blames_exhausted.lift
  | succ steps =>
    have hoperands : (exec (steps + 1) instr frame).Awaits machine steps instr.operands frame
      machine := .instrOperand
    cases instr <;> unfold Machine.exec
    case eval | store | «return» => exact hoperands.bind fun _ _ _ _ _ => trivial
    case setField | append | remove =>
      exact hoperands.bind fun _ _ _ _ hoperands => hoperands.bind fun _ _ _ _ _ => trivial
    case setIndex =>
      exact hoperands.bind fun _ _ _ _ hoperands => hoperands.bind fun _ _ _ _ hoperands =>
        hoperands.bind fun _ _ _ _ _ => trivial
    case branch cond yes no =>
      refine hoperands.bind fun value frame' after hvalue _ => ?_
      have hblock : Begins (exec (steps + 1) (.branch cond yes no) frame) machine
          (block steps (if value.asBool then yes else no) frame') after := .branch hvalue
      split
      case isTrue htrue =>
        rw [if_pos htrue] at hblock
        exact hblock.blames rfl
      case isFalse hfalse =>
        rw [if_neg hfalse] at hblock
        exact hblock.blames rfl
    case «while» cond body => exact Begins.loop.blames rfl
    case forEach source kind first second body =>
      refine hoperands.bind fun value frame' after hvalue _ => blames_currentHeap ?_
      exact (Begins.each hvalue).blames rfl
    case «break» | «continue» => trivial
    case extend target cls =>
      refine hoperands.bind fun value frame' after hvalue _ => ?_
      split
      · exact ((Begins.extended hvalue).blames rfl).lift.bind fun _ _ _ => trivial
      · trivial
    case retract target cls =>
      refine hoperands.bind fun value frame' after hvalue _ => ?_
      split
      · exact ((Begins.retracted hvalue).blames rfl).lift.bind fun _ _ _ => trivial
      · trivial
    case enforce code =>
      refine hoperands.bind fun value frame' after hvalue _ => ?_
      split
      · exact ((Begins.enforced hvalue).blames rfl).lift.bind fun _ _ _ => trivial
      · trivial
    case release slots =>
      exact Blames.bind (blames_release slots frame machine) fun _ _ _ => trivial

theorem suffers_block (steps : Nat) (body : List Instr) (frame : Frame) (machine : Machine) :
    Blames limit ((block steps body frame).Suffers limit machine)
      ((execBlock steps body).run frame) machine := by
  cases steps with
  | zero => exact blames_exhausted.lift
  | succ steps =>
    cases body <;> unfold execBlock
    case nil => trivial
    case cons instr rest =>
      refine (Begins.first.blames rfl).bind fun answer after hinstr => ?_
      obtain ⟨flow, frame'⟩ := answer
      cases flow with
      | next => exact (Begins.rest hinstr).blames rfl
      | «break» | «continue» | «return» => trivial

theorem suffers_repeatWhile (steps : Nat) (cond : Code) (body : List Instr) (frame : Frame)
    (machine : Machine) :
    Blames limit ((repeatWhile steps cond body frame).Suffers limit machine)
      ((Machine.repeatWhile steps cond body).run frame) machine := by
  cases steps with
  | zero => exact blames_exhausted.lift
  | succ steps =>
    unfold Machine.repeatWhile
    refine (Begins.cond.blames rfl).bind fun answer after hcond => ?_
    obtain ⟨value, frame'⟩ := answer
    dsimp only
    split
    case isFalse => trivial
    case isTrue htrue =>
      refine ((Begins.round hcond htrue).blames rfl).bind fun answer after' hround => ?_
      obtain ⟨flow, frame''⟩ := answer
      cases flow with
      | «break» | «return» => trivial
      | next => exact (Begins.again hcond htrue hround (.inl rfl)).blames rfl
      | «continue» => exact (Begins.again hcond htrue hround (.inr rfl)).blames rfl

/-- A round of a loop, and what is made of its end. -/
theorem suffers_round (steps first : Nat) (second : Option Nat) (body : List Instr)
    (round : Value × Option Value) (rounds : List (Value × Option Value)) (frame : Frame)
    (machine : Machine) :
    Blames limit
      ((repeatFor (steps + 1) first second body (round :: rounds) frame).Suffers limit machine)
      ((execBlock steps body >>= fun flow => match flow with
        | .break => return .next
        | .return value => return .return value
        | .next | .continue => Machine.repeatFor steps first second body rounds).run
          (frame.enterRound first second round)) machine := by
  refine (Begins.roundOf.blames rfl).bind fun answer after hround => ?_
  obtain ⟨flow, frame'⟩ := answer
  cases flow with
  | «break» | «return» => trivial
  | next => exact (Begins.nextOf hround (.inl rfl)).blames rfl
  | «continue» => exact (Begins.nextOf hround (.inr rfl)).blames rfl

theorem suffers_repeatFor (steps first : Nat) (second : Option Nat) (body : List Instr)
    (rounds : List (Value × Option Value)) (frame : Frame) (machine : Machine) :
    Blames limit ((repeatFor steps first second body rounds frame).Suffers limit machine)
      ((Machine.repeatFor steps first second body rounds).run frame) machine := by
  cases steps with
  | zero => exact blames_exhausted.lift
  | succ steps =>
    cases rounds <;> unfold Machine.repeatFor
    case nil => trivial
    case cons round rounds =>
      obtain ⟨a, b⟩ := round
      have hround : Blames limit _ _ machine :=
        suffers_round steps first second body (a, b) rounds frame machine
      cases second <;> cases b <;> exact hround

theorem suffers_invoke (steps : Nat) (routine : Routine) (this caller : Value) (args : List Value)
    (machine : Machine) :
    Blames limit ((invoke steps routine this caller args).Suffers limit machine)
      (Machine.invoke steps routine this caller args) machine := by
  cases steps with
  | zero => exact blames_exhausted
  | succ steps =>
    unfold Machine.invoke
    refine blames_get ?_
    split
    case isTrue hdepth =>
      rintro ⟨⟩
      exact .inl ⟨rfl, hdepth⟩
    case isFalse hdepth =>
      have hbody : Begins (invoke (steps + 1) routine this caller args) machine _ _ :=
        .body (Nat.lt_of_not_le hdepth)
      refine Blames.bind (blames_nested (hbody.blames rfl)) fun flow after _ => ?_
      split
      · trivial
      · exact blames_defaultValue false routine.ret after

theorem suffers_dispatch (steps : Nat) (target : Value) (slot : MethodSlot) (caller : Value)
    (args : List Value) (ret : Ty) (machine : Machine) :
    Blames limit ((dispatch steps target slot caller args ret).Suffers limit machine)
      (Machine.dispatch steps target slot caller args ret) machine := by
  cases steps with
  | zero => exact blames_exhausted
  | succ steps =>
    unfold Machine.dispatch
    refine blames_get ?_
    split
    case h_1 routine hbound => exact (Begins.bound hbound).blames rfl
    case h_2 => exact blames_defaultValue false ret machine

theorem suffers_initializeMissing (steps : Nat) (ref : Ref) (machine : Machine) :
    Blames limit ((initializeMissing steps ref).Suffers limit machine)
      (Machine.initializeMissing steps ref) machine := by
  cases steps with
  | zero => exact blames_exhausted
  | succ steps =>
    rw [initializeMissing_succ]
    refine blames_get (.forM fun done field rest after heq hdone => ?_)
    unfold initializePending
    split
    case h_1 routine hroutine =>
      exact ((Begins.initializer heq hdone hroutine).blames rfl).bind fun _ _ _ => trivial
    case h_2 => exact (blames_defaultValue true field.ty after).bind fun _ _ _ => trivial

theorem suffers_remanifest (steps : Nat) (ref : Ref) (machine : Machine) :
    Blames limit ((remanifest steps ref).Suffers limit machine)
      (Machine.remanifest steps ref) machine := by
  cases steps with
  | zero => exact blames_exhausted
  | succ steps =>
    unfold Machine.remanifest
    exact (blames_installManifest ref).bind fun _ after hinstall =>
      (Begins.missing hinstall).blames rfl

theorem suffers_instantiate (steps : Nat) (cls : ClassId) (machine : Machine) :
    Blames limit ((instantiate steps cls).Suffers limit machine)
      (Machine.instantiate steps cls) machine := by
  cases steps with
  | zero => exact blames_exhausted
  | succ steps =>
    unfold Machine.instantiate
    refine blames_get ?_
    split
    case isTrue hknown =>
      refine Blames.bind trivial fun ref after hcreate => ?_
      exact ((Begins.made hknown hcreate).blames rfl).bind fun _ _ _ => trivial
    case isFalse => exact blames_fail (by rintro ⟨⟩)

theorem suffers_extend (steps : Nat) (ref : Ref) (cls : ClassId) (machine : Machine) :
    Blames limit ((extend steps ref cls).Suffers limit machine)
      (Machine.extend steps ref cls) machine := by
  cases steps with
  | zero => exact blames_exhausted
  | succ steps =>
    unfold Machine.extend
    refine blames_get ?_
    split
    case isFalse => exact blames_fail (by rintro ⟨⟩)
    case isTrue hknown =>
      split
      case h_1 => trivial
      case h_2 object hobject =>
        split
        case isTrue => trivial
        case isFalse hworn =>
          refine Blames.bind trivial fun _ after hafter => ?_
          split
          case isTrue => trivial
          case isFalse hlacks =>
            cases hafter
            have hlacks' := Bool.eq_false_of_not_eq_true hlacks
            exact (Begins.worn hknown hobject hworn hlacks').blames rfl

theorem suffers_retract (steps : Nat) (ref : Ref) (cls : ClassId) (machine : Machine) :
    Blames limit ((retract steps ref cls).Suffers limit machine)
      (Machine.retract steps ref cls) machine := by
  cases steps with
  | zero => exact blames_exhausted
  | succ steps =>
    unfold Machine.retract
    refine Blames.bind trivial fun _ after hafter => ?_
    cases hafter
    exact Begins.doffed.blames rfl

theorem suffers_enforce (steps : Nat) (batch : List Step) (machine : Machine) :
    Blames limit ((enforce steps batch).Suffers limit machine)
      (Machine.enforce steps batch) machine := by
  cases steps with
  | zero => exact blames_exhausted
  | succ steps =>
    rw [enforce_succ]
    refine Blames.bind (.forM fun done step rest after heq hdone => ?_) fun _ granted hgranted => ?_
    · unfold grant
      split
      · exact (Begins.granted heq hdone).blames rfl
      · trivial
    refine Blames.bind (.forM fun done step rest after heq hdone => ?_) fun _ carried hcarried => ?_
    · unfold carryOut
      split
      · refine blames_get ?_
        split
        case h_1 routine hbound =>
          exact ((Begins.carriedOut heq hgranted hdone hbound).blames rfl).bind fun _ _ _ => trivial
        case h_2 => trivial
      · trivial
    · refine .forM fun done step rest after heq hdone => ?_
      unfold revoke
      split
      · exact (Begins.revoked heq hgranted hcarried hdone).blames rfl
      · trivial

theorem suffers_call (steps : Nat) (ref : Ref) (name : String) (caller : Value) (args : List Value)
    (machine : Machine) :
    Blames limit ((call steps ref name caller args).Suffers limit machine)
      (Machine.call steps ref name caller args) machine := by
  unfold Machine.call
  refine blames_get ?_
  split
  case h_1 => exact blames_fail (by rintro ⟨⟩)
  case h_2 sig hsig =>
    obtain ⟨object, hobject, hsig⟩ := Option.bind_eq_some_iff.mp hsig
    split
    case isTrue => exact blames_fail (by rintro ⟨⟩)
    case isFalse hcount =>
      exact (Begins.called hobject hsig (Decidable.of_not_not hcount)).blames rfl

theorem suffers_restore (steps : Nat) (snapshot : Snapshot) (machine : Machine) :
    Blames limit ((restore steps snapshot).Suffers limit machine)
      (Machine.restore steps snapshot) machine := by
  rw [restore_eq]
  refine (blames_of_faults (Account.safe_stock (fun _ _ h => h) trivial snapshot)).bind
    fun made stocked hstock => ?_
  refine (blames_of_faults (Account.safe_fill trivial made.2 snapshot)).bind
    fun _ filled hfill => ?_
  refine (blames_of_faults (Account.safe_value snapshot.root trivial)).bind
    fun root rooted hroot => ?_
  refine Blames.bind (.forM fun done entry rest after heq hdone => ?_) fun _ complete _ => ?_
  · exact (Begins.completed hstock hfill hroot heq hdone).blames rfl
  · exact Blames.bind (.forM fun _ _ _ _ _ _ => trivial) fun _ _ _ => trivial

theorem Exceeds.suffers (h : activity.Exceeds limit machine) : activity.Suffers limit machine := by
  have hblames : Blames limit (activity.Suffers limit machine) activity.run machine := by
    cases activity with
    | eval steps code frame => exact (suffers_eval steps code frame machine).discard
    | evalStep steps code frame => exact (suffers_evalStep steps code frame machine).discard
    | exec steps instr frame => exact (suffers_exec steps instr frame machine).discard
    | block steps body frame => exact (suffers_block steps body frame machine).discard
    | repeatWhile steps cond body frame =>
      exact (suffers_repeatWhile steps cond body frame machine).discard
    | repeatFor steps first second body rounds frame =>
      exact (suffers_repeatFor steps first second body rounds frame machine).discard
    | invoke steps routine this caller args =>
      exact (suffers_invoke steps routine this caller args machine).discard
    | dispatch steps target slot caller args ret =>
      exact (suffers_dispatch steps target slot caller args ret machine).discard
    | initializeMissing steps ref => exact (suffers_initializeMissing steps ref machine).discard
    | remanifest steps ref => exact (suffers_remanifest steps ref machine).discard
    | instantiate steps cls => exact (suffers_instantiate steps cls machine).discard
    | extend steps ref cls => exact (suffers_extend steps ref cls machine).discard
    | retract steps ref cls => exact (suffers_retract steps ref cls machine).discard
    | enforce steps batch => exact (suffers_enforce steps batch machine).discard
    | call steps ref name caller args =>
      exact (suffers_call steps ref name caller args machine).discard
    | restore steps snapshot => exact (suffers_restore steps snapshot machine).discard
  obtain ⟨after, hrun⟩ := h
  exact hblames.of_error hrun rfl

/-- What is begun may take fewer nested steps.  A call by name and a restore take none of their
own. -/
def room : Activity → Nat
  | eval steps .. | evalStep steps .. | exec steps .. | block steps .. | repeatWhile steps ..
  | repeatFor steps .. | invoke steps .. | dispatch steps .. | initializeMissing steps _
  | remanifest steps _ | instantiate steps _ | extend steps .. | retract steps ..
  | enforce steps _ => steps
  | call steps .. | restore steps _ => steps + 1

theorem Begins.room_lt (h : activity.Begins machine part start) : part.room < activity.room := by
  cases h <;> exact Nat.lt_succ_self _

/-- The error goes back to a call that is refused in the course of the activity. -/
theorem Exceeds.refused (h : activity.Exceeds limit machine) :
    ∃ calls part start, activity.Comprises machine calls part start ∧ part.Refused limit start := by
  induction hroom : activity.room using Nat.strong_induction_on generalizing activity machine with
  | _ room ih =>
    rcases h.suffers with hrefused | ⟨part, start, hbegins, hpart⟩
    · exact ⟨0, activity, machine, .itself, hrefused⟩
    · obtain ⟨calls, last, after, hcomprises, hrefused⟩ :=
        ih part.room (hroom ▸ hbegins.room_lt) hpart rfl
      exact ⟨activity.calls + calls, last, after, hcomprises.of_part hbegins, hrefused⟩

end Activity

end Attire
