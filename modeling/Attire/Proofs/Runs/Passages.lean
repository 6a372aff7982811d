import Attire.Proofs.Machine.Streams
import Attire.Proofs.Runs.Parts

namespace Attire

open Machine

/-! Numbers are drawn in the parts of a run, and not between them. -/

namespace Machine

/-- The machine that a run leaves behind, however it ends. -/
def left {α : Type} (run : Run α) (machine : Machine) : Machine :=
  match run machine with
  | .ok _ after | .error _ after => after

variable {α β γ : Type} {run : Run α} {machine start after last : Machine}

theorem left_of_ok {answer : α} (h : run machine = .ok answer after) :
    left run machine = after := by
  rw [left, h]

theorem left_of_error {halt : Halt} (h : run machine = .error halt after) :
    left run machine = after := by
  rw [left, h]

@[simp] theorem left_discard (run : Run α) (machine : Machine) :
    left (discard run) machine = left run machine := by
  show left (EStateM.map (Function.const α PUnit.unit) run) machine = _
  unfold left EStateM.map
  cases run machine <;> rfl

theorem left_bind_ok {next : α → Run β} {answer : α} (h : run machine = .ok answer after) :
    left (run >>= next) machine = left (next answer) after := by
  rw [left, run_bind_ok h, left]

theorem left_bind_error {next : α → Run β} {halt : Halt} (h : run machine = .error halt after) :
    left (run >>= next) machine = after := by
  simp only [left, Bind.bind, EStateM.bind, h]

@[simp] theorem left_lift (run : Run α) (frame : Frame) (machine : Machine) :
    left ((liftM run : Exec α).run frame) machine = left run machine := by
  show left (run >>= fun answer => pure (answer, frame)) machine = _
  cases hrun : run machine with
  | ok answer after =>
    rw [left_bind_ok hrun, left_of_ok hrun]
    rfl
  | error halt after => rw [left_bind_error hrun, left_of_error hrun]

theorem Calm.left (h : Calm run machine) : machine.Still (left run machine) := by
  unfold Machine.left
  unfold Calm Yields at h
  cases hrun : run machine <;> rw [hrun] at h <;> exact h

/-- The parts are carried out one after another, and no number is drawn between them. -/
def Passes : Machine → List Activity.Onset → Machine → Prop
  | machine, [], last => machine.Still last
  | machine, (part, start) :: rest, last =>
    machine.Still start ∧ Passes (left part.run start) rest last

theorem Still.passes {parts : List Activity.Onset} (h : machine.Still start)
    (hpasses : Passes start parts last) : Passes machine parts last := by
  cases parts with
  | nil => exact h.trans hpasses
  | cons onset rest => exact ⟨h.trans hpasses.1, hpasses.2⟩

theorem Passes.append {done rest : List Activity.Onset} (h : Passes machine done after)
    (hrest : Passes after rest last) : Passes machine (done ++ rest) last := by
  induction done generalizing machine with
  | nil => exact Still.passes h hrest
  | cons onset done ih => exact ⟨h.1, ih h.2⟩

/-- The run comes down to its parts. -/
def Makes (run : Run α) (machine : Machine) (parts : List Activity.Onset) : Prop :=
  Passes machine parts (left run machine)

variable {parts : List Activity.Onset} {frame : Frame}

theorem Calm.makes (h : Calm run machine) : Makes run machine [] := h.left

theorem Makes.bind {next : α → Run β} {done : List Activity.Onset}
    {rest : α → Machine → List Activity.Onset} (h : Makes run machine done)
    (hnext : ∀ answer after, run machine = .ok answer after →
      Makes (next answer) after (rest answer after)) :
    Makes (run >>= next) machine (done ++ onward run machine rest) := by
  unfold Makes onward at *
  cases hrun : run machine with
  | ok answer after =>
    rw [left_of_ok hrun] at h
    rw [left_bind_ok hrun]
    exact h.append (hnext answer after hrun)
  | error halt after =>
    rw [left_of_error hrun] at h
    rw [left_bind_error hrun, List.append_nil]
    exact h

theorem Calm.then_makes {next : α → Run β} {rest : α → Machine → List Activity.Onset}
    (h : Calm run machine)
    (hnext : ∀ answer after, run machine = .ok answer after →
      Makes (next answer) after (rest answer after)) :
    Makes (run >>= next) machine (onward run machine rest) :=
  h.makes.bind hnext

theorem Makes.then_calm {next : α → Run β} (h : Makes run machine parts)
    (hnext : ∀ answer after, run machine = .ok answer after → Calm (next answer) after) :
    Makes (run >>= next) machine parts := by
  have hmakes : Makes (run >>= next) machine (parts ++ onward run machine fun _ _ => []) :=
    h.bind fun answer after hrun => (hnext answer after hrun).makes
  have hnone : onward run machine (fun _ _ => ([] : List Activity.Onset)) = [] := by
    unfold onward
    cases run machine <;> rfl
  rwa [hnone, List.append_nil] at hmakes

theorem makes_get {next : Machine → Run α} (h : Makes (next machine) machine parts) :
    Makes (get >>= next) machine parts := h

theorem makes_part {part : Activity} (h : part.run = discard run) :
    Makes run machine [(part, machine)] := by
  refine ⟨.refl machine, ?_⟩
  rw [h, left_discard]
  exact .refl _

theorem makes_part_bind {part : Activity} {next : α → Run β}
    {rest : α → Machine → List Activity.Onset} (h : part.run = discard run)
    (hnext : ∀ answer after, run machine = .ok answer after →
      Makes (next answer) after (rest answer after)) :
    Makes (run >>= next) machine ((part, machine) :: onward run machine rest) :=
  (makes_part h).bind hnext

theorem Makes.discard (h : Makes run machine parts) : Makes (discard run) machine parts := by
  unfold Makes
  rwa [left_discard]

theorem Calm.lift (h : Calm run machine) : Calm ((liftM run : Exec α).run frame) machine :=
  h.bind fun _ _ _ => calm_pure _

theorem Makes.lift (h : Makes run machine parts) :
    Makes ((liftM run : Exec α).run frame) machine parts :=
  h.then_calm fun _ _ _ => calm_pure _

theorem calm_currentHeap {next : Heap → Exec α}
    (h : Calm ((next machine.heap).run frame) machine) :
    Calm ((currentHeap >>= next).run frame) machine := h

theorem makes_frame {next : Frame → Exec α} (h : Makes ((next frame).run frame) machine parts) :
    Makes ((get >>= next).run frame) machine parts := h

theorem makes_currentHeap {next : Heap → Exec α}
    (h : Makes ((next machine.heap).run frame) machine parts) :
    Makes ((currentHeap >>= next).run frame) machine parts := h

theorem makes_modifyObject {ref : Ref} {change : Object → Object}
    (hchange : ∀ object, (change object).random = object.random) {next : PUnit → Run α}
    (h : Makes (next ⟨⟩) { machine with heap := machine.heap.modifyObject ref change } parts) :
    Makes ((onHeap fun heap => heap.modifyObject ref change) >>= next) machine parts :=
  Still.passes (calm_modifyObject hchange) h

/-- A statement that changes the heap. -/
theorem calm_change {change : Heap → Heap} (hids : (change machine.heap).ids = machine.heap.ids)
    (hstream : (change machine.heap).stream = machine.heap.stream) :
    Calm ((do onHeap change; return .next : Exec Flow).run frame) machine :=
  calm_onHeap hids hstream

/-- A call leaves what its body leaves, one level up. -/
theorem left_nested (run : Exec α) (frame : Frame) (machine : Machine) :
    let last := left (run.run frame) { machine with depth := machine.depth + 1 }
    left (nested (run.run' frame)) machine = { last with depth := last.depth - 1 } := by
  show left (nested (EStateM.map Prod.fst (run.run frame))) machine = _
  simp only [left, nested, EStateM.map]
  cases run.run frame { machine with depth := machine.depth + 1 } <;> rfl

theorem makes_nested {part : Activity} {run : Exec α} (h : part.run = discard (run.run frame)) :
    Makes (nested (run.run' frame)) machine
      [(part, { machine with depth := machine.depth + 1 })] := by
  refine ⟨.of_heap rfl (le_refl _), ?_⟩
  rw [h, left_discard, left_nested]
  exact .of_heap rfl (le_refl _)

theorem calm_setSlots (slots : List Nat) (frame : Frame) :
    Calm ((slots.forM fun slot => setSlot slot .null : Exec PUnit).run frame) machine := by
  induction slots generalizing frame with
  | nil => exact calm_pure _
  | cons slot rest ih => exact ih (frame.set slot .null)

end Machine

namespace Activity

variable {α β γ δ : Type} {machine : Machine} {frame : Frame}

theorem makes_inTurn {act : γ → Exec β} {activity : γ → Frame → Activity}
    (hact : ∀ item frame, (activity item frame).run = discard ((act item).run frame))
    {items : List γ} {next : List β → Exec δ} {rest : List β → Frame → Machine → List Onset}
    (hnext : ∀ answers frame' after,
      (items.mapM act).run frame machine = .ok (answers, frame') after →
      Makes ((next answers).run frame') after (rest answers frame' after)) :
    Makes ((items.mapM act >>= next).run frame) machine
      (inTurn act activity items frame machine rest) := by
  induction items generalizing frame machine next rest with
  | nil => exact hnext [] frame machine rfl
  | cons item items ih =>
    have hcons : ((item :: items).mapM act >>= next) = act item >>= fun answer =>
        items.mapM act >>= fun answers => next (answer :: answers) := by
      simp only [List.mapM_cons, bind_assoc, pure_bind]
    rw [hcons]
    refine makes_part_bind (hact item frame) fun answer after hitem => ?_
    exact ih fun answers frame'' last hitems => hnext _ _ _ (mapM_cons_ok hitem hitems)

theorem makes_each {act : γ → Run PUnit} {part? : γ → Machine → Option Activity}
    (hact : ∀ item machine, Makes (act item) machine
      ((part? item machine).map fun part => (part, machine)).toList)
    {items : List γ} {next : Run δ} {rest : Machine → List Onset}
    (hnext : ∀ after, items.forM act machine = .ok ⟨⟩ after → Makes next after (rest after)) :
    Makes (items.forM act >>= fun _ => next) machine (each act part? items machine rest) := by
  induction items generalizing machine with
  | nil => exact hnext machine rfl
  | cons item items ih =>
    have hcons : ((item :: items).forM act >>= fun _ => next) =
        act item >>= fun _ => items.forM act >>= fun _ => next := bind_assoc _ _ _
    rw [hcons]
    exact (hact item machine).bind fun ⟨⟩ after hitem => ih fun last hitems =>
      hnext last ((run_bind_ok hitem).trans hitems)

theorem makes_each_last {act : γ → Run PUnit} {part? : γ → Machine → Option Activity}
    (hact : ∀ item machine, Makes (act item) machine
      ((part? item machine).map fun part => (part, machine)).toList) (items : List γ) :
    Makes (items.forM act) machine (each act part? items machine fun _ => []) := by
  have h : Makes (items.forM act >>= fun _ => pure PUnit.unit) machine
      (each act part? items machine fun _ => []) :=
    makes_each hact fun _ _ => (calm_pure _).makes
  rwa [bind_pure_unit] at h

/-- The object from which the activity draws a number itself. -/
def source? : Activity → Option Ref
  | eval (_ + 1) .random frame =>
    match frame.this with
    | .object ref => some ref
    | _ => none
  | _ => none

/-! Every activity comes down to its parts, unless it draws a number itself. -/

theorem makes_eval (steps : Nat) (code : Code) (frame : Frame) (machine : Machine)
    (hquiet : (eval steps code frame).source? = none) :
    Makes ((Machine.eval steps code).run frame) machine
      ((eval steps code frame).parts machine) := by
  cases steps with
  | zero => exact calm_exhausted.lift.makes
  | succ steps =>
    cases code <;> unfold Machine.eval
    case num | text | bool | null | const | «local» | this | caller =>
      exact Calm.makes (Still.refl machine)
    case «default» ty constructed => exact (calm_defaultValue constructed ty machine).lift.makes
    case tee slot operand => exact makes_part_bind rfl fun _ after _ => (Still.refl after)
    case getField object key ty =>
      refine makes_part_bind rfl fun target after _ => Calm.makes (calm_currentHeap ?_)
      split
      · exact calm_pure _
      · exact (calm_defaultValue false ty after).lift
    case index object kind index ty =>
      refine makes_part_bind rfl fun _ _ _ => makes_part_bind rfl fun _ after _ =>
        Calm.makes (calm_currentHeap ?_)
      split
      · exact calm_pure _
      · exact (calm_defaultValue false ty after).lift
    case tupleGet tuple _ =>
      refine makes_part_bind rfl fun answer after _ => Calm.makes ?_
      obtain ⟨value, frame'⟩ := answer
      cases value <;> exact Still.refl after
    case call object slot args ret =>
      exact makes_part_bind rfl fun _ _ _ => makes_inTurn (fun _ _ => rfl) fun _ _ _ _ =>
        (makes_part rfl).lift
    case superCall parent slot args =>
      refine makes_inTurn (fun _ _ => rfl) fun values frame' after _ => ?_
      rw [run_liftM_bind]
      simp only [ofCode]
      refine (calm_classRoutine? parent slot).then_makes fun routine? after _ => ?_
      cases routine? with
      | some routine => exact (makes_part rfl).lift
      | none => exact Calm.makes (Still.refl after)
    case new cls => exact (makes_part rfl).lift.then_calm fun _ _ _ => calm_pure _
    case newArray => exact (calm_newArray #[]).lift.makes
    case newMap => exact calm_newMap.lift.makes
    case newSet => exact calm_newSet.lift.makes
    case array elements =>
      exact makes_inTurn (fun _ _ => rfl) fun _ _ _ _ => (calm_newArray _).lift.makes
    case tuple elements => exact makes_inTurn (fun _ _ => rfl) fun _ _ _ _ => (calm_pure _).makes
    case arith | concat | compare | equal =>
      exact makes_part_bind rfl fun _ _ _ => makes_part_bind rfl fun _ _ _ => (calm_pure _).makes
    case has =>
      exact makes_part_bind rfl fun _ _ _ => makes_part_bind rfl fun _ after _ =>
        (calm_currentHeap (calm_pure _)).makes
    case merge left right =>
      exact makes_part_bind rfl fun _ _ _ => makes_part_bind rfl fun _ _ _ =>
        (calm_newSuggestion _).lift.makes
    case logic conjunction left right =>
      refine makes_part_bind rfl fun answer after _ => ?_
      obtain ⟨value, frame'⟩ := answer
      simp only [inTurn, ofCode]
      split
      case isTrue => exact (makes_part rfl).then_calm fun _ _ _ => calm_pure _
      case isFalse => exact (calm_pure _).makes
    case not | neg => exact makes_part_bind rfl fun _ _ _ => (calm_pure _).makes
    case cast | len | is =>
      exact makes_part_bind rfl fun _ _ _ => (calm_currentHeap (calm_pure _)).makes
    case clone operand =>
      exact makes_part_bind rfl fun value _ _ => (calm_cloneValue value.1).lift.makes
    case random =>
      obtain ⟨slots, this, caller⟩ := frame
      cases this with
      | object ref => cases hquiet
      | _ => exact Calm.makes (Still.refl machine)
    case suggest parts =>
      exact makes_inTurn (fun _ _ => rfl) fun _ _ _ _ => (calm_newSuggestion _).lift.makes

theorem makes_evalStep (steps : Nat) (code : StepCode) (frame : Frame) (machine : Machine) :
    Makes ((Machine.evalStep steps code).run frame) machine
      ((evalStep steps code frame).parts machine) := by
  cases steps with
  | zero => exact calm_exhausted.lift.makes
  | succ steps =>
    cases code <;> unfold Machine.evalStep
    case extend | retract => exact makes_part_bind rfl fun _ _ _ => (calm_pure _).makes
    case call =>
      refine makes_part_bind rfl fun answer _ _ => ?_
      obtain ⟨target, frame'⟩ := answer
      exact makes_frame (makes_inTurn (fun _ _ => rfl) fun _ _ _ _ => (calm_pure _).makes)

theorem makes_exec (steps : Nat) (instr : Instr) (frame : Frame) (machine : Machine) :
    Makes ((Machine.exec steps instr).run frame) machine
      ((exec steps instr frame).parts machine) := by
  cases steps with
  | zero => exact calm_exhausted.lift.makes
  | succ steps =>
    cases instr <;> unfold Machine.exec
    case eval | store | «return» => exact makes_part_bind rfl fun _ after _ => (Still.refl after)
    case setField =>
      refine makes_part_bind rfl fun _ _ _ => makes_part_bind rfl fun _ _ _ => Calm.makes ?_
      exact calm_change Heap.ids_writeField Heap.stream_writeField
    case setIndex =>
      refine makes_part_bind rfl fun _ _ _ => makes_part_bind rfl fun _ _ _ =>
        makes_part_bind rfl fun _ _ _ => Calm.makes ?_
      exact calm_change Heap.ids_putElement Heap.stream_putElement
    case append =>
      refine makes_part_bind rfl fun _ _ _ => makes_part_bind rfl fun _ _ _ => Calm.makes ?_
      exact calm_change Heap.ids_addElement Heap.stream_addElement
    case remove =>
      refine makes_part_bind rfl fun _ _ _ => makes_part_bind rfl fun _ _ _ => Calm.makes ?_
      exact calm_change Heap.ids_removeElement Heap.stream_removeElement
    case branch cond yes no =>
      refine makes_part_bind rfl fun answer after _ => ?_
      obtain ⟨value, frame'⟩ := answer
      dsimp only [inTurn, ofInstr]
      split <;> exact makes_part rfl
    case «while» cond body => exact makes_part rfl
    case forEach source kind first second body =>
      refine makes_part_bind rfl fun answer _ _ => ?_
      obtain ⟨value, frame'⟩ := answer
      exact makes_currentHeap (makes_part rfl)
    case «break» | «continue» => exact (calm_pure _).makes
    case extend target cls =>
      refine makes_part_bind rfl fun answer after _ => ?_
      obtain ⟨value, frame'⟩ := answer
      cases value with
      | object ref => exact (makes_part rfl).lift.then_calm fun _ _ _ => calm_pure _
      | _ => exact Calm.makes (Still.refl after)
    case retract target cls =>
      refine makes_part_bind rfl fun answer after _ => ?_
      obtain ⟨value, frame'⟩ := answer
      cases value with
      | object ref => exact (makes_part rfl).lift.then_calm fun _ _ _ => calm_pure _
      | _ => exact Calm.makes (Still.refl after)
    case enforce code =>
      refine makes_part_bind rfl fun answer after _ => ?_
      obtain ⟨value, frame'⟩ := answer
      cases value with
      | suggestion stamp batch => exact (makes_part rfl).lift.then_calm fun _ _ _ => calm_pure _
      | _ => exact Calm.makes (Still.refl after)
    case release slots => exact ((calm_setSlots slots frame).bind fun _ _ _ => calm_pure _).makes

theorem makes_block (steps : Nat) (body : List Instr) (frame : Frame) (machine : Machine) :
    Makes ((execBlock steps body).run frame) machine
      ((block steps body frame).parts machine) := by
  cases steps with
  | zero => exact calm_exhausted.lift.makes
  | succ steps =>
    cases body <;> unfold execBlock
    case nil => exact (calm_pure _).makes
    case cons instr rest =>
      refine makes_part_bind rfl fun answer after _ => ?_
      obtain ⟨flow, frame'⟩ := answer
      cases flow with
      | next => exact makes_part rfl
      | «break» | «continue» | «return» => exact (calm_pure _).makes

theorem makes_repeatWhile (steps : Nat) (cond : Code) (body : List Instr) (frame : Frame)
    (machine : Machine) :
    Makes ((Machine.repeatWhile steps cond body).run frame) machine
      ((repeatWhile steps cond body frame).parts machine) := by
  cases steps with
  | zero => exact calm_exhausted.lift.makes
  | succ steps =>
    unfold Machine.repeatWhile
    refine makes_part_bind rfl fun answer after _ => ?_
    obtain ⟨value, frame'⟩ := answer
    dsimp only
    split
    case isFalse => exact (calm_pure _).makes
    case isTrue =>
      refine makes_part_bind rfl fun answer last _ => ?_
      obtain ⟨flow, frame''⟩ := answer
      cases flow with
      | next | «continue» => exact makes_part rfl
      | «break» | «return» => exact (calm_pure _).makes

/-- A round of a loop, and what is made of its end. -/
theorem makes_round (steps first : Nat) (second : Option Nat) (body : List Instr)
    (round : Value × Option Value) (rounds : List (Value × Option Value)) (frame : Frame)
    (machine : Machine) :
    Makes
      ((execBlock steps body >>= fun flow => match flow with
        | .break => return .next
        | .return value => return .return value
        | .next | .continue => Machine.repeatFor steps first second body rounds).run
          (frame.enterRound first second round)) machine
      ((repeatFor (steps + 1) first second body (round :: rounds) frame).parts machine) := by
  refine makes_part_bind rfl fun answer after _ => ?_
  obtain ⟨flow, frame'⟩ := answer
  cases flow with
  | next | «continue» => exact makes_part rfl
  | «break» | «return» => exact (calm_pure _).makes

theorem makes_repeatFor (steps first : Nat) (second : Option Nat) (body : List Instr)
    (rounds : List (Value × Option Value)) (frame : Frame) (machine : Machine) :
    Makes ((Machine.repeatFor steps first second body rounds).run frame) machine
      ((repeatFor steps first second body rounds frame).parts machine) := by
  cases steps with
  | zero => exact calm_exhausted.lift.makes
  | succ steps =>
    cases rounds <;> unfold Machine.repeatFor
    case nil => exact (calm_pure _).makes
    case cons round rounds =>
      obtain ⟨a, b⟩ := round
      have hround := makes_round steps first second body (a, b) rounds frame machine
      cases second <;> cases b <;> exact hround

theorem makes_invoke (steps : Nat) (routine : Routine) (this caller : Value) (args : List Value)
    (machine : Machine) :
    Makes (Machine.invoke steps routine this caller args) machine
      ((invoke steps routine this caller args).parts machine) := by
  cases steps with
  | zero => exact calm_exhausted.makes
  | succ steps =>
    unfold Machine.invoke
    refine makes_get ?_
    rw [parts]
    split
    case isTrue => exact (calm_fail _).makes
    case isFalse =>
      refine (makes_nested rfl).then_calm fun flow after _ => ?_
      split
      · exact calm_pure _
      · exact calm_defaultValue false routine.ret after

theorem makes_dispatch (steps : Nat) (target : Value) (slot : MethodSlot) (caller : Value)
    (args : List Value) (ret : Ty) (machine : Machine) :
    Makes (Machine.dispatch steps target slot caller args ret) machine
      ((dispatch steps target slot caller args ret).parts machine) := by
  cases steps with
  | zero => exact calm_exhausted.makes
  | succ steps =>
    unfold Machine.dispatch
    refine makes_get ?_
    rw [parts]
    split
    case h_1 routine hbound =>
      rw [hbound]
      exact makes_part rfl
    case h_2 hbound =>
      rw [hbound]
      exact (calm_defaultValue false ret machine).makes

theorem makes_initializePending (steps : Nat) (ref : Ref) (field : PendingField)
    (machine : Machine) :
    Makes (initializePending steps ref field) machine
      ((field.initializer.map fun routine => invoke steps routine (.object ref) .null []).map
        fun part => (part, machine)).toList := by
  unfold initializePending
  cases field.initializer with
  | some routine => exact (makes_part rfl).then_calm fun _ _ _ => calm_initializeField ..
  | none =>
    exact ((calm_defaultValue true field.ty machine).bind fun _ _ _ =>
      calm_initializeField ..).makes

theorem makes_initializeMissing (steps : Nat) (ref : Ref) (machine : Machine) :
    Makes (Machine.initializeMissing steps ref) machine
      ((initializeMissing steps ref).parts machine) := by
  cases steps with
  | zero => exact calm_exhausted.makes
  | succ steps =>
    rw [initializeMissing_succ]
    exact makes_get (makes_each_last (fun field machine =>
      makes_initializePending steps ref field machine) _)

theorem makes_remanifest (steps : Nat) (ref : Ref) (machine : Machine) :
    Makes (Machine.remanifest steps ref) machine ((remanifest steps ref).parts machine) := by
  cases steps with
  | zero => exact calm_exhausted.makes
  | succ steps =>
    unfold Machine.remanifest
    rw [parts]
    exact (calm_installManifest ref).then_makes fun _ _ _ => makes_part rfl

theorem makes_instantiate (steps : Nat) (cls : ClassId) (machine : Machine) :
    Makes (Machine.instantiate steps cls) machine ((instantiate steps cls).parts machine) := by
  cases steps with
  | zero => exact calm_exhausted.makes
  | succ steps =>
    unfold Machine.instantiate
    refine makes_get ?_
    rw [parts]
    split
    case isFalse => exact (calm_fail _).makes
    case isTrue =>
      exact (calm_create rfl).then_makes fun _ _ _ =>
        (makes_part rfl).then_calm fun _ _ _ => calm_pure _

theorem makes_extend (steps : Nat) (ref : Ref) (cls : ClassId) (machine : Machine) :
    Makes (Machine.extend steps ref cls) machine ((extend steps ref cls).parts machine) := by
  cases steps with
  | zero => exact calm_exhausted.makes
  | succ steps =>
    unfold Machine.extend
    refine makes_get ?_
    rw [parts]
    split
    case isFalse hknown =>
      have hnone : ∀ object : Object, ¬(machine.classes.contains cls ∧ cls ∉ object.worn ∧
        object.embodies cls = false) := fun _ hgains => hknown hgains.1
      cases machine.heap.object? ref with
      | none => exact (calm_fail _).makes
      | some object =>
        dsimp only
        rw [if_neg (hnone object)]
        exact (calm_fail _).makes
    case isTrue hknown =>
      cases machine.heap.object? ref with
      | none => exact (calm_pure _).makes
      | some object =>
        dsimp only
        split
        case isTrue hworn =>
          rw [if_neg fun hgains => hgains.2.1 hworn]
          exact (calm_pure _).makes
        case isFalse hworn =>
          refine makes_modifyObject ?_ ?_
          · exact fun _ => rfl
          split
          case isTrue hembodies =>
            rw [if_neg fun hgains => by simp [hgains.2.2] at hembodies]
            exact (calm_pure _).makes
          case isFalse hlacks =>
            rw [if_pos ⟨hknown, hworn, Bool.eq_false_of_not_eq_true hlacks⟩]
            exact makes_part rfl

theorem makes_retract (steps : Nat) (ref : Ref) (cls : ClassId) (machine : Machine) :
    Makes (Machine.retract steps ref cls) machine ((retract steps ref cls).parts machine) := by
  cases steps with
  | zero => exact calm_exhausted.makes
  | succ steps =>
    unfold Machine.retract
    rw [parts]
    refine makes_modifyObject ?_ (makes_part rfl)
    exact fun _ => rfl

theorem makes_grant (steps : Nat) (step : Step) (machine : Machine) :
    Makes (grant steps step) machine
      ((granting? steps step machine).map fun part => (part, machine)).toList := by
  cases step with
  | retract | call => exact (calm_pure _).makes
  | extend target cls =>
    cases target with
    | object ref => exact makes_part rfl
    | _ => exact (calm_pure _).makes

theorem makes_carryOut (steps : Nat) (step : Step) (machine : Machine) :
    Makes (carryOut steps step) machine
      ((carrying? steps step machine).map fun part => (part, machine)).toList := by
  cases step with
  | extend | retract => exact (calm_pure _).makes
  | call target caller slot args =>
    show Makes _ machine (((boundRoutine? machine.heap target slot).map fun routine =>
      invoke steps routine target caller args).map fun part => (part, machine)).toList
    refine makes_get ?_
    cases boundRoutine? machine.heap target slot with
    | some routine => exact (makes_part rfl).then_calm fun _ _ _ => calm_pure _
    | none => exact (calm_pure _).makes

theorem makes_revoke (steps : Nat) (step : Step) (machine : Machine) :
    Makes (revoke steps step) machine
      ((revoking? steps step machine).map fun part => (part, machine)).toList := by
  cases step with
  | extend | call => exact (calm_pure _).makes
  | retract target cls =>
    cases target with
    | object ref => exact makes_part rfl
    | _ => exact (calm_pure _).makes

theorem makes_enforce (steps : Nat) (batch : List Step) (machine : Machine) :
    Makes (Machine.enforce steps batch) machine ((enforce steps batch).parts machine) := by
  cases steps with
  | zero => exact calm_exhausted.makes
  | succ steps =>
    rw [enforce_succ]
    exact makes_each (makes_grant steps) fun _ _ => makes_each (makes_carryOut steps) fun _ _ =>
      makes_each_last (makes_revoke steps) batch

theorem makes_call (steps : Nat) (ref : Ref) (name : String) (caller : Value) (args : List Value)
    (machine : Machine) :
    Makes (Machine.call steps ref name caller args) machine
      ((call steps ref name caller args).parts machine) := by
  unfold Machine.call
  refine makes_get ?_
  rw [parts]
  cases (machine.heap.object? ref).bind fun object => machine.findMethod? object name with
  | none => exact (calm_fail _).makes
  | some sig =>
    dsimp only
    split
    case isTrue => exact (calm_fail _).makes
    case isFalse hcount =>
      rw [if_pos (Decidable.of_not_not hcount)]
      exact makes_part rfl

theorem makes_restore (steps : Nat) (snapshot : Snapshot) (machine : Machine) :
    Makes (Machine.restore steps snapshot) machine ((restore steps snapshot).parts machine) := by
  rw [restore_eq, parts]
  refine (Restore.calm_stock snapshot).then_makes fun made _ _ => ?_
  refine (Restore.calm_fill made.2 snapshot).then_makes fun _ _ _ => ?_
  refine (Restore.calm_value snapshot.root _).then_makes fun root _ _ => ?_
  refine (makes_each_last (fun _ _ => makes_part rfl) made.2).then_calm fun _ _ _ => ?_
  refine Calm.bind (Calm.forM (fun ref after => ?_) _) fun _ _ _ => calm_pure root
  exact Still.of_heap rfl (le_refl after.tick)

theorem makes_parts {activity : Activity} (hquiet : activity.source? = none) (machine : Machine) :
    Makes activity.run machine (activity.parts machine) := by
  cases activity with
  | eval steps code frame => exact (makes_eval steps code frame machine hquiet).discard
  | evalStep steps code frame => exact (makes_evalStep steps code frame machine).discard
  | exec steps instr frame => exact (makes_exec steps instr frame machine).discard
  | block steps body frame => exact (makes_block steps body frame machine).discard
  | repeatWhile steps cond body frame =>
    exact (makes_repeatWhile steps cond body frame machine).discard
  | repeatFor steps first second body rounds frame =>
    exact (makes_repeatFor steps first second body rounds frame machine).discard
  | invoke steps routine this caller args =>
    exact (makes_invoke steps routine this caller args machine).discard
  | dispatch steps target slot caller args ret =>
    exact (makes_dispatch steps target slot caller args ret machine).discard
  | initializeMissing steps ref => exact (makes_initializeMissing steps ref machine).discard
  | remanifest steps ref => exact (makes_remanifest steps ref machine).discard
  | instantiate steps cls => exact (makes_instantiate steps cls machine).discard
  | extend steps ref cls => exact (makes_extend steps ref cls machine).discard
  | retract steps ref cls => exact (makes_retract steps ref cls machine).discard
  | enforce steps batch => exact (makes_enforce steps batch machine).discard
  | call steps ref name caller args =>
    exact (makes_call steps ref name caller args machine).discard
  | restore steps snapshot => exact (makes_restore steps snapshot machine).discard

end Activity

end Attire
