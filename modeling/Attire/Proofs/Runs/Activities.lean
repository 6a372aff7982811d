import Attire.Proofs.Snapshot.Phases

namespace Attire

open Machine

/-! What takes place in the course of a run. -/

/-! The operands of an expression or a statement are evaluated from left to right, before anything
else happens. -/

def Code.operands : Code → List Code
  | .num _ | .text _ | .bool _ | .null | .default _ _ | .local _ | .this | .caller | .const _
  | .new _ | .newArray | .newMap | .newSet | .random | .suggest _ => []
  | .tee _ value | .getField value _ _ | .tupleGet value _ | .logic _ value _ | .not value
  | .neg value | .cast value _ | .clone value | .len value | .is value _ => [value]
  | .index left _ right _ | .arith _ left right | .concat left right | .compare _ left right
  | .equal _ left right | .merge left right | .has left right => [left, right]
  | .call object _ args _ => object :: args
  | .superCall _ _ items | .array items | .tuple items => items

def StepCode.operands : StepCode → List Code
  | .extend target _ | .retract target _ => [target]
  | .call target _ args => target :: args

def Instr.operands : Instr → List Code
  | .eval value | .store _ value | .branch value _ _ | .forEach value _ _ _ _ | .return value
  | .extend value _ | .retract value _ | .enforce value => [value]
  | .setField object _ value => [object, value]
  | .setIndex target _ index value => [target, index, value]
  | .append target value | .remove target value => [target, value]
  | .while _ _ | .break | .continue | .release _ => []

/-- The frame in which a round of a loop begins. -/
def Frame.enterRound (frame : Frame) (first : Nat) (second : Option Nat)
    (round : Value × Option Value) : Frame :=
  match second, round.2 with
  | some slot, some value => (frame.set first round.1).set slot value
  | _, _ => frame.set first round.1

namespace Machine

/-- The fields that the object lacks. -/
def pending (machine : Machine) (ref : Ref) : List PendingField :=
  ((machine.heap.object? ref).map machine.pendingFields).getD []

/-- What is done for one pending field. -/
def initializePending (steps : Nat) (ref : Ref) (field : PendingField) : Run PUnit := do
  let value ←
    match field.initializer with
    | some routine => invoke steps routine (.object ref) .null []
    | none => defaultValue true field.ty
  initializeField ref field.key value

theorem initializeMissing_succ (steps : Nat) (ref : Ref) : initializeMissing (steps + 1) ref =
    get >>= fun machine => (machine.pending ref).forM (initializePending steps ref) := by
  rw [initializeMissing]
  rfl

/-! The steps of a batch, in the three passes over it. -/

def grant (steps : Nat) : Step → Run PUnit
  | .extend (.object ref) cls => extend steps ref cls
  | _ => return

def carryOut (steps : Nat) : Step → Run PUnit
  | .call target caller slot args => do
    match boundRoutine? (← get).heap target slot with
    | some routine =>
      let _ ← invoke steps routine target caller args
      return
    | none => return
  | _ => return

def revoke (steps : Nat) : Step → Run PUnit
  | .retract (.object ref) cls => retract steps ref cls
  | _ => return

theorem enforce_succ (steps : Nat) (batch : List Step) : enforce (steps + 1) batch =
    (batch.forM (grant steps) >>= fun _ => batch.forM (carryOut steps) >>= fun _ =>
      batch.forM (revoke steps)) := by
  rw [enforce]
  rfl

end Machine

/-- A part of a run, with how many nested steps it may take. -/
inductive Activity
  | eval (steps : Nat) (code : Code) (frame : Frame)
  | evalStep (steps : Nat) (code : StepCode) (frame : Frame)
  | exec (steps : Nat) (instr : Instr) (frame : Frame)
  | block (steps : Nat) (body : List Instr) (frame : Frame)
  | repeatWhile (steps : Nat) (cond : Code) (body : List Instr) (frame : Frame)
  | repeatFor (steps : Nat) (first : Nat) (second : Option Nat) (body : List Instr)
      (rounds : List (Value × Option Value)) (frame : Frame)
  | invoke (steps : Nat) (routine : Routine) (this caller : Value) (args : List Value)
  | dispatch (steps : Nat) (target : Value) (slot : MethodSlot) (caller : Value)
      (args : List Value) (ret : Ty)
  | initializeMissing (steps : Nat) (ref : Ref)
  | remanifest (steps : Nat) (ref : Ref)
  | instantiate (steps : Nat) (cls : ClassId)
  | extend (steps : Nat) (ref : Ref) (cls : ClassId)
  | retract (steps : Nat) (ref : Ref) (cls : ClassId)
  | enforce (steps : Nat) (batch : List Step)
  | call (steps : Nat) (ref : Ref) (name : String) (caller : Value) (args : List Value)
  | restore (steps : Nat) (snapshot : Snapshot)

namespace Activity

/-- What is done; the answer does not matter. -/
def run : Activity → Run PUnit
  | eval steps code frame => discard ((Machine.eval steps code).run frame)
  | evalStep steps code frame => discard ((Machine.evalStep steps code).run frame)
  | exec steps instr frame => discard ((Machine.exec steps instr).run frame)
  | block steps body frame => discard ((Machine.execBlock steps body).run frame)
  | repeatWhile steps cond body frame => discard ((Machine.repeatWhile steps cond body).run frame)
  | repeatFor steps first second body rounds frame =>
    discard ((Machine.repeatFor steps first second body rounds).run frame)
  | invoke steps routine this caller args => discard (Machine.invoke steps routine this caller args)
  | dispatch steps target slot caller args ret =>
    discard (Machine.dispatch steps target slot caller args ret)
  | initializeMissing steps ref => discard (Machine.initializeMissing steps ref)
  | remanifest steps ref => discard (Machine.remanifest steps ref)
  | instantiate steps cls => discard (Machine.instantiate steps cls)
  | extend steps ref cls => discard (Machine.extend steps ref cls)
  | retract steps ref cls => discard (Machine.retract steps ref cls)
  | enforce steps batch => discard (Machine.enforce steps batch)
  | call steps ref name caller args => discard (Machine.call steps ref name caller args)
  | restore steps snapshot => discard (Machine.restore steps snapshot)

/-- An activity that is carried out on the first machine begins another one on the second
machine. -/
inductive Begins : Activity → Machine → Activity → Machine → Prop
  | operand {steps : Nat} {code operand : Code} {done rest : List Code} {values : List Value}
      {frame frame' : Frame} {machine machine' : Machine} :
      code.operands = done ++ operand :: rest →
      (done.mapM (Machine.eval steps)).run frame machine = .ok (values, frame') machine' →
      Begins (eval (steps + 1) code frame) machine (eval steps operand frame') machine'
  | right {steps : Nat} {left right : Code} {value : Value} {frame frame' : Frame}
      {machine machine' : Machine} :
      (Machine.eval steps left).run frame machine = .ok (value, frame') machine' →
      Begins (eval (steps + 1) (.logic value.asBool left right) frame) machine
        (eval steps right frame') machine'
  | part {steps : Nat} {parts done rest : List StepCode} {part : StepCode} {made : List Step}
      {frame frame' : Frame} {machine machine' : Machine} : parts = done ++ part :: rest →
      (done.mapM (Machine.evalStep steps)).run frame machine = .ok (made, frame') machine' →
      Begins (eval (steps + 1) (.suggest parts) frame) machine (evalStep steps part frame') machine'
  | dispatched {steps : Nat} {object : Code} {slot : MethodSlot} {args : List Code} {ret : Ty}
      {target : Value} {values : List Value} {frame frame' : Frame} {machine machine' : Machine} :
      ((object :: args).mapM (Machine.eval steps)).run frame machine =
        .ok (target :: values, frame') machine' →
      Begins (eval (steps + 1) (.call object slot args ret) frame) machine
        (dispatch steps target slot frame'.this values ret) machine'
  | supered {steps : Nat} {parent : ClassId} {slot : MethodSlot} {args : List Code}
      {values : List Value} {routine : Routine} {frame frame' : Frame}
      {machine machine' machine'' : Machine} :
      (args.mapM (Machine.eval steps)).run frame machine = .ok (values, frame') machine' →
      classRoutine? parent slot machine' = .ok (some routine) machine'' →
      Begins (eval (steps + 1) (.superCall parent slot args) frame) machine
        (invoke steps routine frame'.this frame'.caller values) machine''
  | new {steps : Nat} {cls : ClassId} {frame : Frame} {machine : Machine} :
      Begins (eval (steps + 1) (.new cls) frame) machine (instantiate steps cls) machine
  | stepOperand {steps : Nat} {code : StepCode} {operand : Code} {done rest : List Code}
      {values : List Value} {frame frame' : Frame} {machine machine' : Machine} :
      code.operands = done ++ operand :: rest →
      (done.mapM (Machine.eval steps)).run frame machine = .ok (values, frame') machine' →
      Begins (evalStep (steps + 1) code frame) machine (eval steps operand frame') machine'
  | instrOperand {steps : Nat} {instr : Instr} {operand : Code} {done rest : List Code}
      {values : List Value} {frame frame' : Frame} {machine machine' : Machine} :
      instr.operands = done ++ operand :: rest →
      (done.mapM (Machine.eval steps)).run frame machine = .ok (values, frame') machine' →
      Begins (exec (steps + 1) instr frame) machine (eval steps operand frame') machine'
  | branch {steps : Nat} {cond : Code} {yes no : List Instr} {value : Value} {frame frame' : Frame}
      {machine machine' : Machine} :
      (Machine.eval steps cond).run frame machine = .ok (value, frame') machine' →
      Begins (exec (steps + 1) (.branch cond yes no) frame) machine
        (block steps (if value.asBool then yes else no) frame') machine'
  | loop {steps : Nat} {cond : Code} {body : List Instr} {frame : Frame} {machine : Machine} :
      Begins (exec (steps + 1) (.while cond body) frame) machine
        (repeatWhile steps cond body frame) machine
  | each {steps : Nat} {source : Code} {kind : IterKind} {first : Nat} {second : Option Nat}
      {body : List Instr} {value : Value} {frame frame' : Frame} {machine machine' : Machine} :
      (Machine.eval steps source).run frame machine = .ok (value, frame') machine' →
      Begins (exec (steps + 1) (.forEach source kind first second body) frame) machine
        (repeatFor steps first second body (machine'.heap.rounds value kind second.isSome) frame')
        machine'
  | extended {steps : Nat} {target : Code} {cls : ClassId} {ref : Ref} {frame frame' : Frame}
      {machine machine' : Machine} :
      (Machine.eval steps target).run frame machine = .ok (.object ref, frame') machine' →
      Begins (exec (steps + 1) (.extend target cls) frame) machine (extend steps ref cls) machine'
  | retracted {steps : Nat} {target : Code} {cls : ClassId} {ref : Ref} {frame frame' : Frame}
      {machine machine' : Machine} :
      (Machine.eval steps target).run frame machine = .ok (.object ref, frame') machine' →
      Begins (exec (steps + 1) (.retract target cls) frame) machine (retract steps ref cls) machine'
  | enforced {steps : Nat} {code : Code} {stamp : Nat} {batch : List Step} {frame frame' : Frame}
      {machine machine' : Machine} :
      (Machine.eval steps code).run frame machine = .ok (.suggestion stamp batch, frame') machine' →
      Begins (exec (steps + 1) (.enforce code) frame) machine (enforce steps batch) machine'
  | first {steps : Nat} {instr : Instr} {rest : List Instr} {frame : Frame} {machine : Machine} :
      Begins (block (steps + 1) (instr :: rest) frame) machine (exec steps instr frame) machine
  | rest {steps : Nat} {instr : Instr} {rest : List Instr} {frame frame' : Frame}
      {machine machine' : Machine} :
      (Machine.exec steps instr).run frame machine = .ok (.next, frame') machine' →
      Begins (block (steps + 1) (instr :: rest) frame) machine (block steps rest frame') machine'
  | cond {steps : Nat} {cond : Code} {body : List Instr} {frame : Frame} {machine : Machine} :
      Begins (repeatWhile (steps + 1) cond body frame) machine (eval steps cond frame) machine
  | round {steps : Nat} {cond : Code} {body : List Instr} {value : Value} {frame frame' : Frame}
      {machine machine' : Machine} :
      (Machine.eval steps cond).run frame machine = .ok (value, frame') machine' → value.asBool →
      Begins (repeatWhile (steps + 1) cond body frame) machine (block steps body frame') machine'
  | again {steps : Nat} {cond : Code} {body : List Instr} {value : Value} {flow : Flow}
      {frame frame' frame'' : Frame} {machine machine' machine'' : Machine} :
      (Machine.eval steps cond).run frame machine = .ok (value, frame') machine' → value.asBool →
      (Machine.execBlock steps body).run frame' machine' = .ok (flow, frame'') machine'' →
      flow = .next ∨ flow = .continue →
      Begins (repeatWhile (steps + 1) cond body frame) machine
        (repeatWhile steps cond body frame'') machine''
  | roundOf {steps first : Nat} {second : Option Nat} {body : List Instr}
      {round : Value × Option Value} {rounds : List (Value × Option Value)} {frame : Frame}
      {machine : Machine} :
      Begins (repeatFor (steps + 1) first second body (round :: rounds) frame) machine
        (block steps body (frame.enterRound first second round)) machine
  | nextOf {steps first : Nat} {second : Option Nat} {body : List Instr}
      {round : Value × Option Value} {rounds : List (Value × Option Value)} {flow : Flow}
      {frame frame' : Frame} {machine machine' : Machine} :
      (Machine.execBlock steps body).run (frame.enterRound first second round) machine =
        .ok (flow, frame') machine' →
      flow = .next ∨ flow = .continue →
      Begins (repeatFor (steps + 1) first second body (round :: rounds) frame) machine
        (repeatFor steps first second body rounds frame') machine'
  | body {steps : Nat} {routine : Routine} {this caller : Value} {args : List Value}
      {machine : Machine} : machine.depth < machine.callLimit →
      Begins (invoke (steps + 1) routine this caller args) machine
        (block steps routine.body (Frame.ofRoutine routine this caller args))
        { machine with depth := machine.depth + 1 }
  | bound {steps : Nat} {target caller : Value} {slot : MethodSlot} {args : List Value} {ret : Ty}
      {routine : Routine} {machine : Machine} :
      boundRoutine? machine.heap target slot = some routine →
      Begins (dispatch (steps + 1) target slot caller args ret) machine
        (invoke steps routine target caller args) machine
  | initializer {steps : Nat} {ref : Ref} {done rest : List PendingField} {field : PendingField}
      {routine : Routine} {machine machine' : Machine} :
      machine.pending ref = done ++ field :: rest →
      done.forM (initializePending steps ref) machine = .ok ⟨⟩ machine' →
      field.initializer = some routine →
      Begins (initializeMissing (steps + 1) ref) machine
        (invoke steps routine (.object ref) .null []) machine'
  | missing {steps : Nat} {ref : Ref} {machine machine' : Machine} :
      installManifest ref machine = .ok ⟨⟩ machine' →
      Begins (remanifest (steps + 1) ref) machine (initializeMissing steps ref) machine'
  | made {steps : Nat} {cls : ClassId} {ref : Ref} {machine machine' : Machine} :
      machine.classes.contains cls →
      create (.object { worn := [cls] }) machine = .ok ref machine' →
      Begins (instantiate (steps + 1) cls) machine (remanifest steps ref) machine'
  | worn {steps : Nat} {ref : Ref} {cls : ClassId} {object : Object} {machine : Machine} :
      machine.classes.contains cls → machine.heap.object? ref = some object →
      cls ∉ object.worn → object.embodies cls = false →
      Begins (extend (steps + 1) ref cls) machine (remanifest steps ref) { machine with
        heap := machine.heap.modifyObject ref fun object =>
          { object with worn := object.worn ++ [cls] } }
  | doffed {steps : Nat} {ref : Ref} {cls : ClassId} {machine : Machine} :
      Begins (retract (steps + 1) ref cls) machine (remanifest steps ref) { machine with
        heap := machine.heap.modifyObject ref fun object =>
          { object with worn := object.worn.filter (· ≠ cls) } }
  | granted {steps : Nat} {batch done rest : List Step} {ref : Ref} {cls : ClassId}
      {machine machine' : Machine} : batch = done ++ .extend (.object ref) cls :: rest →
      done.forM (grant steps) machine = .ok ⟨⟩ machine' →
      Begins (enforce (steps + 1) batch) machine (extend steps ref cls) machine'
  | carriedOut {steps : Nat} {batch done rest : List Step} {target caller : Value}
      {slot : MethodSlot} {args : List Value} {routine : Routine}
      {machine machine' machine'' : Machine} :
      batch = done ++ .call target caller slot args :: rest →
      batch.forM (grant steps) machine = .ok ⟨⟩ machine' →
      done.forM (carryOut steps) machine' = .ok ⟨⟩ machine'' →
      boundRoutine? machine''.heap target slot = some routine →
      Begins (enforce (steps + 1) batch) machine (invoke steps routine target caller args) machine''
  | revoked {steps : Nat} {batch done rest : List Step} {ref : Ref} {cls : ClassId}
      {machine machine' machine'' machine''' : Machine} :
      batch = done ++ .retract (.object ref) cls :: rest →
      batch.forM (grant steps) machine = .ok ⟨⟩ machine' →
      batch.forM (carryOut steps) machine' = .ok ⟨⟩ machine'' →
      done.forM (revoke steps) machine'' = .ok ⟨⟩ machine''' →
      Begins (enforce (steps + 1) batch) machine (retract steps ref cls) machine'''
  | called {steps : Nat} {ref : Ref} {name : String} {caller : Value} {args : List Value}
      {object : Object} {sig : MethodSig} {machine : Machine} :
      machine.heap.object? ref = some object → machine.findMethod? object name = some sig →
      sig.params.length = args.length →
      Begins (call steps ref name caller args) machine
        (dispatch steps (.object ref) sig.slot caller args sig.ret) machine
  | completed {steps : Nat} {snapshot : Snapshot} {shells : Restore.Shells}
      {objects done rest : List (Ref × SnapObject)} {object : SnapObject} {ref : Ref} {root : Value}
      {machine stocked filled rooted machine' : Machine} :
      Restore.stock snapshot machine = .ok (shells, objects) stocked →
      Restore.fill shells objects snapshot stocked = .ok ⟨⟩ filled →
      Restore.value shells snapshot.root filled = .ok root rooted →
      objects = done ++ (ref, object) :: rest →
      (done.forM fun entry => Machine.initializeMissing steps entry.1) rooted = .ok ⟨⟩ machine' →
      Begins (restore steps snapshot) machine (initializeMissing steps ref) machine'

/-- Only a call puts what it begins in the midst of one more call. -/
def calls : Activity → Nat
  | invoke .. => 1
  | _ => 0

/-- The second activity takes place in the course of the first one, in the midst of so many calls
that the first one makes. -/
inductive Comprises (activity : Activity) (machine : Machine) : Nat → Activity → Machine → Prop
  | itself : Comprises activity machine 0 activity machine
  | begins {calls : Nat} {part next : Activity} {start after : Machine} :
      Comprises activity machine calls part start → Begins part start next after →
      Comprises activity machine (calls + part.calls) next after

theorem Comprises.of_part {activity part next : Activity} {machine start after : Machine}
    {calls : Nat} (hbegins : activity.Begins machine part start)
    (h : part.Comprises start calls next after) :
    activity.Comprises machine (activity.calls + calls) next after := by
  induction h with
  | itself =>
    have h := Comprises.itself.begins hbegins
    rwa [Nat.zero_add] at h
  | begins _ hnext ih =>
    rw [← Nat.add_assoc]
    exact .begins ih hnext

end Activity

end Attire
