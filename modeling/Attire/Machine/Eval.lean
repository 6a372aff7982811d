import Attire.Machine.Element

namespace Attire

/-! The meaning of compiled bodies.  Gaps never stop a run: what is missing reads as a default,
writes through null are dropped, and a call that nobody answers yields a default.  Every function
takes the number of nested steps that it may take. -/

structure Frame where
  slots : Array Value
  this : Value
  caller : Value
deriving Inhabited

namespace Frame

def get (frame : Frame) (slot : Nat) : Value := frame.slots[slot]?.getD .null

def set (frame : Frame) (slot : Nat) (value : Value) : Frame :=
  { frame with slots := frame.slots.setIfInBounds slot value }

def ofRoutine (routine : Routine) (this caller : Value) (args : List Value) : Frame where
  slots :=
    let given := args.take routine.arity
    (given ++ List.replicate (max routine.slots routine.arity - given.length) Value.null).toArray
  this := this
  caller := caller

end Frame

/-- How a statement ended. -/
inductive Flow
  | next
  | «break»
  | «continue»
  | «return» (value : Value)
deriving Inhabited

/-- A run inside of a frame. -/
abbrev Exec (α : Type) := StateT Frame (EStateM Halt Machine) α

namespace Machine

def exhausted {α : Type} : Run α := throw .exhausted

/-- Runs one call deeper, and comes back up however the run ends. -/
def nested {α : Type} (run : Run α) : Run α := fun machine =>
  match run { machine with depth := machine.depth + 1 } with
  | .ok answer machine => .ok answer { machine with depth := machine.depth - 1 }
  | .error halt machine => .error halt { machine with depth := machine.depth - 1 }

def setSlot (slot : Nat) (value : Value) : Exec Unit := modify fun frame => frame.set slot value

def currentHeap : Exec Heap := return (← getThe Machine).heap

/-- Stores an initialized field, unless its class is gone or the field has a value by now. -/
def initializeField (ref : Ref) (key : FieldKey) (value : Value) : Run Unit :=
  onHeap fun heap => heap.modifyObject ref fun object =>
    if object.embodies key.owner then
      { object with fields := object.fields.insertIfNew key value }
    else
      object

/-- Stores a field, if the object still is of the class that declares it. -/
def writeField (target : Value) (key : FieldKey) (value : Value) (heap : Heap) : Heap :=
  match target with
  | .object ref => heap.modifyObject ref fun object =>
    if object.embodies key.owner then { object with fields := object.fields.insert key value }
    else object
  | _ => heap

def readField? (heap : Heap) (target : Value) (key : FieldKey) : Option Value :=
  match target with
  | .object ref => (heap.object? ref).bind fun object => object.fields.get? key
  | _ => none

def isInstance (heap : Heap) (value : Value) (cls : ClassId) : Bool :=
  match value with
  | .object ref => (heap.object? ref).any fun object => object.embodies cls
  | _ => false

/-- A cast never fails: it makes a text of anything, and null of an object of another class. -/
def castValue (heap : Heap) (value : Value) : Ty → Value
  | .text => .text value.toText
  | .object cls => if isInstance heap value cls then value else .null
  | _ => value

/-- The routine that an object has bound to a slot at present. -/
def boundRoutine? (heap : Heap) (target : Value) (slot : MethodSlot) : Option Routine :=
  match target with
  | .object ref => (heap.object? ref).bind fun object => object.table.get? slot
  | _ => none

/-- The routine that a class has bound to a slot, whatever overrides it. -/
def classRoutine? (cls : ClassId) (slot : MethodSlot) : Run (Option Routine) := do
  let table ← methodTable ((← get).classes.manifest [cls])
  return table.get? slot

mutual

def eval : Nat → Code → Exec Value
  | 0, _ => liftM (exhausted (α := Value))
  | steps + 1, code => do
    match code with
    | .num number => return .num number
    | .text content => return .text content
    | .bool value => return .bool value
    | .null => return .null
    | .default ty constructed => defaultValue constructed ty
    | .local slot => return (← get).get slot
    | .tee slot value =>
      let value ← eval steps value
      setSlot slot value
      return value
    | .this => return (← get).this
    | .caller => return (← get).caller
    | .const value => return value
    | .getField object key ty =>
      let target ← eval steps object
      match readField? (← currentHeap) target key with
      | some value => return value
      | none => defaultValue false ty
    | .index object kind index ty =>
      let container ← eval steps object
      let index ← eval steps index
      match (← currentHeap).element? container kind index with
      | some value => return value
      | none => defaultValue false ty
    | .tupleGet tuple index =>
      match ← eval steps tuple with
      | .tuple items => return items[index]?.getD .null
      | _ => return .null
    | .call object slot args ret =>
      let target ← eval steps object
      let args ← args.mapM (eval steps)
      dispatch steps target slot (← get).this args ret
    | .superCall parent slot args =>
      let args ← args.mapM (eval steps)
      match ← classRoutine? parent slot with
      | some routine => invoke steps routine (← get).this (← get).caller args
      | none =>
        let cls := (← getThe Machine).classes.get? parent
        liftM (fail (α := Value)
          (.missingSuperMethod ((cls.map ClassDef.name).getD "") slot.name))
    | .new cls => return .object (← instantiate steps cls)
    | .newArray => newArray #[]
    | .newMap => newMap
    | .newSet => newSet
    | .array elements =>
      let items ← elements.mapM (eval steps)
      newArray items.toArray
    | .tuple elements => return .tuple (← elements.mapM (eval steps))
    | .arith op left right =>
      let left ← eval steps left
      let right ← eval steps right
      return .num (op.apply left.asNum right.asNum)
    | .concat left right =>
      let left ← eval steps left
      let right ← eval steps right
      return .text (left.toText ++ right.toText)
    | .compare op left right =>
      let left ← eval steps left
      let right ← eval steps right
      return .bool (op.apply left right)
    | .equal negate left right =>
      let left ← eval steps left
      let right ← eval steps right
      return .bool (left.same right != negate)
    | .logic conjunction left right =>
      let left ← eval steps left
      if left.asBool = conjunction then
        return .bool (← eval steps right).asBool
      else
        return .bool left.asBool
    | .not operand => return .bool !(← eval steps operand).asBool
    | .neg operand => return .num (-(← eval steps operand).asNum)
    | .merge left right =>
      let left ← eval steps left
      let right ← eval steps right
      newSuggestion (mergeSteps left right)
    | .cast value target =>
      let value ← eval steps value
      return castValue (← currentHeap) value target
    | .clone value =>
      let value ← eval steps value
      cloneValue value
    | .len value =>
      let value ← eval steps value
      return .num (Float.ofNat ((← currentHeap).length value))
    | .has collection key =>
      let collection ← eval steps collection
      let key ← eval steps key
      return .bool ((← currentHeap).hasKey collection (MapKey.ofValue key))
    | .random =>
      match (← get).this with
      | .object ref => return .num (← drawRandom ref)
      | _ => return .num 0.0
    | .is value cls =>
      let value ← eval steps value
      return .bool (isInstance (← currentHeap) value cls)
    | .suggest parts =>
      let parts ← parts.mapM (evalStep steps)
      newSuggestion parts

def evalStep : Nat → StepCode → Exec Step
  | 0, _ => liftM (exhausted (α := Step))
  | steps + 1, code => do
    match code with
    | .extend target cls => return .extend (← eval steps target) cls
    | .retract target cls => return .retract (← eval steps target) cls
    | .call target slot args =>
      let target ← eval steps target
      let caller := (← get).this
      return .call target caller slot (← args.mapM (eval steps))

def exec : Nat → Instr → Exec Flow
  | 0, _ => liftM (exhausted (α := Flow))
  | steps + 1, instr => do
    match instr with
    | .eval code =>
      let _ ← eval steps code
      return .next
    | .store slot value =>
      let value ← eval steps value
      setSlot slot value
      return .next
    | .setField object key value =>
      let target ← eval steps object
      let value ← eval steps value
      onHeap (writeField target key value)
      return .next
    | .setIndex target kind index value =>
      let container ← eval steps target
      let index ← eval steps index
      let value ← eval steps value
      onHeap fun heap => heap.putElement container kind index value
      return .next
    | .append target value =>
      let container ← eval steps target
      let value ← eval steps value
      onHeap fun heap => heap.addElement container value
      return .next
    | .remove target value =>
      let container ← eval steps target
      let value ← eval steps value
      onHeap fun heap => heap.removeElement container (MapKey.ofValue value)
      return .next
    | .branch cond yes no =>
      let cond ← eval steps cond
      if cond.asBool then execBlock steps yes else execBlock steps no
    | .while cond body => repeatWhile steps cond body
    | .forEach source kind first second body =>
      let source ← eval steps source
      let rounds := (← currentHeap).rounds source kind second.isSome
      repeatFor steps first second body rounds
    | .break => return .break
    | .continue => return .continue
    | .return code => return .return (← eval steps code)
    | .extend target cls =>
      match ← eval steps target with
      | .object ref =>
        extend steps ref cls
        return .next
      | _ => return .next
    | .retract target cls =>
      match ← eval steps target with
      | .object ref =>
        retract steps ref cls
        return .next
      | _ => return .next
    | .enforce code =>
      match ← eval steps code with
      | .suggestion _ batch =>
        enforce steps batch
        return .next
      | _ => return .next
    | .release slots =>
      slots.forM fun slot => setSlot slot .null
      return .next

def execBlock : Nat → List Instr → Exec Flow
  | 0, _ => liftM (exhausted (α := Flow))
  | _ + 1, [] => return .next
  | steps + 1, instr :: rest => do
    match ← exec steps instr with
    | .next => execBlock steps rest
    | flow => return flow

def repeatWhile : Nat → Code → List Instr → Exec Flow
  | 0, _, _ => liftM (exhausted (α := Flow))
  | steps + 1, cond, body => do
    let answer ← eval steps cond
    if answer.asBool then
      match ← execBlock steps body with
      | .break => return .next
      | .return value => return .return value
      | .next | .continue => repeatWhile steps cond body
    else
      return .next

def repeatFor : Nat → Nat → Option Nat → List Instr → List (Value × Option Value) → Exec Flow
  | 0, _, _, _, _ => liftM (exhausted (α := Flow))
  | _ + 1, _, _, _, [] => return .next
  | steps + 1, first, second, body, (a, b) :: rest => do
    setSlot first a
    match second, b with
    | some slot, some b => setSlot slot b
    | _, _ => pure ()
    match ← execBlock steps body with
    | .break => return .next
    | .return value => return .return value
    | .next | .continue => repeatFor steps first second body rest

/-- Runs a routine in a frame of its own. -/
def invoke : Nat → Routine → Value → Value → List Value → Run Value
  | 0, _, _, _, _ => exhausted
  | steps + 1, routine, this, caller, args => do
    let machine ← get
    if machine.callLimit ≤ machine.depth then
      fail (.callDepthExceeded machine.callLimit)
    else
      let frame := Frame.ofRoutine routine this caller args
      match ← nested ((execBlock steps routine.body).run' frame) with
      | .return value => return value
      | _ => defaultValue false routine.ret

/-- Calls the routine that the target has bound to a slot, if any. -/
def dispatch : Nat → Value → MethodSlot → Value → List Value → Ty → Run Value
  | 0, _, _, _, _, _ => exhausted
  | steps + 1, target, slot, caller, args, ret => do
    match boundRoutine? (← get).heap target slot with
    | some routine => invoke steps routine target caller args
    | none => defaultValue false ret

/-- Gives an object the fields that its manifest has and it does not. -/
def initializeMissing : Nat → Ref → Run Unit
  | 0, _ => exhausted
  | steps + 1, ref => do
    let machine ← get
    let pending := ((machine.heap.object? ref).map machine.pendingFields).getD []
    pending.forM fun field => do
      let value ←
        match field.initializer with
        | some routine => invoke steps routine (.object ref) .null []
        | none => defaultValue true field.ty
      initializeField ref field.key value

def remanifest : Nat → Ref → Run Unit
  | 0, _ => exhausted
  | steps + 1, ref => do
    installManifest ref
    initializeMissing steps ref

/-- A new object that wears one class, with all of its fields. -/
def instantiate : Nat → ClassId → Run Ref
  | 0, _ => exhausted
  | steps + 1, cls => do
    if (← get).classes.contains cls then
      let ref ← create (.object { worn := [cls] })
      remanifest steps ref
      return ref
    else
      fail (.unknownClass cls)

/-- Puts a class on an object.  A class that it wears changes nothing; one that is implied is only
added to what it wears. -/
def extend : Nat → Ref → ClassId → Run Unit
  | 0, _, _ => exhausted
  | steps + 1, ref, cls => do
    let machine ← get
    if machine.classes.contains cls then
      match machine.heap.object? ref with
      | none => return
      | some object =>
        if cls ∈ object.worn then
          return
        onHeap fun heap => heap.modifyObject ref fun object =>
          { object with worn := object.worn ++ [cls] }
        if object.embodies cls then
          return
        remanifest steps ref
    else
      fail (.unknownClass cls)

/-- Takes a class off an object. -/
def retract : Nat → Ref → ClassId → Run Unit
  | 0, _, _ => exhausted
  | steps + 1, ref, cls => do
    onHeap fun heap => heap.modifyObject ref fun object =>
      { object with worn := object.worn.filter (· ≠ cls) }
    remanifest steps ref

/-- Carries out a batch: every extension, then every call, then every retraction.  Steps without a
target, and calls that the target does not answer, are skipped. -/
def enforce : Nat → List Step → Run Unit
  | 0, _ => exhausted
  | steps + 1, batch => do
    batch.forM fun step =>
      match step with
      | .extend (.object ref) cls => extend steps ref cls
      | _ => return
    batch.forM fun step =>
      match step with
      | .call target caller slot args => do
        match boundRoutine? (← get).heap target slot with
        | some routine =>
          let _ ← invoke steps routine target caller args
          return
        | none => return
      | _ => return
    batch.forM fun step =>
      match step with
      | .retract (.object ref) cls => retract steps ref cls
      | _ => return

end

/-- Calls a method by its name, on behalf of a host. -/
def call (steps : Nat) (ref : Ref) (name : String) (caller : Value) (args : List Value) :
    Run Value := do
  let machine ← get
  match (machine.heap.object? ref).bind fun object => machine.findMethod? object name with
  | none => fail (.unknownMethod name)
  | some sig =>
    if sig.params.length ≠ args.length then
      fail (.argumentCount name sig.params.length args.length)
    else
      dispatch steps (.object ref) sig.slot caller args sig.ret

end Machine

end Attire
