import Attire.Machine.Heap

namespace Attire

/-! The state in which programs run. -/

inductive SnapshotFault
  | unknownClass (qualifiedName : String)
  | danglingReference (id : String)
  | invalidId (id : String)
  | repeatedId (id : String)
  | invalidFieldKey (key : String)
  | unknownField (key : String)
deriving DecidableEq, Repr

def SnapshotFault.message : SnapshotFault → String
  | unknownClass qualifiedName => s!"unknown class '{qualifiedName}'"
  | danglingReference id => s!"dangling reference '{id}'"
  | invalidId id => s!"invalid identifier '{id}'"
  | repeatedId id => s!"identifier '{id}' used twice"
  | invalidFieldKey key => s!"invalid field key '{key}'"
  | unknownField key => s!"unknown field '{key}'"

inductive RuntimeError
  | unknownClass (cls : ClassId)
  | missingSuperMethod (cls method : String)
  | callDepthExceeded (limit : Nat)
  | unknownMethod (name : String)
  | argumentCount (method : String) (expected actual : Nat)
  | snapshot (fault : SnapshotFault)
deriving DecidableEq, Repr

def RuntimeError.message : RuntimeError → String
  | unknownClass cls => s!"Unknown class {cls.describe}"
  | missingSuperMethod cls method =>
    s!"Class '{cls}' has no implementation of '{method}' to call through super"
  | callDepthExceeded limit => s!"Call depth limit of {limit} exceeded"
  | unknownMethod name => s!"Object has no method '{name}'"
  | argumentCount method expected actual =>
    s!"Method '{method}' expects {expected} arguments, got {actual}"
  | snapshot fault => s!"Snapshot error: {fault.message}"

structure Machine where
  classes : ClassRegistry := {}
  tables : TableCache := {}
  odometer : Odometer := {}
  heap : Heap := {}
  /-- The number of suggestions made so far. -/
  suggestions : Nat := 0
  depth : Nat := 0
  tick : Nat := 0
  callLimit : Nat := 256
deriving Inhabited

/-- Why a run ends without an answer: an error of the program, or too few steps allowed. -/
inductive Halt
  | error (error : RuntimeError)
  | exhausted
deriving DecidableEq, Repr

/-- A run changes the machine, also when it ends in an error. -/
abbrev Run (α : Type) := EStateM Halt Machine α

namespace Machine

def fail {α : Type} (error : RuntimeError) : Run α := throw (.error error)

def mint : Run Id := modifyGet fun machine =>
  let (id, odometer) := machine.odometer.next
  (id, { machine with odometer })

/-- The next logical tick; random streams start anew in it. -/
def advanceTick : Run Nat := modifyGet fun machine =>
  (machine.tick + 1, { machine with tick := machine.tick + 1 })

def alloc (id : Id) (entity : Entity) : Run Ref := modifyGet fun machine =>
  let (ref, heap) := machine.heap.alloc id entity
  (ref, { machine with heap })

/-- A new entity under a new identifier. -/
def create (entity : Entity) : Run Ref := do
  alloc (← mint) entity

def onHeap (change : Heap → Heap) : Run Unit :=
  modify fun machine => { machine with heap := change machine.heap }

def newArray (items : Array Value) : Run Value := return .array (← create (.array items))

def newMap : Run Value := return .map (← create (.map ∅))

def newSet : Run Value := return .set (← create (.set ∅))

/-- A suggestion unlike every other one. -/
def newSuggestion (steps : List Step) : Run Value := modifyGet fun machine =>
  (.suggestion machine.suggestions steps,
    { machine with suggestions := machine.suggestions + 1 })

mutual

/-- The default value of a type.  A constructed default has empty containers; otherwise they are
null, as objects always are. -/
def defaultValue (constructed : Bool) : Ty → Run Value
  | .num => return .num 0.0
  | .text => return .text ""
  | .bool => return .bool false
  | .suggestion => newSuggestion []
  | .tuple elements => return .tuple (← defaultValues constructed elements)
  | .array _ => if constructed then newArray #[] else return .null
  | .map _ _ => if constructed then newMap else return .null
  | .set _ => if constructed then newSet else return .null
  | .void | .null | .object _ | .method .. => return .null

def defaultValues (constructed : Bool) : List Ty → Run (List Value)
  | [] => return []
  | ty :: rest => do
    let value ← defaultValue constructed ty
    return value :: (← defaultValues constructed rest)

end

/-- A copy of an entity under a new identifier, with the same contents.  An object's copy starts a
random stream of its own. -/
def cloneValue (value : Value) : Run Value := do
  let heap := (← get).heap
  match value with
  | .object ref =>
    match heap.object? ref with
    | some object => return .object (← create (.object { object with random := {} }))
    | none => return value
  | .array ref =>
    match heap.array? ref with
    | some items => return .array (← create (.array items))
    | none => return value
  | .map ref =>
    match heap.map? ref with
    | some entries => return .map (← create (.map entries))
    | none => return value
  | .set ref =>
    match heap.set? ref with
    | some entries => return .set (← create (.set entries))
    | none => return value
  | _ => return value

/-- The next number of an object's random stream. -/
def drawRandom (ref : Ref) : Run Float := modifyGet fun machine =>
  match machine.heap.object? ref with
  | some object =>
    let (number, random) := object.random.next ref.id machine.tick
    (number, { machine with
      heap := machine.heap.modifyObject ref fun object => { object with random } })
  | none => (0.0, machine)

/-- The method table of a manifest, through the cache. -/
def methodTable (manifest : List ClassId) : Run MethodTable := modifyGet fun machine =>
  let (table, tables) := machine.tables.request machine.classes manifest
  (table, { machine with tables })

/-- Drops the classes from the given number on, and the method tables that mention them. -/
def truncateClasses (count : Nat) : Run Unit := modify fun machine =>
  if count < machine.classes.size then
    { machine with
      tables := machine.tables.evictFrom count
      classes := machine.classes.truncate count }
  else
    machine

/-- Recomputes an object's manifest and method table from what it wears, and drops the fields of
classes that are gone. -/
def installManifest (ref : Ref) : Run Unit := do
  let machine ← get
  match machine.heap.object? ref with
  | none => return
  | some object =>
    let manifest := machine.classes.manifest object.worn
    let table ← methodTable manifest
    let types := manifest.eraseDups
    onHeap fun heap => heap.modifyObject ref fun object =>
      { object with
        manifest
        types
        table
        fields := object.fields.restrict fun key => key.owner ∈ types }

end Machine

/-- A field that an object has, as hosts see it. -/
structure FieldView where
  key : FieldKey
  cls : String
  name : String
  ty : Ty
deriving Inhabited, Repr

namespace Machine

/-- The fields of an object in the order of its manifest and of their declaration. -/
def fieldViews (machine : Machine) (object : Object) : List FieldView :=
  (object.manifest.filterMap machine.classes.get?).flatMap fun cls =>
    cls.ownFieldKeys.map fun (key, field) =>
      { key, cls := cls.qualifiedName, name := field.name, ty := field.ty }

/-- The value of the field with a name; of several such fields the most derived one counts. -/
def getField? (machine : Machine) (object : Object) (name : String) : Option Value := do
  let view ← (machine.fieldViews object).reverse.find? fun view => view.name = name
  object.fields.get? view.key

/-- The method with a name, as the most derived class of the manifest has it. -/
def findMethod? (machine : Machine) (object : Object) (name : String) : Option MethodSig :=
  object.manifest.reverse.findSome? fun id =>
    (machine.classes.get? id).bind fun cls => cls.method? name

/-- A field that an object does not store yet, with what to initialize it from. -/
structure PendingField where
  key : FieldKey
  ty : Ty
  initializer : Option Routine

def pendingFields (machine : Machine) (object : Object) : List PendingField :=
  (object.manifest.filterMap machine.classes.get?).flatMap fun cls =>
    (cls.ownFieldKeys.filter fun entry => !object.fields.contains entry.1).map
      fun (key, field) => { key, ty := field.ty, initializer := cls.initializers.get? field.name }

end Machine

end Attire
