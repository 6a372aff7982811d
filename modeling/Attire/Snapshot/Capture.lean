import Attire.Machine.Basic
import Attire.Snapshot.Basic

namespace Attire

/-! Taking snapshots. -/

def ClassRegistry.qualifiedNameOf (classes : ClassRegistry) (id : ClassId) : String :=
  ((classes.get? id).map ClassDef.qualifiedName).getD ""

namespace Capture

mutual

/-- A value without the heap. -/
def value (classes : ClassRegistry) : Value → SnapValue
  | .null => .null
  | .num number => .num number
  | .bool value => .bool value
  | .text content => .text content
  | .object ref | .array ref | .map ref | .set ref => .ref ref.id.text
  | .tuple items => .tuple (values classes items)
  | .suggestion _ steps => .suggestion (stepsOf classes steps)

def values (classes : ClassRegistry) : List Value → List SnapValue
  | [] => []
  | item :: rest => value classes item :: values classes rest

def step (classes : ClassRegistry) : Step → SnapStep
  | .extend target cls => .extend (value classes target) (classes.qualifiedNameOf cls)
  | .retract target cls => .retract (value classes target) (classes.qualifiedNameOf cls)
  | .call target caller slot args =>
    .call (value classes target) (value classes caller) (classes.qualifiedNameOf slot.origin)
      slot.name (values classes args)

def stepsOf (classes : ClassRegistry) : List Step → List SnapStep
  | [] => []
  | item :: rest => step classes item :: stepsOf classes rest

end

mutual

/-- The entities that a value mentions, from left to right. -/
def refs : Value → List Ref
  | .object ref | .array ref | .map ref | .set ref => [ref]
  | .tuple items => refsOfAll items
  | .suggestion _ steps => refsOfSteps steps
  | .null | .num _ | .bool _ | .text _ => []

def refsOfAll : List Value → List Ref
  | [] => []
  | item :: rest => refs item ++ refsOfAll rest

def refsOfStep : Step → List Ref
  | .extend target _ | .retract target _ => refs target
  | .call target caller _ args => refs target ++ refs caller ++ refsOfAll args

def refsOfSteps : List Step → List Ref
  | [] => []
  | step :: rest => refsOfStep step ++ refsOfSteps rest

end

/-- The fields that a snapshot shows of an object. -/
def shownFields (machine : Machine) (object : Object) : List (String × Value) :=
  (machine.fieldViews object).filterMap fun view =>
    (object.fields.get? view.key).map fun value => (view.cls ++ "." ++ view.name, value)

/-- The contents of an entity, in the order in which it is walked. -/
def contents (machine : Machine) : Entity → List Value
  | .object object => (shownFields machine object).map Prod.snd
  | .array items => items.toList
  | .map entries => entries.values.flatMap fun (key, value) => [key, value]
  | .set entries => entries.values

def entityRefs (machine : Machine) (ref : Ref) : List Ref :=
  match machine.heap.entity? ref with
  | some entity => refsOfAll (contents machine entity)
  | none => []

/-- Enters an entity under its identifier. -/
def record (machine : Machine) (ref : Ref) (snapshot : Snapshot) : Snapshot :=
  let classes := machine.classes
  let id := ref.id.text
  match machine.heap.entity? ref with
  | some (.object object) =>
    let fields := (shownFields machine object).map fun (key, item) => (key, value classes item)
    { snapshot with
      objects := snapshot.objects.insert id {
        classes := object.worn.map classes.qualifiedNameOf
        fields := Ordered.ofList fields } }
  | some (.array items) =>
    { snapshot with arrays := snapshot.arrays.insert id (values classes items.toList) }
  | some (.map entries) =>
    let pairs := entries.values.map fun (key, item) => (value classes key, value classes item)
    { snapshot with maps := snapshot.maps.insert id pairs }
  | some (.set entries) =>
    { snapshot with sets := snapshot.sets.insert id (values classes entries.values) }
  | none => snapshot

/-- Walks the graph in depth, from the entities of `stack`.  The first entity met with an identifier
is the one recorded. -/
def walk (machine : Machine) : Nat → List Ref → List Id → Snapshot → Snapshot
  | 0, _, _, snapshot => snapshot
  | _, [], _, snapshot => snapshot
  | steps + 1, ref :: stack, seen, snapshot =>
    if ref.id ∈ seen then
      walk machine steps stack seen snapshot
    else
      walk machine steps (entityRefs machine ref ++ stack) (ref.id :: seen)
        (record machine ref snapshot)

/-- The number of mentions in the whole heap: no walk takes more steps. -/
def mentions (machine : Machine) : Nat :=
  machine.heap.cells.foldl
    (fun count cell => count + (refsOfAll (contents machine cell.entity)).length) 0

end Capture

/-- Everything that can be reached from a value. -/
def Machine.capture (machine : Machine) (root : Value) : Snapshot :=
  let start := Capture.refs root
  Capture.walk machine (start.length + Capture.mentions machine + 1) start []
    { root := Capture.value machine.classes root }

end Attire
