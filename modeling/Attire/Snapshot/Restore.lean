import Attire.Machine.Eval
import Attire.Snapshot.Basic

namespace Attire

/-! Rebuilding the entities of a snapshot. -/

namespace Restore

def fault {α : Type} (fault : SnapshotFault) : Run α := Machine.fail (.snapshot fault)

/-- The entities of the snapshot by their identifiers. -/
abbrev Shells := Table String Value

def findClass (name : String) : Run ClassId := do
  match (← get).classes.find? name with
  | some id => return id
  | none => fault (.unknownClass name)

def parseId (text : String) : Run Id := do
  match Id.ofText? text with
  | some id => return id
  | none => fault (.invalidId text)

mutual

def value (shells : Shells) : SnapValue → Run Value
  | .null => return .null
  | .num number => return .num number
  | .bool value => return .bool value
  | .text content => return .text content
  | .ref id =>
    match shells.get? id with
    | some entity => return entity
    | none => fault (.danglingReference id)
  | .tuple items => return .tuple (← values shells items)
  | .suggestion steps => do Machine.newSuggestion (← stepsOf shells steps)

def values (shells : Shells) : List SnapValue → Run (List Value)
  | [] => return []
  | item :: rest => do
    let item ← value shells item
    return item :: (← values shells rest)

def step (shells : Shells) : SnapStep → Run Step
  | .extend target cls => do
    let target ← value shells target
    return .extend target (← findClass cls)
  | .retract target cls => do
    let target ← value shells target
    return .retract target (← findClass cls)
  | .call target caller origin method args => do
    let target ← value shells target
    let caller ← value shells caller
    let origin ← findClass origin
    return .call target caller ⟨origin, method⟩ (← values shells args)

def stepsOf (shells : Shells) : List SnapStep → Run (List Step)
  | [] => return []
  | item :: rest => do
    let item ← step shells item
    return item :: (← stepsOf shells rest)

end

/-- Enters an empty entity, whose identifier no other one of the snapshot has. -/
def addShell (shells : Shells) (id : String) (entity : Value) : Run Shells :=
  if shells.contains id then fault (.repeatedId id) else return shells.insert id entity

/-- An object that wears its classes and stores nothing yet. -/
def objectShell (id : String) (object : SnapObject) : Run Ref := do
  let fresh ← parseId id
  let worn ← object.classes.mapM findClass
  let ref ← Machine.alloc fresh (.object { worn })
  Machine.installManifest ref
  return ref

/-- Empty containers of one kind. -/
def containerShells {α : Type} (empty : Entity) (make : Ref → Value) (table : Ordered String α)
    (shells : Shells) : Run Shells :=
  table.keys.foldlM
    (fun shells id => do
      let ref ← Machine.alloc (← parseId id) empty
      addShell shells id (make ref))
    shells

/-- A field key up to its last dot, and the rest. -/
def splitKey (key : String) : Option (String × String) :=
  let reversed := key.toList.reverse
  match reversed.dropWhile (· ≠ '.') with
  | [] => none
  | _ :: front =>
    some (String.ofList front.reverse, String.ofList (reversed.takeWhile (· ≠ '.')).reverse)

/-- Stores a field under its key, if the object is of the class that declares it. -/
def fillField (shells : Shells) (ref : Ref) (key : String) (content : SnapValue) : Run Unit := do
  let some (name, fieldName) := splitKey key | fault (.invalidFieldKey key)
  let cls ← findClass name
  let some field := ((← get).classes.get? cls).bind fun cls => cls.ownFieldKey? fieldName
    | fault (.unknownField key)
  let content ← value shells content
  Machine.onHeap fun heap => heap.modifyObject ref fun object =>
    if object.embodies cls then { object with fields := object.fields.insert field content }
    else object

def refOf? (shells : Shells) (id : String) : Option Ref := (shells.get? id).bind Value.ref?

def fillArray (shells : Shells) (id : String) (items : List SnapValue) : Run Unit := do
  let items ← values shells items
  match refOf? shells id with
  | some ref => Machine.onHeap fun heap => heap.modifyArray ref fun _ => items.toArray
  | none => return

def fillMap (shells : Shells) (id : String) (entries : List (SnapValue × SnapValue)) :
    Run Unit := do
  let entries ← entries.mapM fun (key, item) => do
    let key ← value shells key
    let item ← value shells item
    return (MapKey.ofValue key, (key, item))
  match refOf? shells id with
  | some ref => Machine.onHeap fun heap => heap.modifyMap ref fun _ => Ordered.ofList entries
  | none => return

def fillSet (shells : Shells) (id : String) (items : List SnapValue) : Run Unit := do
  let items ← values shells items
  let entries := items.map fun item => (MapKey.ofValue item, item)
  match refOf? shells id with
  | some ref => Machine.onHeap fun heap => heap.modifySet ref fun _ => Ordered.ofList entries
  | none => return

end Restore

open Restore

namespace Machine

/-- Rebuilds the entities of a snapshot and yields its root.  They keep their identifiers, which are
never minted again; fields that the snapshot lacks are initialized. -/
def restore (steps : Nat) (snapshot : Snapshot) : Run Value := do
  let (shells, objects) ← snapshot.objects.entries.foldlM
    (fun (shells, objects) (id, object) => do
      let ref ← objectShell id object
      return (← addShell shells id (.object ref), objects ++ [(ref, object)]))
    ((∅ : Shells), ([] : List (Ref × SnapObject)))
  let shells ← containerShells (.array #[]) .array snapshot.arrays shells
  let shells ← containerShells (.map ∅) .map snapshot.maps shells
  let shells ← containerShells (.set ∅) .set snapshot.sets shells
  objects.forM fun (ref, object) =>
    object.fields.entries.forM fun (key, content) => fillField shells ref key content
  snapshot.arrays.entries.forM fun (id, items) => fillArray shells id items
  snapshot.maps.entries.forM fun (id, entries) => fillMap shells id entries
  snapshot.sets.entries.forM fun (id, items) => fillSet shells id items
  let root ← value shells snapshot.root
  objects.forM fun (ref, _) => initializeMissing steps ref
  (shells.values.filterMap Value.ref?).forM fun ref =>
    modify fun machine => { machine with odometer := machine.odometer.advancePast ref.id }
  return root

end Machine

end Attire
