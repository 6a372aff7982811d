import Attire.Proofs.Runs.Contents
import Attire.Proofs.Runs.Permit
import Attire.Proofs.Runs.Rules

namespace Attire

/-! Runs of permitted code.  A discipline is a regime that every single operation keeps to, if it
is permitted; the main statement is that whole runs keep to it then. -/

open Machine

structure Discipline (World : Type) [Preorder World] extends Regime World where
  permit : Permit
  /-- The entities that values may mention. -/
  entity : World → Value → Prop
  /-- The objects whose fields may be initialized. -/
  writable : World → Ref → Prop
  /-- The world of a call made in a world. -/
  enter : World → World
  /-- The world to which a call comes back. -/
  leave : World → World
  entity_mono {world world' : World} {value : Value} :
    world ≤ world' → entity world value → entity world' value
  writable_mono {world world' : World} {ref : Ref} :
    world ≤ world' → writable world ref → writable world' ref
  writable_of_write {world : World} {ref : Ref} : permit.write → writable world ref
  call_of_write {slot : MethodSlot} : permit.write → permit.call slot
  depth_fault {limit : Nat} : fault (.callDepthExceeded limit)
  new_fault {world : World} {machine : Machine} {cls : ClassId} : fits world machine →
    permit.new cls → machine.classes.contains cls = false → fault (.unknownClass cls)
  wear_fault {world : World} {machine : Machine} {cls : ClassId} : fits world machine →
    permit.wear cls → machine.classes.contains cls = false → fault (.unknownClass cls)
  enter_fits {world : World} {machine : Machine} : fits world machine →
    machine.depth < machine.callLimit →
    fits (enter world) { machine with depth := machine.depth + 1 }
  leave_fits {world next : World} {machine : Machine} : enter world ≤ next → fits next machine →
    world ≤ leave next ∧ fits (leave next) { machine with depth := machine.depth - 1 }
  enter_entity {world : World} {value : Value} : entity world value → entity (enter world) value
  leave_entity {world : World} {value : Value} : entity world value → entity (leave world) value
  const_within {world : World} {machine : Machine} {value : Value} : fits world machine →
    permit.const value → value.Within (entity world) permit.wear
  contents_within {world : World} {machine : Machine} {ref : Ref} {stored : Entity} :
    fits world machine → machine.heap.entity? ref = some stored →
    ∀ value ∈ stored.contents, value.Within (entity world) permit.wear
  bound_within {world : World} {machine : Machine} {target : Value} {slot : MethodSlot}
    {routine : Routine} : fits world machine → permit.call slot →
    boundRoutine? machine.heap target slot = some routine → routine.Within permit
  initializer_within {world : World} {machine : Machine} {ref : Ref} {object : Object}
    {field : PendingField} {routine : Routine} : fits world machine →
    machine.heap.object? ref = some object → field ∈ machine.pendingFields object →
    field.initializer = some routine → routine.Within permit
  pending_store {world : World} {machine : Machine} {ref : Ref} {object : Object}
    {field : PendingField} : fits world machine → machine.heap.object? ref = some object →
    field ∈ machine.pendingFields object → permit.store field.key
  super_safe {world : World} {machine : Machine} {parent : ClassId} {slot : MethodSlot} :
    fits world machine → permit.superCall parent slot →
    toRegime.Safe world (classRoutine? parent slot) machine fun _ _ answer =>
      match answer with
      | some routine => routine.Within permit
      | none => ∀ cls, fault (.missingSuperMethod cls slot.name)
  newArray_safe {world : World} {machine : Machine} {items : Array Value} :
    fits world machine →
    (∀ item ∈ items.toList, item.Within (entity world) permit.wear) →
    toRegime.Safe world (newArray items) machine fun world _ answer =>
      answer.Within (entity world) permit.wear
  newMap_safe {world : World} {machine : Machine} : fits world machine →
    toRegime.Safe world newMap machine fun world _ answer =>
      answer.Within (entity world) permit.wear
  newSet_safe {world : World} {machine : Machine} : fits world machine →
    toRegime.Safe world newSet machine fun world _ answer =>
      answer.Within (entity world) permit.wear
  newSuggestion_fits {world : World} {machine : Machine} : fits world machine →
    fits world { machine with suggestions := machine.suggestions + 1 }
  clone_safe {world : World} {machine : Machine} {value : Value} : fits world machine →
    value.Within (entity world) permit.wear →
    toRegime.Safe world (cloneValue value) machine fun world _ answer =>
      answer.Within (entity world) permit.wear
  random_safe {world : World} {machine : Machine} {ref : Ref} : fits world machine →
    toRegime.Safe world (drawRandom ref) machine fun _ _ _ => True
  initialize_safe {world : World} {machine : Machine} {ref : Ref} {key : FieldKey}
    {value : Value} : fits world machine → writable world ref → permit.store key →
    value.Within (entity world) permit.wear →
    toRegime.Safe world (initializeField ref key value) machine fun _ _ _ => True
  create_safe {world : World} {machine : Machine} {cls : ClassId} : fits world machine →
    permit.new cls → machine.classes.contains cls = true →
    toRegime.Safe world
      (create (.object { worn := [cls] }) >>= fun ref => installManifest ref >>= fun _ => pure ref)
      machine fun world _ ref => entity world (.object ref) ∧ writable world ref
  imply_safe {world : World} {machine : Machine} {ref : Ref} {cls : ClassId} {object : Object} :
    fits world machine → permit.write → permit.wear cls →
    machine.classes.contains cls = true → machine.heap.object? ref = some object →
    object.embodies cls = true →
    toRegime.Safe world
      (onHeap fun heap => heap.modifyObject ref fun object =>
        { object with worn := object.worn ++ [cls] })
      machine fun _ _ _ => True
  extend_safe {world : World} {machine : Machine} {ref : Ref} {cls : ClassId} {object : Object} :
    fits world machine → permit.write → permit.wear cls →
    machine.classes.contains cls = true → machine.heap.object? ref = some object →
    object.embodies cls = false →
    toRegime.Safe world
      ((onHeap fun heap => heap.modifyObject ref fun object =>
        { object with worn := object.worn ++ [cls] }) >>= fun _ => installManifest ref)
      machine fun _ _ _ => True
  retract_safe {world : World} {machine : Machine} {ref : Ref} {cls : ClassId} :
    fits world machine → permit.write →
    toRegime.Safe world
      ((onHeap fun heap => heap.modifyObject ref fun object =>
        { object with worn := object.worn.filter (· ≠ cls) }) >>= fun _ => installManifest ref)
      machine fun _ _ _ => True
  writeField_safe {world : World} {machine : Machine} {target value : Value} {key : FieldKey} :
    fits world machine → permit.write → permit.store key →
    value.Within (entity world) permit.wear →
    toRegime.Safe world (onHeap (writeField target key value)) machine fun _ _ _ => True
  putElement_safe {world : World} {machine : Machine} {container index value : Value}
    {kind : IndexKind} : fits world machine → permit.write →
    index.Within (entity world) permit.wear → value.Within (entity world) permit.wear →
    toRegime.Safe world (onHeap fun heap => heap.putElement container kind index value) machine
      fun _ _ _ => True
  addElement_safe {world : World} {machine : Machine} {container value : Value} :
    fits world machine → permit.write → value.Within (entity world) permit.wear →
    toRegime.Safe world (onHeap fun heap => heap.addElement container value) machine
      fun _ _ _ => True
  removeElement_safe {world : World} {machine : Machine} {container : Value} {key : MapKey} :
    fits world machine → permit.write →
    toRegime.Safe world (onHeap fun heap => heap.removeElement container key) machine
      fun _ _ _ => True

end Attire
