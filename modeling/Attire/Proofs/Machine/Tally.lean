import Attire.Proofs.Machine.Operations
import Attire.Proofs.Runs.Safety

namespace Attire

open Machine

/-! Accounts of a run that only concern which identifiers there are and how deep calls are nested.
Programs need no permission to keep to them. -/

namespace Heap

variable {heap : Heap} {id : Id} {ref : Ref} {entity : Entity} {container : Value}

/-- The identifiers of all entities, in the order in which these were made. -/
def ids (heap : Heap) : List Id := heap.cells.toList.map Cell.id

theorem ids_alloc : (heap.alloc id entity).2.ids = heap.ids ++ [id] := by
  simp [ids, alloc]

@[simp] theorem ids_modify (ref : Ref) (change : Entity → Entity) :
    (heap.modify ref change).ids = heap.ids := by
  refine List.ext_getElem? fun index => ?_
  simp only [ids, List.getElem?_map, Array.getElem?_toList, cell_modify]
  split
  · cases heap.cells[index]? <;> rfl
  · rfl

@[simp] theorem ids_modifyObject (ref : Ref) (change : Object → Object) :
    (heap.modifyObject ref change).ids = heap.ids :=
  ids_modify ref _

@[simp] theorem ids_modifyArray (ref : Ref) (change : Array Value → Array Value) :
    (heap.modifyArray ref change).ids = heap.ids :=
  ids_modify ref _

@[simp] theorem ids_modifyMap (ref : Ref) (change : MapEntries → MapEntries) :
    (heap.modifyMap ref change).ids = heap.ids :=
  ids_modify ref _

@[simp] theorem ids_modifySet (ref : Ref) (change : SetEntries → SetEntries) :
    (heap.modifySet ref change).ids = heap.ids :=
  ids_modify ref _

theorem ids_putElement {kind : IndexKind} {index value : Value} :
    (heap.putElement container kind index value).ids = heap.ids := by
  unfold putElement
  split <;> simp

theorem ids_addElement {value : Value} : (heap.addElement container value).ids = heap.ids := by
  unfold addElement
  split <;> simp

theorem ids_removeElement {key : MapKey} : (heap.removeElement container key).ids = heap.ids := by
  unfold removeElement
  split <;> simp

theorem ids_writeField {key : FieldKey} {value : Value} :
    (writeField container key value heap).ids = heap.ids := by
  unfold writeField
  split <;> simp

end Heap

/-- The machines differ in neither the identifiers that are used and minted nor in how deep calls
are nested and may be. -/
structure Machine.Tallies (before after : Machine) : Prop where
  odometer : after.odometer = before.odometer
  ids : after.heap.ids = before.heap.ids
  depth : after.depth = before.depth
  callLimit : after.callLimit = before.callLimit

theorem Machine.installManifest_tallies (ref : Ref) (machine : Machine) :
    Yields (installManifest ref) machine (fun _ after => machine.Tallies after)
      fun _ _ => False := by
  cases hobject : machine.heap.object? ref with
  | none => exact (yields_installManifest_none hobject).mpr ⟨rfl, rfl, rfl, rfl⟩
  | some object =>
    exact (yields_installManifest hobject).mpr ⟨rfl, Heap.ids_modifyObject .., rfl, rfl⟩

/-- A regime that nothing can break but making entities and calls, in which snapshots may be
faulty. -/
structure Account (World : Type) [Preorder World] extends Regime World where
  faulty (content : SnapshotFault) : fault (.snapshot content)
  congr {world : World} {machine after : Machine} : fits world machine → machine.Tallies after →
    fits world after

namespace Account

variable {World : Type} [Preorder World] {account : Account World} {world : World}
variable {machine : Machine}

theorem safe_onHeap (h : account.fits world machine) {change : Heap → Heap}
    (hids : (change machine.heap).ids = machine.heap.ids) :
    account.Safe world (onHeap change) machine fun _ _ _ => True :=
  ⟨world, le_refl world, account.congr h ⟨rfl, hids, rfl, rfl⟩, trivial⟩

theorem safe_installManifest (h : account.fits world machine) (ref : Ref) :
    account.Safe world (installManifest ref) machine fun _ _ _ => True :=
  (installManifest_tallies ref machine).imp
    (fun _ _ htallies => ⟨world, le_refl world, account.congr h htallies, trivial⟩)
    fun _ _ hfalse => hfalse.elim

theorem safe_random (h : account.fits world machine) (ref : Ref) :
    account.Safe world (drawRandom ref) machine fun _ _ _ => True := by
  refine Regime.Safe.modifyGet (le_refl world) ?_ trivial
  split
  · exact account.congr h ⟨rfl, Heap.ids_modifyObject .., rfl, rfl⟩
  · exact h

theorem safe_super (h : account.fits world machine) (cls : ClassId) (slot : MethodSlot) :
    account.Safe world (classRoutine? cls slot) machine fun _ _ _ => True := by
  have htable : ∀ manifest, account.Safe world (methodTable manifest) machine
      fun _ _ _ => True := fun manifest =>
    Regime.Safe.modifyGet (le_refl world) (account.congr h ⟨rfl, rfl, rfl, rfl⟩) trivial
  exact Regime.Safe.bind_get (Regime.Safe.bind (htable _) fun _ _ _ _ h _ =>
    Regime.Safe.pure h trivial)

end Account

/-- An account that goes on when entities are made and when calls begin and end, whatever errors
they end in. -/
structure Tally (World : Type) [Preorder World] extends Account World where
  enter : World → World
  leave : World → World
  blames (error : RuntimeError) : fault error
  made {world : World} {machine : Machine} (entity : Entity) : fits world machine →
    fits world { machine with
      odometer := machine.odometer.next.2
      heap := (machine.heap.alloc machine.odometer.peek entity).2 }
  enter_fits {world : World} {machine : Machine} : fits world machine →
    machine.depth < machine.callLimit →
    fits (enter world) { machine with depth := machine.depth + 1 }
  leave_fits {world next : World} {machine : Machine} : enter world ≤ next → fits next machine →
    world ≤ leave next ∧ fits (leave next) { machine with depth := machine.depth - 1 }

namespace Tally

variable {World : Type} [Preorder World] {tally : Tally World} {world : World} {machine : Machine}
variable {α : Type} {post : World → Machine → α → Prop}

theorem safe_create (h : tally.fits world machine) (entity : Entity) {next : Ref → Run α}
    (hnext : ∀ ref after, tally.fits world after → tally.Safe world (next ref) after post) :
    tally.Safe world (create entity >>= next) machine post :=
  yields_bind.mpr (yields_create.mpr (hnext _ _ (tally.made entity h)))

theorem safe_reshape (h : tally.fits world machine) {ref : Ref} {change : Object → Object} :
    tally.Safe world
      ((onHeap fun heap => heap.modifyObject ref change) >>= fun _ => installManifest ref) machine
      fun _ _ _ => True :=
  Regime.Safe.bind (Account.safe_onHeap h (Heap.ids_modifyObject ..)) fun _ _ _ _ h _ =>
    Account.safe_installManifest h ref

theorem safe_fresh (h : tally.fits world machine) (entity : Entity) (make : Ref → Value) :
    tally.Safe world (create entity >>= fun ref => pure (make ref)) machine
      fun _ _ answer => answer.Within (fun _ => True) fun _ => True :=
  safe_create h entity fun ref _ h => Regime.Safe.pure h (make ref).within_all

theorem safe_clone (h : tally.fits world machine) (value : Value) :
    tally.Safe world (cloneValue value) machine
      fun _ _ answer => answer.Within (fun _ => True) fun _ => True := by
  unfold cloneValue
  refine Regime.Safe.bind_get ?_
  split
  case h_5 => exact Regime.Safe.pure h (Value.within_all _)
  all_goals
    dsimp only
    split
    · exact safe_fresh h _ _
    · exact Regime.Safe.pure h (Value.within_all _)

/-- The discipline of all programs. -/
def discipline (tally : Tally World) : Discipline World where
  toRegime := tally.toRegime
  permit := .all
  entity _ _ := True
  writable _ _ := True
  enter := tally.enter
  leave := tally.leave
  entity_mono _ _ := trivial
  writable_mono _ _ := trivial
  writable_of_write _ := trivial
  call_of_write _ := trivial
  depth_fault := tally.blames _
  new_fault _ _ _ := tally.blames _
  wear_fault _ _ _ := tally.blames _
  enter_fits := tally.enter_fits
  leave_fits := tally.leave_fits
  enter_entity _ := trivial
  leave_entity _ := trivial
  const_within _ _ := Value.within_all _
  contents_within _ _ value _ := value.within_all
  bound_within _ _ _ := Instr.allWithin_all _
  initializer_within _ _ _ _ := Instr.allWithin_all _
  pending_store _ _ _ := trivial
  super_safe h _ := (Account.safe_super h _ _).mono fun _ _ answer _ _ _ => by
    cases answer with
    | some routine => exact Instr.allWithin_all routine.body
    | none => exact fun _ => tally.blames _
  newArray_safe h _ := safe_fresh h _ _
  newMap_safe h := safe_fresh h _ _
  newSet_safe h := safe_fresh h _ _
  newSuggestion_fits h := tally.congr h ⟨rfl, rfl, rfl, rfl⟩
  clone_safe h _ := safe_clone h _
  random_safe h := Account.safe_random h _
  initialize_safe h _ _ _ := Account.safe_onHeap h (Heap.ids_modifyObject ..)
  create_safe h _ _ := safe_create h _ fun ref _ h =>
    Regime.Safe.bind (Account.safe_installManifest h ref) fun _ _ _ _ h _ =>
      Regime.Safe.pure h ⟨trivial, trivial⟩
  imply_safe h _ _ _ _ _ := Account.safe_onHeap h (Heap.ids_modifyObject ..)
  extend_safe h _ _ _ _ _ := safe_reshape h
  retract_safe h _ := safe_reshape h
  writeField_safe h _ _ _ := Account.safe_onHeap h Heap.ids_writeField
  putElement_safe h _ _ _ := Account.safe_onHeap h Heap.ids_putElement
  addElement_safe h _ _ := Account.safe_onHeap h Heap.ids_addElement
  removeElement_safe h _ := Account.safe_onHeap h Heap.ids_removeElement

/-! What hosts ask for. -/

theorem safe_call (h : tally.fits world machine) (steps : Nat) (ref : Ref) (name : String)
    (caller : Value) (args : List Value) :
    tally.Safe world (Machine.call steps ref name caller args) machine fun _ _ _ => True := by
  unfold Machine.call
  refine Regime.Safe.bind_get ?_
  split
  case h_1 => exact Regime.Safe.fail h (tally.blames _)
  case h_2 sig _ =>
    split
    case isTrue => exact Regime.Safe.fail h (tally.blames _)
    case isFalse =>
      exact ((tally.discipline.keeps steps).dispatch h trivial (Value.within_all _)
        caller.within_all fun arg _ => arg.within_all).mono fun _ _ _ _ _ _ => trivial

end Tally

end Attire
