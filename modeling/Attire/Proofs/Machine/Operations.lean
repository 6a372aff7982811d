import Attire.Proofs.Machine.Sound
import Attire.Proofs.Runs.Discipline

namespace Attire

open Machine

/-! Operations on sound machines. -/

namespace Heap

variable {heap : Heap} {ref : Ref} {id : Id} {entity : Entity} {object : Object}

theorem object?_alloc :
    (heap.alloc id (.object object)).2.object? (heap.alloc id (.object object)).1 =
      some object := by
  simp [object?_eq_some, entity?_eq_some, alloc, size]

theorem modifyObject_alloc {change : Object → Object} :
    (heap.alloc id (.object object)).2.modifyObject (heap.alloc id (.object object)).1 change =
      (heap.alloc id (.object (change object))).2 := by
  refine congrArg Heap.mk (Array.ext_getElem? fun index => ?_)
  simp only [alloc, size, Array.getElem?_modify, Array.getElem?_push]
  by_cases h : index = heap.cells.size
  · simp [h]
  · simp [h, Ne.symm h]

theorem object?_modifyObject {change : Object → Object} (h : heap.object? ref = some object) :
    (heap.modifyObject ref change).object? ref = some (change object) := by
  obtain ⟨cell, hcell, hentity⟩ := entity?_eq_some.mp (object?_eq_some.mp h)
  refine object?_eq_some.mpr (entity?_eq_some.mpr ⟨{ cell with entity := .object _ }, ?_, rfl⟩)
  rw [modifyObject, cell_modify, if_pos rfl, hcell, Option.map_some, hentity]

theorem modifyObject_modifyObject {first second : Object → Object} :
    (heap.modifyObject ref first).modifyObject ref second =
      heap.modifyObject ref fun object => second (first object) := by
  refine congrArg Heap.mk (Array.ext_getElem? fun index => ?_)
  simp only [modifyObject, modify, Array.getElem?_modify]
  split
  · cases heap.cells[index]? with
    | none => rfl
    | some cell =>
      obtain ⟨id, entity⟩ := cell
      cases entity <;> rfl
  · rfl

end Heap

/-- The object with a manifest and a method table of it. -/
def Object.fitted (manifest : List ClassId) (table : MethodTable) (object : Object) : Object :=
  { object with
    manifest
    types := manifest.eraseDups
    table
    fields := object.fields.restrict fun key => key.owner ∈ manifest.eraseDups }

namespace Object.Coherent

variable {classes : ClassRegistry} {object : Object} {key : FieldKey} {value : Value}

theorem fitted {table : MethodTable} (hworn : ∀ cls ∈ object.worn, classes.contains cls)
    (htable : table.methods = classes.methodsOf (classes.manifest object.worn))
    (hfields : ∀ key ∈ object.fields.keys, classes.HasField key) :
    (object.fitted (classes.manifest object.worn) table).Coherent classes where
  worn := hworn
  manifest := rfl
  types _ := List.mem_eraseDups
  table := htable
  fields key hmem := by
    obtain ⟨entry, hentry, rfl⟩ := List.mem_map.mp hmem
    obtain ⟨hold, howner⟩ := Table.mem_restrict.mp hentry
    exact ⟨List.mem_eraseDups.mp (of_decide_eq_true howner), hfields _ (List.mem_map.mpr ⟨entry, hold, rfl⟩)⟩

theorem insert (h : object.Coherent classes) (howner : key.owner ∈ object.manifest)
    (hfield : classes.HasField key) :
    Coherent classes { object with fields := object.fields.insert key value } where
  worn := h.worn
  manifest := h.manifest
  types := h.types
  table := h.table
  fields other hmem := by
    obtain ⟨entry, hentry, rfl⟩ := List.mem_map.mp hmem
    rcases Table.mem_insert hentry with rfl | hentry
    · exact ⟨howner, hfield⟩
    · exact h.fields _ (List.mem_map.mpr ⟨entry, hentry, rfl⟩)

end Object.Coherent

section

variable {machine : Machine} {ref : Ref} {ok : PUnit → Machine → Prop} {err : Halt → Machine → Prop}

theorem Machine.yields_installManifest {object : Object}
    (h : machine.heap.object? ref = some object) :
    Yields (installManifest ref) machine ok err ↔
      let manifest := machine.classes.manifest object.worn
      let answer := machine.tables.request machine.classes manifest
      ok ⟨⟩ { machine with
        tables := answer.2
        heap := machine.heap.modifyObject ref (Object.fitted manifest answer.1) } := by
  rw [installManifest, yields_bind, yields_get, h]
  dsimp only
  rw [yields_bind, methodTable, yields_modifyGet, onHeap, yields_modify]
  rfl

theorem Machine.yields_installManifest_none (h : machine.heap.object? ref = none) :
    Yields (installManifest ref) machine ok err ↔ ok ⟨⟩ machine := by
  rw [installManifest, yields_bind, yields_get, h, yields_pure]

theorem Machine.yields_create {entity : Entity} {ok : Ref → Machine → Prop} :
    Yields (create entity) machine ok err ↔
      ok (machine.heap.alloc machine.odometer.peek entity).1 { machine with
        odometer := machine.odometer.next.2
        heap := (machine.heap.alloc machine.odometer.peek entity).2 } := by
  rw [create, yields_bind, mint, yields_modifyGet, Machine.alloc, yields_modifyGet]
  rfl

end

/-- How deep calls are nested, and which entities there are. -/
structure Stage where
  depth : Nat
  outline : Outline

instance : Preorder Stage where
  le a b := a.depth = b.depth ∧ a.outline ≤ b.outline
  le_refl a := ⟨rfl, le_refl a.outline⟩
  le_trans _ _ _ h h' := ⟨h.1.trans h'.1, h.2.trans h'.2⟩

/-- A cell up to the random stream of its object. -/
def Cell.settled (cell : Cell) : Cell :=
  match cell.entity with
  | .object object => { cell with entity := .object { object with random := {} } }
  | _ => cell

/-- The first `floor` entities are as before, but for their random streams. -/
structure Machine.Retains (floor : Nat) (before after : Machine) : Prop where
  cells : ∀ address < floor, (after.heap.cells[address]?).map Cell.settled =
    (before.heap.cells[address]?).map Cell.settled
  tick : after.tick = before.tick
  callLimit : after.callLimit = before.callLimit

namespace Machine.Retains

variable {floor : Nat} {before after : Machine} {ref : Ref}

theorem refl (floor : Nat) (machine : Machine) : machine.Retains floor machine :=
  ⟨fun _ _ => rfl, rfl, rfl⟩

theorem alloc (h : before.Retains floor after) (hfloor : floor ≤ after.heap.size) (id : Id)
    (entity : Entity) :
    before.Retains floor { after with heap := (after.heap.alloc id entity).2 } where
  cells address hlt := by
    rw [← h.cells address hlt]
    have hne : address ≠ after.heap.cells.size := by
      unfold Heap.size at hfloor
      omega
    simp only [Heap.alloc, Array.getElem?_push, if_neg hne]
  tick := h.tick
  callLimit := h.callLimit

theorem modify (h : before.Retains floor after) (hfloor : floor ≤ ref.address)
    (change : Entity → Entity) :
    before.Retains floor { after with heap := after.heap.modify ref change } where
  cells address hlt := by
    rw [← h.cells address hlt, Heap.cell_modify, if_neg (by omega)]
  tick := h.tick
  callLimit := h.callLimit

theorem redraw (h : before.Retains floor after) (random : RandomStream) :
    before.Retains floor { after with
      heap := after.heap.modifyObject ref fun object => { object with random } } where
  cells address hlt := by
    rw [← h.cells address hlt, Heap.modifyObject, Heap.cell_modify]
    split
    · cases after.heap.cells[address]? with
      | none => rfl
      | some cell =>
        obtain ⟨id, entity⟩ := cell
        cases entity <;> rfl
    · rfl
  tick := h.tick
  callLimit := h.callLimit

theorem congr (h : before.Retains floor after) {other : Machine} (hheap : other.heap = after.heap)
    (htick : other.tick = after.tick) (hlimit : other.callLimit = after.callLimit) :
    before.Retains floor other where
  cells := hheap ▸ h.cells
  tick := htick.trans h.tick
  callLimit := hlimit.trans h.callLimit

end Machine.Retains

end Attire
