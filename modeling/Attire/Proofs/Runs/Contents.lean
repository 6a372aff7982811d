import Attire.Machine.Element
import Attire.Machine.Eval
import Attire.Proofs.Tables

namespace Attire

/-! The values that entities hold, and reading them. -/

/-- The values that an entity holds. -/
def Entity.contents : Entity → List Value
  | .object stored => stored.fields.values
  | .array items => items.toList
  | .map entries => entries.values.flatMap fun entry => [entry.1, entry.2]
  | .set entries => entries.values

namespace Heap

variable {heap : Heap} {ref other : Ref} {entity : Entity} {change : Entity → Entity}

theorem entity?_eq_some : heap.entity? ref = some entity ↔
    ∃ cell, heap.cells[ref.address]? = some cell ∧ cell.entity = entity := by
  simp [entity?]

theorem cell_modify (index : Nat) :
    (heap.modify ref change).cells[index]? =
      if ref.address = index then
        heap.cells[index]?.map fun cell => { cell with entity := change cell.entity }
      else heap.cells[index]? := by
  simp only [modify, Array.getElem?_modify]

theorem entity?_modify : (heap.modify ref change).entity? other =
    if ref.address = other.address then (heap.entity? other).map change else heap.entity? other := by
  unfold entity?
  rw [cell_modify]
  split <;> simp [Function.comp_def]

theorem entity?_alloc {id : Id} :
    (heap.alloc id entity).2.entity? (heap.alloc id entity).1 = some entity := by
  simp [entity?_eq_some, alloc, size]

theorem entity?_alloc_of_some {id : Id} {stored : Entity}
    (h : heap.entity? ref = some stored) :
    (heap.alloc id entity).2.entity? ref = some stored := by
  obtain ⟨cell, hcell, hstored⟩ := entity?_eq_some.mp h
  have hlt := (Array.getElem?_eq_some_iff.mp hcell).1
  refine entity?_eq_some.mpr ⟨cell, ?_, hstored⟩
  rw [alloc, Array.getElem?_push, if_neg (by omega), hcell]

theorem object?_eq_some {object : Object} :
    heap.object? ref = some object ↔ heap.entity? ref = some (.object object) := by
  unfold object?
  split <;> simp_all

theorem array?_eq_some {items : Array Value} :
    heap.array? ref = some items ↔ heap.entity? ref = some (.array items) := by
  unfold array?
  split <;> simp_all

theorem map?_eq_some {entries : MapEntries} :
    heap.map? ref = some entries ↔ heap.entity? ref = some (.map entries) := by
  unfold map?
  split <;> simp_all

theorem set?_eq_some {entries : SetEntries} :
    heap.set? ref = some entries ↔ heap.entity? ref = some (.set entries) := by
  unfold set?
  split <;> simp_all

/-- The value at an index is a character or one of the values that the container holds. -/
theorem element?_eq_some {container : Value} {kind : IndexKind} {index value : Value}
    (h : heap.element? container kind index = some value) :
    (∃ content, value = .text content) ∨
      ∃ ref entity, container.ref? = some ref ∧ heap.entity? ref = some entity ∧
        value ∈ entity.contents := by
  unfold element? at h
  split at h
  case h_1 ref =>
    obtain ⟨items, hitems, h⟩ := Option.bind_eq_some_iff.mp h
    obtain ⟨position, -, hvalue⟩ := Option.bind_eq_some_iff.mp h
    exact .inr ⟨ref, _, rfl, array?_eq_some.mp hitems, by
      simpa [Entity.contents] using Array.mem_of_getElem? hvalue⟩
  case h_2 ref =>
    obtain ⟨entries, hentries, h⟩ := Option.bind_eq_some_iff.mp h
    obtain ⟨entry, hentry, hvalue⟩ := Option.bind_eq_some_iff.mp h
    refine .inr ⟨ref, _, rfl, map?_eq_some.mp hentries, ?_⟩
    have hmem := Ordered.mem_values_of_get? hentry
    simp only [Entity.contents, List.mem_flatMap]
    exact ⟨entry, hmem, by simp_all⟩
  case h_3 content =>
    obtain ⟨position, -, h⟩ := Option.bind_eq_some_iff.mp h
    obtain ⟨c, -, hvalue⟩ := Option.bind_eq_some_iff.mp h
    exact .inl ⟨String.singleton c, by simp_all⟩
  case h_4 => cases h

theorem mem_numbered {items : List Value} {pairs : Bool} {round : Value × Option Value}
    (h : round ∈ if pairs then
        items.mapIdx fun position item => (Value.num (Float.ofNat position), some item)
      else items.map fun item => (item, none)) :
    (∃ number item, item ∈ items ∧ round = (.num number, some item)) ∨
      ∃ item ∈ items, round = (item, none) := by
  cases pairs with
  | true =>
    obtain ⟨position, hposition, heq⟩ := List.mem_mapIdx.mp h
    exact .inl ⟨_, _, List.getElem_mem hposition, heq.symm⟩
  | false =>
    obtain ⟨item, hitem, heq⟩ := List.mem_map.mp h
    exact .inr ⟨item, hitem, heq.symm⟩

/-- What a loop binds is a position, a character or one of the values that the container holds. -/
theorem mem_rounds {source : Value} {kind : IterKind} {pairs : Bool}
    {round : Value × Option Value} (h : round ∈ heap.rounds source kind pairs) {value : Value}
    (hvalue : value = round.1 ∨ round.2 = some value) :
    (∃ number, value = .num number) ∨ (∃ content, value = .text content) ∨
      ∃ ref entity, source.ref? = some ref ∧ heap.entity? ref = some entity ∧
        value ∈ entity.contents := by
  unfold rounds at h
  dsimp only at h
  split at h
  case h_1 content =>
    rcases mem_numbered h with ⟨number, item, hitem, rfl⟩ | ⟨item, hitem, rfl⟩
    · obtain ⟨c, -, rfl⟩ := List.mem_map.mp hitem
      rcases hvalue with rfl | hvalue
      · exact .inl ⟨number, rfl⟩
      · exact .inr (.inl ⟨_, (Option.some.inj hvalue).symm⟩)
    · obtain ⟨c, -, rfl⟩ := List.mem_map.mp hitem
      rcases hvalue with rfl | hvalue
      · exact .inr (.inl ⟨_, rfl⟩)
      · cases hvalue
  case h_2 ref =>
    cases hitems : heap.array? ref with
    | none =>
      rw [hitems] at h
      rcases mem_numbered h with ⟨_, _, hitem, _⟩ | ⟨_, hitem, _⟩ <;> simp at hitem
    | some items =>
      rw [hitems] at h
      have hentity := array?_eq_some.mp hitems
      rcases mem_numbered h with ⟨number, item, hitem, rfl⟩ | ⟨item, hitem, rfl⟩
      · rcases hvalue with rfl | hvalue
        · exact .inl ⟨number, rfl⟩
        · obtain rfl := Option.some.inj hvalue
          exact .inr (.inr ⟨ref, _, rfl, hentity, hitem⟩)
      · rcases hvalue with rfl | hvalue
        · exact .inr (.inr ⟨ref, _, rfl, hentity, hitem⟩)
        · cases hvalue
  case h_3 ref =>
    cases hentries : heap.map? ref with
    | none => rw [hentries] at h; cases h
    | some entries =>
      rw [hentries] at h
      obtain ⟨entry, hentry, rfl⟩ := List.mem_map.mp h
      refine .inr (.inr ⟨ref, _, rfl, map?_eq_some.mp hentries, ?_⟩)
      simp only [Entity.contents, List.mem_flatMap]
      refine ⟨entry, hentry, ?_⟩
      rcases hvalue with rfl | hvalue
      · simp
      · obtain rfl := Option.some.inj hvalue
        simp
  case h_4 ref =>
    cases hentries : heap.set? ref with
    | none => rw [hentries] at h; cases h
    | some entries =>
      rw [hentries] at h
      obtain ⟨item, hitem, rfl⟩ := List.mem_map.mp h
      refine .inr (.inr ⟨ref, _, rfl, set?_eq_some.mp hentries, ?_⟩)
      simp_all [Entity.contents]
  case h_5 => cases h

end Heap

namespace Machine

theorem readField?_eq_some {heap : Heap} {target value : Value} {key : FieldKey}
    (h : readField? heap target key = some value) :
    ∃ ref entity, target = .object ref ∧ heap.entity? ref = some entity ∧
      value ∈ entity.contents := by
  unfold readField? at h
  split at h
  case h_1 ref =>
    obtain ⟨object, hobject, hvalue⟩ := Option.bind_eq_some_iff.mp h
    exact ⟨ref, _, rfl, Heap.object?_eq_some.mp hobject, Table.mem_values_of_get? hvalue⟩
  case h_2 => cases h

end Machine

end Attire
