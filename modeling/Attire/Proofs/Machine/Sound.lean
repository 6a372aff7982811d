import Attire.Proofs.Classes.Registry
import Attire.Proofs.Keys
import Attire.Proofs.Runs.Contents
import Attire.Proofs.Runs.Permit
import Mathlib.Order.Basic

namespace Attire

/-! Machines that programs and hosts leave behind. -/

inductive EntityKind
  | object
  | array
  | map
  | set
deriving DecidableEq, Repr

def Entity.kind : Entity → EntityKind
  | .object _ => .object
  | .array _ => .array
  | .map _ => .map
  | .set _ => .set

/-- The identifiers and kinds of the entities of a heap.  They never change, and heaps only grow. -/
structure Outline where
  cells : List (Id × EntityKind)

namespace Outline

instance : Preorder Outline where
  le a b := a.cells <+: b.cells
  le_refl a := List.prefix_refl a.cells
  le_trans _ _ _ h h' := h.trans h'

variable {outline next : Outline} {value : Value}

/-- The value mentions an entity that there is. -/
def Names (outline : Outline) : Value → Prop
  | .object ref => outline.cells[ref.address]? = some (ref.id, .object)
  | .array ref => outline.cells[ref.address]? = some (ref.id, .array)
  | .map ref => outline.cells[ref.address]? = some (ref.id, .map)
  | .set ref => outline.cells[ref.address]? = some (ref.id, .set)
  | _ => False

theorem Names.mono (hle : outline ≤ next) (h : outline.Names value) : next.Names value := by
  have hcell : ∀ {address : Nat} {cell}, outline.cells[address]? = some cell →
      next.cells[address]? = some cell := by
    intro address cell hcell
    obtain ⟨rest, hrest⟩ : outline.cells <+: next.cells := hle
    have hlt := (List.getElem?_eq_some_iff.mp hcell).1
    rw [← hrest, List.getElem?_append_left hlt, hcell]
  cases value <;> first | exact hcell h | exact h

end Outline

def Heap.outline (heap : Heap) : Outline :=
  ⟨heap.cells.toList.map fun cell => (cell.id, cell.entity.kind)⟩

/-- The value only mentions entities and classes that there are. -/
def Value.Known (classes : ClassRegistry) (outline : Outline) (value : Value) : Prop :=
  value.Within outline.Names fun cls => classes.contains cls

theorem Value.Known.mono {classes : ClassRegistry} {outline next : Outline} {value : Value}
    (hle : outline ≤ next) (h : value.Known classes outline) : value.Known classes next :=
  h.imp (fun _ => Outline.Names.mono hle) fun _ h => h

/-- The class declares a field in that place. -/
def ClassRegistry.HasField (classes : ClassRegistry) (key : FieldKey) : Prop :=
  ∃ found, classes.get? key.owner = some found ∧ key.index < found.ownFields.length

/-- What an object wears settles what it is, what it answers and which fields it may store. -/
structure Object.Coherent (classes : ClassRegistry) (object : Object) : Prop where
  worn : ∀ cls ∈ object.worn, classes.contains cls
  manifest : object.manifest = classes.manifest object.worn
  types : ∀ cls, cls ∈ object.types ↔ cls ∈ object.manifest
  table : object.table.methods = classes.methodsOf object.manifest
  fields : ∀ key ∈ object.fields.keys, key.owner ∈ object.manifest ∧ classes.HasField key

namespace Object.Coherent

variable {classes next : ClassRegistry} {object : Object}

theorem extend (hextends : classes.Extends next) (hcomposed : classes.Composed)
    (h : object.Coherent classes) : object.Coherent next where
  worn cls hmem := hextends.contains (h.worn cls hmem)
  manifest := by rw [h.manifest, hextends.manifest hcomposed h.worn]
  types := h.types
  table := by
    rw [h.table]
    refine (ClassRegistry.methodsOf_congr fun cls hmem => ?_).symm
    rw [h.manifest] at hmem
    obtain ⟨found, hfound⟩ := ClassRegistry.contains_iff.mp
      (ClassRegistry.contains_of_mem_manifest hcomposed.parents h.worn hmem)
    rw [hextends cls found hfound, hfound]
  fields key hmem := by
    obtain ⟨howner, found, hfound, hindex⟩ := h.fields key hmem
    exact ⟨howner, found, hextends _ _ hfound, hindex⟩

theorem redraw (h : object.Coherent classes) (random : RandomStream) :
    Coherent classes { object with random } :=
  ⟨h.worn, h.manifest, h.types, h.table, h.fields⟩

theorem mem_manifest (h : object.Coherent classes) {cls : ClassId}
    (hembodies : object.embodies cls = true) : cls ∈ object.manifest :=
  (h.types cls).mp (of_decide_eq_true hembodies)

theorem installed (h : object.Coherent classes) {slot : MethodSlot} {routine : Routine}
    (hslot : object.table.get? slot = some routine) : classes.Installed slot routine := by
  have hmem : (slot, routine) ∈ (classes.methodsOf object.manifest).entries :=
    h.table ▸ Table.mem_of_get? hslot
  exact ClassRegistry.installed_of_mem_methodsOf hmem

end Object.Coherent

/-- What a class registry and an outline promise about an entity. -/
structure Entity.Sound (classes : ClassRegistry) (outline : Outline) (entity : Entity) : Prop where
  contents : ∀ value ∈ entity.contents, value.Known classes outline
  object {object : Object} : entity = .object object → object.Coherent classes
  map {entries : MapEntries} : entity = .map entries →
    entries.Sorted ∧ ∀ entry ∈ entries.entries, entry.1 = MapKey.ofValue entry.2.1
  set {entries : SetEntries} : entity = .set entries →
    entries.Sorted ∧ ∀ entry ∈ entries.entries, entry.1 = MapKey.ofValue entry.2

namespace Entity

variable {classes next : ClassRegistry} {outline outline' : Outline} {entity : Entity}

theorem Sound.mono (hle : outline ≤ outline') (h : entity.Sound classes outline) :
    entity.Sound classes outline' :=
  { h with contents := fun value hmem => (h.contents value hmem).mono hle }

theorem Sound.extend (hextends : classes.Extends next) (hcomposed : classes.Composed)
    (h : entity.Sound classes outline) : entity.Sound next outline where
  contents value hmem := (h.contents value hmem).imp (fun _ h => h) fun _ => hextends.contains
  object hobject := (h.object hobject).extend hextends hcomposed
  map := h.map
  set := h.set

theorem sound_object {object : Object} (hcoherent : object.Coherent classes)
    (h : ∀ value ∈ object.fields.values, value.Known classes outline) :
    (Entity.object object).Sound classes outline where
  contents := h
  object := by
    rintro _ ⟨⟩
    exact hcoherent
  map := nofun
  set := nofun

theorem sound_array {items : Array Value} (h : ∀ item ∈ items.toList, item.Known classes outline) :
    (Entity.array items).Sound classes outline where
  contents := h
  object := nofun
  map := nofun
  set := nofun

theorem sound_map {entries : MapEntries} (hsorted : entries.Sorted)
    (hkeys : ∀ entry ∈ entries.entries, entry.1 = MapKey.ofValue entry.2.1)
    (h : ∀ entry ∈ entries.entries,
      entry.2.1.Known classes outline ∧ entry.2.2.Known classes outline) :
    (Entity.map entries).Sound classes outline where
  contents value hmem := by
    obtain ⟨pair, hpair, hvalue⟩ := List.mem_flatMap.mp hmem
    obtain ⟨entry, hentry, rfl⟩ := List.mem_map.mp hpair
    obtain ⟨hkey, hcontent⟩ := h entry hentry
    rcases List.mem_cons.mp hvalue with rfl | hvalue
    · exact hkey
    · exact List.mem_singleton.mp hvalue ▸ hcontent
  object := nofun
  map := by
    rintro _ ⟨⟩
    exact ⟨hsorted, hkeys⟩
  set := nofun

theorem sound_set {entries : SetEntries} (hsorted : entries.Sorted)
    (hkeys : ∀ entry ∈ entries.entries, entry.1 = MapKey.ofValue entry.2)
    (h : ∀ entry ∈ entries.entries, entry.2.Known classes outline) :
    (Entity.set entries).Sound classes outline where
  contents value hmem := by
    obtain ⟨entry, hentry, rfl⟩ := List.mem_map.mp hmem
    exact h entry hentry
  object := nofun
  map := nofun
  set := by
    rintro _ ⟨⟩
    exact ⟨hsorted, hkeys⟩

theorem Sound.map_contents {entries : MapEntries} (h : (Entity.map entries).Sound classes outline) :
    ∀ entry ∈ entries.entries,
      entry.2.1.Known classes outline ∧ entry.2.2.Known classes outline := by
  intro entry hentry
  have hvalues : entry.2 ∈ entries.values := List.mem_map.mpr ⟨entry, hentry, rfl⟩
  exact ⟨h.contents _ (List.mem_flatMap.mpr ⟨_, hvalues, by simp⟩),
    h.contents _ (List.mem_flatMap.mpr ⟨_, hvalues, by simp⟩)⟩

theorem Sound.set_contents {entries : SetEntries} (h : (Entity.set entries).Sound classes outline) :
    ∀ entry ∈ entries.entries, entry.2.Known classes outline :=
  fun entry hentry => h.contents _ (List.mem_map.mpr ⟨entry, hentry, rfl⟩)

end Entity

namespace Heap

variable {heap : Heap} {ref : Ref} {entity : Entity}

theorem mem_of_entity? (h : heap.entity? ref = some entity) :
    ∃ cell ∈ heap.cells, cell.entity = entity := by
  obtain ⟨cell, hcell, heq⟩ := entity?_eq_some.mp h
  exact ⟨cell, Array.mem_of_getElem? hcell, heq⟩

theorem outline_alloc (id : Id) : (heap.alloc id entity).2.outline.cells =
    heap.outline.cells ++ [(id, entity.kind)] := by
  simp [outline, alloc]

theorem outline_modify {change : Entity → Entity}
    (h : ∀ entity, heap.entity? ref = some entity → (change entity).kind = entity.kind) :
    (heap.modify ref change).outline = heap.outline := by
  refine congrArg Outline.mk (List.ext_getElem? fun index => ?_)
  simp only [List.getElem?_map, Array.getElem?_toList, cell_modify]
  split
  case isTrue haddress =>
    subst haddress
    cases hcell : heap.cells[ref.address]? with
    | none => rfl
    | some cell =>
      have hkind := h cell.entity (entity?_eq_some.mpr ⟨cell, hcell, rfl⟩)
      simp [hkind]
  case isFalse => rfl

/-- A changed cell is an old one, but for its entity. -/
theorem mem_modify {change : Entity → Entity} {cell : Cell}
    (h : cell ∈ (heap.modify ref change).cells) :
    cell ∈ heap.cells ∨ ∃ entity, heap.entity? ref = some entity ∧ cell.entity = change entity := by
  obtain ⟨index, hindex⟩ := Array.mem_iff_getElem?.mp h
  rw [cell_modify] at hindex
  split at hindex
  case isTrue haddress =>
    obtain ⟨old, hold, rfl⟩ := Option.map_eq_some_iff.mp hindex
    exact .inr ⟨old.entity, entity?_eq_some.mpr ⟨old, haddress ▸ hold, rfl⟩, rfl⟩
  case isFalse => exact .inl (Array.mem_of_getElem? hindex)

end Heap

/-- What holds of a machine between any two operations. -/
structure Machine.Sound (classes : ClassRegistry) (outline : Outline) (machine : Machine) :
    Prop where
  registry : machine.classes = classes
  layout : machine.heap.outline = outline
  tables : machine.tables.Transparent classes
  entities : ∀ cell ∈ machine.heap.cells, cell.entity.Sound classes outline

namespace Machine.Sound

variable {classes next : ClassRegistry} {outline : Outline} {machine : Machine} {ref : Ref}
variable {stored : Entity}

theorem stored_sound (h : machine.Sound classes outline)
    (hentity : machine.heap.entity? ref = some stored) : stored.Sound classes outline := by
  obtain ⟨cell, hmem, rfl⟩ := Heap.mem_of_entity? hentity
  exact h.entities cell hmem

theorem object_sound (h : machine.Sound classes outline) {object : Object}
    (hobject : machine.heap.object? ref = some object) :
    (Entity.object object).Sound classes outline :=
  h.stored_sound (Heap.object?_eq_some.mp hobject)

theorem alloc (h : machine.Sound classes outline) (id : Id)
    (hstored : stored.Sound classes outline) :
    outline ≤ (machine.heap.alloc id stored).2.outline ∧
      Machine.Sound classes (machine.heap.alloc id stored).2.outline
        { machine with heap := (machine.heap.alloc id stored).2 } := by
  have hle : outline ≤ (machine.heap.alloc id stored).2.outline := by
    refine ⟨[(id, stored.kind)], ?_⟩
    rw [Heap.outline_alloc, h.layout]
  refine ⟨hle, h.registry, rfl, h.tables, fun cell hmem => ?_⟩
  rcases Array.mem_push.mp hmem with hmem | rfl
  · exact (h.entities cell hmem).mono hle
  · exact hstored.mono hle

theorem modify (h : machine.Sound classes outline) {change : Entity → Entity}
    (hkind : ∀ entity, (change entity).kind = entity.kind)
    (hchange : ∀ entity, machine.heap.entity? ref = some entity → entity.Sound classes outline →
      (change entity).Sound classes outline) :
    Machine.Sound classes outline { machine with heap := machine.heap.modify ref change } := by
  refine ⟨h.registry, ?_, h.tables, fun cell hmem => ?_⟩
  · rw [Heap.outline_modify fun entity _ => hkind entity, h.layout]
  · rcases Heap.mem_modify hmem with hmem | ⟨entity, hentity, heq⟩
    · exact h.entities cell hmem
    · exact heq ▸ hchange entity hentity (h.stored_sound hentity)

section

variable {object : Object}

theorem modifyObject (h : machine.Sound classes outline) {change : Object → Object}
    (hchange : ∀ object, machine.heap.object? ref = some object →
      (Entity.object object).Sound classes outline →
      (Entity.object (change object)).Sound classes outline) :
    Machine.Sound classes outline
      { machine with heap := machine.heap.modifyObject ref change } := by
  refine h.modify (fun entity => by cases entity <;> rfl) fun entity hentity hsound => ?_
  cases entity with
  | object object => exact hchange object (Heap.object?_eq_some.mpr hentity) hsound
  | _ => exact hsound

theorem modifyArray (h : machine.Sound classes outline) {change : Array Value → Array Value}
    (hchange : ∀ items : Array Value, (∀ item ∈ items.toList, item.Known classes outline) →
      ∀ item ∈ (change items).toList, item.Known classes outline) :
    Machine.Sound classes outline
      { machine with heap := machine.heap.modifyArray ref change } := by
  refine h.modify (fun entity => by cases entity <;> rfl) fun entity hentity hsound => ?_
  cases entity with
  | array items => exact Entity.sound_array (hchange items hsound.contents)
  | _ => exact hsound

theorem modifyMap (h : machine.Sound classes outline) {change : MapEntries → MapEntries}
    (hchange : ∀ entries, (Entity.map entries).Sound classes outline →
      (Entity.map (change entries)).Sound classes outline) :
    Machine.Sound classes outline
      { machine with heap := machine.heap.modifyMap ref change } := by
  refine h.modify (fun entity => by cases entity <;> rfl) fun entity hentity hsound => ?_
  cases entity with
  | map entries => exact hchange entries hsound
  | _ => exact hsound

theorem modifySet (h : machine.Sound classes outline) {change : SetEntries → SetEntries}
    (hchange : ∀ entries, (Entity.set entries).Sound classes outline →
      (Entity.set (change entries)).Sound classes outline) :
    Machine.Sound classes outline
      { machine with heap := machine.heap.modifySet ref change } := by
  refine h.modify (fun entity => by cases entity <;> rfl) fun entity hentity hsound => ?_
  cases entity with
  | set entries => exact hchange entries hsound
  | _ => exact hsound

end

theorem extend (h : machine.Sound classes outline) (hcomposed : classes.Composed)
    (hextends : classes.Extends next) : Machine.Sound next outline { machine with classes := next } where
  registry := rfl
  layout := h.layout
  tables := h.tables.extend hextends
  entities cell hmem := (h.entities cell hmem).extend hextends hcomposed

theorem congr (h : machine.Sound classes outline) {other : Machine}
    (hclasses : other.classes = machine.classes) (htables : other.tables = machine.tables)
    (hheap : other.heap = machine.heap) : other.Sound classes outline where
  registry := hclasses.trans h.registry
  layout := hheap ▸ h.layout
  tables := htables ▸ h.tables
  entities := hheap ▸ h.entities

end Machine.Sound

end Attire
