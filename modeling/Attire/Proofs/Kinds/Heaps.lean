import Attire.Proofs.Kinds.Values
import Attire.Proofs.Machine.Operations

namespace Attire

open Machine

/-! Heaps whose entities are of their kinds, and what keeps them so. -/

/-- The object answers with what is installed, and its fields hold values of their kinds. -/
structure Object.Kinded (kinds : Kinds) (object : Object) : Prop where
  worn : ∀ cls ∈ object.worn, kinds.classes.contains cls
  table {slot : MethodSlot} {routine : Routine} : object.table.get? slot = some routine →
    kinds.classes.Installed slot routine
  fields : ∀ entry ∈ object.fields.entries, ∃ kind, kinds.Holds entry.1 kind ∧
    entry.2.OfKind kinds kind

def Entity.OfKind (kinds : Kinds) : Entity → Kind → Prop
  | .object stored, kind => kind = .object ∧ stored.Kinded kinds
  | .array items, kind => ∃ element, kind = .array element ∧ ∀ item ∈ items, item.OfKind kinds element
  | .map entries, kind => ∃ key value, kind = .map key value ∧ ∀ entry ∈ entries.values,
      entry.1.OfKind kinds key ∧ entry.2.OfKind kinds value
  | .set entries, kind => ∃ element, kind = .set element ∧
      ∀ item ∈ entries.values, item.OfKind kinds element

/-- Every entity of the heap is of its kind. -/
structure Heap.Kinded (kinds : Kinds) (heap : Heap) : Prop where
  size : kinds.cells.length = heap.size
  cells {address : Nat} {cell : Cell} {kind : Kind} : heap.cells[address]? = some cell →
    kinds.cells[address]? = some kind → cell.entity.OfKind kinds kind

structure Machine.Kinded (kinds : Kinds) (machine : Machine) : Prop where
  registry : machine.classes = kinds.classes
  tables : machine.tables.Transparent kinds.classes
  heap : machine.heap.Kinded kinds

section

variable {kinds later : Kinds} {ref : Ref} {kind : Kind} {heap : Heap} {object : Object}

theorem Object.Kinded.mono (hle : kinds ≤ later) (h : object.Kinded kinds) :
    object.Kinded later where
  worn cls hmem := hle.1.contains (h.worn cls hmem)
  table hslot := by
    obtain ⟨cls, found, hfound, hmem⟩ := h.table hslot
    exact ⟨cls, found, hle.1 _ _ hfound, hmem⟩
  fields entry hmem := by
    obtain ⟨kind, hholds, hvalue⟩ := h.fields entry hmem
    exact ⟨kind, hholds.mono hle, hvalue.mono hle⟩

theorem Object.Kinded.insert (h : object.Kinded kinds) {key : FieldKey} {value : Value}
    (hkey : kinds.Holds key kind) (hvalue : value.OfKind kinds kind) :
    Object.Kinded kinds { object with fields := object.fields.insert key value } where
  worn := h.worn
  table := h.table
  fields entry hmem := by
    rcases Table.mem_insert hmem with rfl | hmem
    · exact ⟨kind, hkey, hvalue⟩
    · exact h.fields entry hmem

theorem Entity.OfKind.mono (hle : kinds ≤ later) {entity : Entity} (h : entity.OfKind kinds kind) :
    entity.OfKind later kind := by
  cases entity with
  | object object => exact ⟨h.1, h.2.mono hle⟩
  | array items =>
    obtain ⟨element, hkind, hitems⟩ := h
    exact ⟨element, hkind, fun item hmem => (hitems item hmem).mono hle⟩
  | map entries =>
    obtain ⟨key, value, hkind, hentries⟩ := h
    exact ⟨key, value, hkind, fun entry hmem =>
      ⟨(hentries entry hmem).1.mono hle, (hentries entry hmem).2.mono hle⟩⟩
  | set entries =>
    obtain ⟨element, hkind, hitems⟩ := h
    exact ⟨element, hkind, fun item hmem => (hitems item hmem).mono hle⟩

/-- One more entity. -/
def Kinds.push (kinds : Kinds) (kind : Kind) : Kinds := { kinds with cells := kinds.cells ++ [kind] }

theorem Kinds.le_push (kinds : Kinds) (kind : Kind) : kinds ≤ kinds.push kind :=
  ⟨.refl _, List.prefix_append _ _⟩

namespace Heap.Kinded

variable (h : heap.Kinded kinds)
include h

theorem entity {entity : Entity} (hentity : heap.entity? ref = some entity)
    (href : kinds.Has ref kind) : entity.OfKind kinds kind := by
  obtain ⟨cell, hcell, rfl⟩ := entity?_eq_some.mp hentity
  exact h.cells hcell href

/-- Whatever there is has a kind. -/
theorem has {entity : Entity} (hentity : heap.entity? ref = some entity) :
    ∃ kind, kinds.Has ref kind ∧ entity.OfKind kinds kind := by
  obtain ⟨cell, hcell, -⟩ := entity?_eq_some.mp hentity
  have hlt : ref.address < kinds.cells.length := by
    rw [h.size]
    exact (Array.getElem?_eq_some_iff.mp hcell).1
  have href : kinds.Has ref kinds.cells[ref.address] := List.getElem?_eq_getElem hlt
  exact ⟨_, href, h.entity hentity href⟩

/-- Whatever has a kind is there. -/
theorem stored (href : kinds.Has ref kind) :
    ∃ entity, heap.entity? ref = some entity ∧ entity.OfKind kinds kind := by
  have hlt : ref.address < heap.size := h.size ▸ (List.getElem?_eq_some_iff.mp href).1
  have hentity : heap.entity? ref = some heap.cells[ref.address].entity :=
    entity?_eq_some.mpr ⟨_, Array.getElem?_eq_getElem hlt, rfl⟩
  exact ⟨_, hentity, h.entity hentity href⟩

theorem object_of_has (href : kinds.Has ref .object) : ∃ object, heap.object? ref = some object := by
  obtain ⟨entity, hentity, hof⟩ := h.stored href
  cases entity with
  | object object => exact ⟨object, object?_eq_some.mpr hentity⟩
  | array | set => obtain ⟨_, ⟨⟩, -⟩ := hof
  | map => obtain ⟨_, _, ⟨⟩, -⟩ := hof

theorem array_of_has {element : Kind} (href : kinds.Has ref (.array element)) :
    ∃ items, heap.array? ref = some items := by
  obtain ⟨entity, hentity, hof⟩ := h.stored href
  cases entity with
  | array items => exact ⟨items, array?_eq_some.mpr hentity⟩
  | object => cases hof.1
  | set => obtain ⟨_, ⟨⟩, -⟩ := hof
  | map => obtain ⟨_, _, ⟨⟩, -⟩ := hof

theorem map_of_has {key content : Kind} (href : kinds.Has ref (.map key content)) :
    ∃ entries, heap.map? ref = some entries := by
  obtain ⟨entity, hentity, hof⟩ := h.stored href
  cases entity with
  | map entries => exact ⟨entries, map?_eq_some.mpr hentity⟩
  | object => cases hof.1
  | array | set => obtain ⟨_, ⟨⟩, -⟩ := hof

theorem set_of_has {element : Kind} (href : kinds.Has ref (.set element)) :
    ∃ entries, heap.set? ref = some entries := by
  obtain ⟨entity, hentity, hof⟩ := h.stored href
  cases entity with
  | set entries => exact ⟨entries, set?_eq_some.mpr hentity⟩
  | object => cases hof.1
  | array => obtain ⟨_, ⟨⟩, -⟩ := hof
  | map => obtain ⟨_, _, ⟨⟩, -⟩ := hof

theorem stored_object (hobject : heap.object? ref = some object) : object.Kinded kinds := by
  obtain ⟨kind, -, -, hkinded⟩ := h.has (object?_eq_some.mp hobject)
  exact hkinded

theorem alloc (id : Id) {entity : Entity} (hentity : entity.OfKind kinds kind) :
    (heap.alloc id entity).2.Kinded (kinds.push kind) ∧
      (kinds.push kind).Has (heap.alloc id entity).1 kind := by
  have hle := kinds.le_push kind
  refine ⟨⟨?_, ?_⟩, ?_⟩
  · simp [Kinds.push, Heap.alloc, Heap.size, h.size]
  · intro address cell other hcell hother
    simp only [Heap.alloc, Array.getElem?_push] at hcell
    split at hcell
    case isTrue heq =>
      cases hcell
      have hsize : address = kinds.cells.length := heq.trans h.size.symm
      simp only [Kinds.push, hsize, List.getElem?_concat_length, Option.some.injEq] at hother
      exact hother ▸ hentity.mono hle
    case isFalse =>
      have hlt : address < kinds.cells.length := by
        rw [h.size]
        exact (Array.getElem?_eq_some_iff.mp hcell).1
      rw [Kinds.push, List.getElem?_append_left hlt] at hother
      exact (h.cells hcell hother).mono hle
  · simp only [Kinds.Has, Kinds.push, Heap.alloc]
    rw [← h.size, List.getElem?_concat_length]

/-- Changed entities that are of their kinds as before. -/
theorem modify {change : Entity → Entity} (hchange : ∀ entity kind, heap.entity? ref = some entity →
      kinds.Has ref kind → entity.OfKind kinds kind → (change entity).OfKind kinds kind) :
    (heap.modify ref change).Kinded kinds where
  size := by simp [Heap.modify, Heap.size, h.size]
  cells {address cell kind} hcell hkind := by
    rw [cell_modify] at hcell
    split at hcell
    case isTrue haddress =>
      subst haddress
      obtain ⟨old, hold, rfl⟩ := Option.map_eq_some_iff.mp hcell
      exact hchange old.entity kind (entity?_eq_some.mpr ⟨old, hold, rfl⟩) hkind
        (h.cells hold hkind)
    case isFalse => exact h.cells hcell hkind

theorem modifyObject {change : Object → Object} (hchange : ∀ object,
      heap.object? ref = some object → object.Kinded kinds → (change object).Kinded kinds) :
    (heap.modifyObject ref change).Kinded kinds := by
  refine h.modify fun entity kind hentity _ hold => ?_
  cases entity with
  | object object => exact ⟨hold.1, hchange object (object?_eq_some.mpr hentity) hold.2⟩
  | _ => exact hold

theorem modifyArray {element : Kind} (href : kinds.Has ref (.array element))
    {change : Array Value → Array Value} (hchange : ∀ items : Array Value,
      (∀ item ∈ items, item.OfKind kinds element) →
      ∀ item ∈ change items, item.OfKind kinds element) :
    (heap.modifyArray ref change).Kinded kinds := by
  refine h.modify fun entity kind _ hkind hold => ?_
  obtain rfl := Option.some.inj (href.symm.trans hkind)
  cases entity with
  | array items =>
    obtain ⟨_, ⟨⟩, hitems⟩ := hold
    exact ⟨element, rfl, hchange items hitems⟩
  | _ => exact hold

theorem modifyMap {key value : Kind} (href : kinds.Has ref (.map key value))
    {change : MapEntries → MapEntries} (hchange : ∀ entries : MapEntries,
      (∀ entry ∈ entries.values, entry.1.OfKind kinds key ∧ entry.2.OfKind kinds value) →
      ∀ entry ∈ (change entries).values, entry.1.OfKind kinds key ∧ entry.2.OfKind kinds value) :
    (heap.modifyMap ref change).Kinded kinds := by
  refine h.modify fun entity kind _ hkind hold => ?_
  obtain rfl := Option.some.inj (href.symm.trans hkind)
  cases entity with
  | map entries =>
    obtain ⟨_, _, ⟨⟩, hentries⟩ := hold
    exact ⟨key, value, rfl, hchange entries hentries⟩
  | _ => exact hold

theorem modifySet {element : Kind} (href : kinds.Has ref (.set element))
    {change : SetEntries → SetEntries} (hchange : ∀ entries : SetEntries,
      (∀ item ∈ entries.values, item.OfKind kinds element) →
      ∀ item ∈ (change entries).values, item.OfKind kinds element) :
    (heap.modifySet ref change).Kinded kinds := by
  refine h.modify fun entity kind _ hkind hold => ?_
  obtain rfl := Option.some.inj (href.symm.trans hkind)
  cases entity with
  | set entries =>
    obtain ⟨_, ⟨⟩, hitems⟩ := hold
    exact ⟨element, rfl, hchange entries hitems⟩
  | _ => exact hold

theorem writeField {target value : Value} {key : FieldKey} (hkey : kinds.Holds key kind)
    (hvalue : value.OfKind kinds kind) : (writeField target key value heap).Kinded kinds := by
  unfold Machine.writeField
  split
  · refine h.modifyObject fun object _ hobject => ?_
    split
    · exact hobject.insert hkey hvalue
    · exact hobject
  · exact h

/-- A field that an object stores holds a value of the field's kind. -/
theorem readField {target value : Value} {key : FieldKey} (hkey : kinds.Holds key kind)
    (hread : readField? heap target key = some value) : value.OfKind kinds kind := by
  unfold readField? at hread
  split at hread
  case h_1 ref =>
    obtain ⟨object, hobject, hvalue⟩ := Option.bind_eq_some_iff.mp hread
    obtain ⟨kind', hkey', hkind'⟩ := (h.stored_object hobject).fields _ (Table.mem_of_get? hvalue)
    exact hkey.unique hkey' ▸ hkind'
  case h_2 => cases hread

end Heap.Kinded

end

/-! Elements of containers. -/

/-- What indices into a value of the first kind are of, and what they lead to. -/
inductive Kind.Indexed : Kind → IndexKind → Kind → Kind → Prop
  | array {element : Kind} : Indexed (.array element) .array .num element
  | map {key value : Kind} : Indexed (.map key value) .map key value
  | text : Indexed .text .text .num .text

/-- What a loop over a value of the first kind binds, with one variable or with two. -/
inductive Kind.Walked : Kind → IterKind → Bool → Kind → Option Kind → Prop
  | text : Walked .text .text false .text none
  | textPairs : Walked .text .text true .num (some .text)
  | array {element : Kind} : Walked (.array element) .array false element none
  | arrayPairs {element : Kind} : Walked (.array element) .array true .num (some element)
  | map {key value : Kind} : Walked (.map key value) .map false key none
  | mapPairs {key value : Kind} : Walked (.map key value) .map true key (some value)
  | set {element : Kind} : Walked (.set element) .set false element none

/-- What sets and arrays take up. -/
inductive Kind.Gathers : Kind → Kind → Prop
  | array {element : Kind} : Gathers (.array element) element
  | set {element : Kind} : Gathers (.set element) element

namespace Heap.Kinded

variable {kinds : Kinds} {heap : Heap} {container index value : Value} {kind : IndexKind}
variable {of indexOf content : Kind}
variable (h : heap.Kinded kinds)
include h

theorem array_items {ref : Ref} {items : Array Value} (href : kinds.Has ref (.array content))
    (hitems : heap.array? ref = some items) : ∀ item ∈ items, item.OfKind kinds content := by
  obtain ⟨_, ⟨⟩, hcontents⟩ := h.entity (array?_eq_some.mp hitems) href
  exact hcontents

theorem map_entries {ref : Ref} {entries : MapEntries} (href : kinds.Has ref (.map indexOf content))
    (hentries : heap.map? ref = some entries) : ∀ entry ∈ entries.values,
      entry.1.OfKind kinds indexOf ∧ entry.2.OfKind kinds content := by
  obtain ⟨_, _, ⟨⟩, hcontents⟩ := h.entity (map?_eq_some.mp hentries) href
  exact hcontents

theorem set_items {ref : Ref} {entries : SetEntries} (href : kinds.Has ref (.set content))
    (hentries : heap.set? ref = some entries) :
    ∀ item ∈ entries.values, item.OfKind kinds content := by
  obtain ⟨_, ⟨⟩, hcontents⟩ := h.entity (set?_eq_some.mp hentries) href
  exact hcontents

theorem element (hindexed : of.Indexed kind indexOf content) (hcontainer : container.OfKind kinds of)
    (hread : heap.element? container kind index = some value) : value.OfKind kinds content := by
  cases hindexed with
  | array =>
    rcases Value.ofKind_array.mp hcontainer with rfl | ⟨ref, rfl, href⟩
    · cases hread
    obtain ⟨items, hitems, hread⟩ := Option.bind_eq_some_iff.mp hread
    obtain ⟨position, -, hvalue⟩ := Option.bind_eq_some_iff.mp hread
    exact h.array_items href hitems value (Array.mem_of_getElem? hvalue)
  | map =>
    rcases Value.ofKind_map.mp hcontainer with rfl | ⟨ref, rfl, href⟩
    · cases hread
    obtain ⟨entries, hentries, hread⟩ := Option.bind_eq_some_iff.mp hread
    obtain ⟨entry, hentry, hvalue⟩ := Option.bind_eq_some_iff.mp hread
    cases hvalue
    exact (h.map_entries href hentries entry (Ordered.mem_values_of_get? hentry)).2
  | text =>
    obtain ⟨text, rfl⟩ := Value.ofKind_text.mp hcontainer
    obtain ⟨position, -, hread⟩ := Option.bind_eq_some_iff.mp hread
    obtain ⟨c, -, hvalue⟩ := Option.bind_eq_some_iff.mp hread
    cases hvalue
    rfl

theorem putElement (hindexed : of.Indexed kind indexOf content)
    (hcontainer : container.OfKind kinds of) (hindex : index.OfKind kinds indexOf)
    (hvalue : value.OfKind kinds content) :
    (heap.putElement container kind index value).Kinded kinds := by
  cases hindexed with
  | array =>
    rcases Value.ofKind_array.mp hcontainer with rfl | ⟨ref, rfl, href⟩
    · exact h
    refine h.modifyArray href fun items hitems item hmem => ?_
    unfold putAt at hmem
    split at hmem
    case h_2 => exact hitems item hmem
    case h_1 position _ =>
      split at hmem
      case isTrue =>
        rcases Array.mem_or_eq_of_mem_setIfInBounds hmem with hmem | rfl
        · exact hitems item hmem
        · exact hvalue
      case isFalse =>
        split at hmem
        case isTrue =>
          rcases Array.mem_push.mp hmem with hmem | rfl
          · exact hitems item hmem
          · exact hvalue
        case isFalse => exact hitems item hmem
  | map =>
    rcases Value.ofKind_map.mp hcontainer with rfl | ⟨ref, rfl, href⟩
    · exact h
    refine h.modifyMap href fun entries hentries entry hmem => ?_
    obtain ⟨keyed, hkeyed, rfl⟩ := List.mem_map.mp hmem
    rcases Ordered.mem_insert hkeyed with rfl | hkeyed
    · exact ⟨hindex, hvalue⟩
    · exact hentries _ (List.mem_map_of_mem hkeyed)
  | text =>
    obtain ⟨text, rfl⟩ := Value.ofKind_text.mp hcontainer
    exact h

theorem addElement (hgathers : of.Gathers content) (hcontainer : container.OfKind kinds of)
    (hvalue : value.OfKind kinds content) : (heap.addElement container value).Kinded kinds := by
  cases hgathers with
  | array =>
    rcases Value.ofKind_array.mp hcontainer with rfl | ⟨ref, rfl, href⟩
    · exact h
    refine h.modifyArray href fun items hitems item hmem => ?_
    rcases Array.mem_push.mp hmem with hmem | rfl
    · exact hitems item hmem
    · exact hvalue
  | set =>
    rcases Value.ofKind_set.mp hcontainer with rfl | ⟨ref, rfl, href⟩
    · exact h
    refine h.modifySet href fun entries hitems item hmem => ?_
    obtain ⟨keyed, hkeyed, rfl⟩ := List.mem_map.mp hmem
    rcases Ordered.mem_insert hkeyed with rfl | hkeyed
    · exact hvalue
    · exact hitems _ (List.mem_map_of_mem hkeyed)

/-- Whatever is removed, what is left is of its kind. -/
theorem removeElement (container : Value) (key : MapKey) :
    (heap.removeElement container key).Kinded kinds := by
  unfold Heap.removeElement
  split
  case h_1 ref =>
    refine h.modify fun entity kind _ _ hold => ?_
    cases entity with
    | map entries =>
      obtain ⟨keyOf, valueOf, rfl, hentries⟩ := hold
      exact ⟨keyOf, valueOf, rfl, fun entry hmem => hentries entry
        (((Ordered.drop_sublist entries.entries).map Prod.snd).subset hmem)⟩
    | _ => exact hold
  case h_2 ref =>
    refine h.modify fun entity kind _ _ hold => ?_
    cases entity with
    | set entries =>
      obtain ⟨itemOf, rfl, hitems⟩ := hold
      exact ⟨itemOf, rfl, fun item hmem => hitems item
        (((Ordered.drop_sublist entries.entries).map Prod.snd).subset hmem)⟩
    | _ => exact hold
  case h_3 => exact h

end Heap.Kinded

section

variable {kinds : Kinds} {kind : Kind} {items : List Value} {round : Value × Option Value}

theorem numbered_single (hitems : ∀ item ∈ items, item.OfKind kinds kind)
    (hround : round ∈ items.map fun item => (item, (none : Option Value))) :
    round.1.OfKind kinds kind := by
  obtain ⟨item, hmem, rfl⟩ := List.mem_map.mp hround
  exact hitems item hmem

theorem numbered_pair (hitems : ∀ item ∈ items, item.OfKind kinds kind)
    (hround : round ∈ items.mapIdx fun position item =>
      (Value.num (Float.ofNat position), some item)) :
    round.1.OfKind kinds .num ∧ ∃ item, round.2 = some item ∧ item.OfKind kinds kind := by
  obtain ⟨position, hposition, rfl⟩ := List.mem_mapIdx.mp hround
  exact ⟨rfl, _, rfl, hitems _ (List.getElem_mem hposition)⟩

end

/-- What a loop binds is of the kinds that its variables are of. -/
theorem Heap.Kinded.round {kinds : Kinds} {heap : Heap} {source : Value} {kind : IterKind}
    {pairs : Bool} {of first : Kind} {second : Option Kind} {round : Value × Option Value}
    (h : heap.Kinded kinds) (hwalked : of.Walked kind pairs first second)
    (hsource : source.OfKind kinds of) (hround : round ∈ heap.rounds source kind pairs) :
    round.1.OfKind kinds first ∧ ∀ other, second = some other →
      ∃ item, round.2 = some item ∧ item.OfKind kinds other := by
  have hchars : ∀ (content : String), ∀ item ∈ content.toList.map fun c =>
      Value.text (String.singleton c), item.OfKind kinds .text := by
    intro content item hmem
    obtain ⟨c, -, rfl⟩ := List.mem_map.mp hmem
    rfl
  have harray : ∀ {ref : Ref} {element : Kind}, kinds.Has ref (.array element) →
      ∀ item ∈ ((heap.array? ref).getD #[]).toList, item.OfKind kinds element := by
    intro ref element href item hmem
    cases hitems : heap.array? ref with
    | none => simp [hitems] at hmem
    | some items => exact h.array_items href hitems item (by simpa [hitems] using hmem)
  have hmap : ∀ {ref : Ref} {key value : Kind}, kinds.Has ref (.map key value) →
      ∀ entry ∈ ((heap.map? ref).getD ∅).values,
        entry.1.OfKind kinds key ∧ entry.2.OfKind kinds value := by
    intro ref key value href entry hmem
    cases hentries : heap.map? ref with
    | none => rw [hentries] at hmem; cases hmem
    | some entries =>
      rw [hentries] at hmem
      exact h.map_entries href hentries entry hmem
  cases hwalked with
  | text =>
    obtain ⟨content, rfl⟩ := Value.ofKind_text.mp hsource
    exact ⟨numbered_single (hchars content) hround, nofun⟩
  | textPairs =>
    obtain ⟨content, rfl⟩ := Value.ofKind_text.mp hsource
    obtain ⟨hfirst, hsecond⟩ := numbered_pair (hchars content) hround
    exact ⟨hfirst, by rintro _ ⟨⟩; exact hsecond⟩
  | array =>
    rcases Value.ofKind_array.mp hsource with rfl | ⟨ref, rfl, href⟩
    · cases hround
    exact ⟨numbered_single (harray href) hround, nofun⟩
  | arrayPairs =>
    rcases Value.ofKind_array.mp hsource with rfl | ⟨ref, rfl, href⟩
    · cases hround
    obtain ⟨hfirst, hsecond⟩ := numbered_pair (harray href) hround
    exact ⟨hfirst, by rintro _ ⟨⟩; exact hsecond⟩
  | map =>
    rcases Value.ofKind_map.mp hsource with rfl | ⟨ref, rfl, href⟩
    · cases hround
    obtain ⟨entry, hentry, rfl⟩ := List.mem_map.mp hround
    exact ⟨(hmap href entry hentry).1, nofun⟩
  | mapPairs =>
    rcases Value.ofKind_map.mp hsource with rfl | ⟨ref, rfl, href⟩
    · cases hround
    obtain ⟨entry, hentry, rfl⟩ := List.mem_map.mp hround
    exact ⟨(hmap href entry hentry).1, by rintro _ ⟨⟩; exact ⟨_, rfl, (hmap href entry hentry).2⟩⟩
  | set =>
    rcases Value.ofKind_set.mp hsource with rfl | ⟨ref, rfl, href⟩
    · cases hround
    obtain ⟨item, hitem, rfl⟩ := List.mem_map.mp hround
    refine ⟨?_, nofun⟩
    cases hentries : heap.set? ref with
    | none => rw [hentries] at hitem; cases hitem
    | some entries =>
      rw [hentries] at hitem
      exact h.set_items href hentries item hitem

/-! Operations of machines. -/

/-- The machine has the classes that `base` has, and at least its entities. -/
structure Kinds.Fits (base kinds : Kinds) (machine : Machine) : Prop where
  grown : base ≤ kinds
  classes : kinds.classes = base.classes
  kinded : machine.Kinded kinds

/-- Machines whose entities are of their kinds, whatever errors runs end in. -/
def Kinds.regime (base : Kinds) : Regime Kinds where
  fits := base.Fits
  fault _ := True

namespace Kinds.Fits

variable {base kinds later : Kinds} {machine : Machine} {kind : Kind} {ref : Ref}

theorem congr (h : base.Fits kinds machine) {other : Machine}
    (hclasses : other.classes = machine.classes) (htables : other.tables = machine.tables)
    (hheap : other.heap = machine.heap) : base.Fits kinds other :=
  ⟨h.grown, h.classes, hclasses.trans h.kinded.registry, htables ▸ h.kinded.tables,
    hheap ▸ h.kinded.heap⟩

theorem withHeap (h : base.Fits kinds machine) {heap : Heap} (hheap : heap.Kinded kinds) :
    base.Fits kinds { machine with heap } :=
  ⟨h.grown, h.classes, h.kinded.registry, h.kinded.tables, hheap⟩

theorem push (h : base.Fits kinds machine) (kind : Kind) {other : Machine}
    (hclasses : other.classes = machine.classes) (htables : other.tables = machine.tables)
    (hheap : other.heap.Kinded (kinds.push kind)) : base.Fits (kinds.push kind) other :=
  ⟨h.grown.trans (kinds.le_push kind), h.classes, hclasses.trans h.kinded.registry,
    htables ▸ h.kinded.tables, hheap⟩

end Kinds.Fits

section

variable {base kinds : Kinds} {machine : Machine} {kind : Kind} {ref : Ref} {value : Value}
variable (hfits : base.Fits kinds machine)
include hfits

theorem safe_onHeap {change : Heap → Heap}
    (hchange : ∀ heap : Heap, heap.Kinded kinds → (change heap).Kinded kinds) :
    base.regime.Safe kinds (onHeap change) machine fun _ _ _ => True :=
  Regime.Safe.modifyGet (le_refl kinds) (hfits.withHeap (hchange _ hfits.kinded.heap)) trivial

theorem safe_create {entity : Entity} (hentity : entity.OfKind kinds kind) :
    base.regime.Safe kinds (create entity) machine fun later _ ref => later.Has ref kind := by
  refine yields_create.mpr ?_
  obtain ⟨hheap, href⟩ := hfits.kinded.heap.alloc machine.odometer.peek hentity
  exact ⟨_, kinds.le_push kind, hfits.push kind rfl rfl hheap, href⟩

theorem safe_newArray {items : Array Value} (hitems : ∀ item ∈ items, item.OfKind kinds kind) :
    base.regime.Safe kinds (newArray items) machine
      fun later _ value => value.OfKind later (.array kind) := by
  have hentity : (Entity.array items).OfKind kinds (.array kind) := ⟨kind, rfl, hitems⟩
  exact (safe_create hfits hentity).bind fun _ _ ref _ hfits' href =>
    Regime.Safe.pure hfits' ⟨⟨kind, rfl⟩, href⟩

theorem safe_newMap (key content : Kind) :
    base.regime.Safe kinds newMap machine
      fun later _ value => value.OfKind later (.map key content) := by
  have hentity : (Entity.map ∅).OfKind kinds (.map key content) := ⟨key, content, rfl, nofun⟩
  exact (safe_create hfits hentity).bind fun _ _ ref _ hfits' href =>
    Regime.Safe.pure hfits' ⟨⟨key, content, rfl⟩, href⟩

theorem safe_newSet (kind : Kind) :
    base.regime.Safe kinds newSet machine fun later _ value => value.OfKind later (.set kind) := by
  have hentity : (Entity.set ∅).OfKind kinds (.set kind) := ⟨kind, rfl, nofun⟩
  exact (safe_create hfits hentity).bind fun _ _ ref _ hfits' href =>
    Regime.Safe.pure hfits' ⟨⟨kind, rfl⟩, href⟩

theorem safe_suggestion {steps : List Step} (hsteps : ∀ step ∈ steps, step.OfKind kinds) :
    base.regime.Safe kinds (newSuggestion steps) machine
      fun later _ value => value.OfKind later .suggestion :=
  Regime.Safe.modifyGet (le_refl kinds) (hfits.congr rfl rfl rfl)
    (Value.ofKind_suggestion.mpr ⟨_, _, rfl, hsteps⟩)

end

mutual

/-- The default of a type is of its kind. -/
theorem safe_default {base : Kinds} (constructed : Bool) : ∀ {ty : Ty} {kind : Kind} {kinds : Kinds}
    {machine : Machine}, ty.kind? = some kind → base.Fits kinds machine →
    base.regime.Safe kinds (defaultValue constructed ty) machine
      fun later _ value => value.OfKind later kind
  | .num, _, _, _, hkind, hfits | .text, _, _, _, hkind, hfits | .bool, _, _, _, hkind, hfits
  | .void, _, _, _, hkind, hfits | .object _, _, _, _, hkind, hfits => by
    cases hkind
    exact Regime.Safe.pure hfits rfl
  | .suggestion, _, _, _, hkind, hfits => by
    cases hkind
    exact safe_suggestion hfits nofun
  | .null, _, _, _, hkind, _ | .method .., _, _, _, hkind, _ => by cases hkind
  | .array _, _, _, _, hkind, hfits => by
    obtain ⟨inner, -, rfl⟩ := Ty.kind?_array.mp hkind
    cases constructed with
    | false => exact Regime.Safe.pure hfits rfl
    | true => exact safe_newArray hfits (by simp)
  | .set _, _, _, _, hkind, hfits => by
    obtain ⟨inner, -, rfl⟩ := Ty.kind?_set.mp hkind
    cases constructed with
    | false => exact Regime.Safe.pure hfits rfl
    | true => exact safe_newSet hfits inner
  | .map _ _, _, _, _, hkind, hfits => by
    obtain ⟨key, content, -, -, rfl⟩ := Ty.kind?_map.mp hkind
    cases constructed with
    | false => exact Regime.Safe.pure hfits rfl
    | true => exact safe_newMap hfits key content
  | .tuple elements, _, _, _, hkind, hfits => by
    obtain ⟨elementKinds, hkinds, rfl⟩ := Ty.kind?_tuple.mp hkind
    exact (safe_defaults constructed hkinds hfits).bind fun _ _ values _ hfits' hvalues =>
      Regime.Safe.pure hfits' (Value.ofKind_tuple.mpr ⟨values, rfl, hvalues⟩)

theorem safe_defaults {base : Kinds} (constructed : Bool) : ∀ {types : List Ty} {all : List Kind}
    {kinds : Kinds} {machine : Machine}, Ty.kinds? types = some all → base.Fits kinds machine →
    base.regime.Safe kinds (defaultValues constructed types) machine
      fun later _ values => List.Forall₂ (Value.OfKind later) values all
  | [], _, _, _, hkinds, hfits => by
    cases hkinds
    exact Regime.Safe.pure hfits .nil
  | _ :: _, _, _, _, hkinds, hfits => by
    obtain ⟨kind, others, hkind, hothers, rfl⟩ := Ty.kinds?_cons.mp hkinds
    refine (safe_default constructed hkind hfits).bind fun _ _ value _ hfits' hvalue => ?_
    refine (safe_defaults constructed hothers hfits').bind fun _ _ values hle hfits'' hvalues => ?_
    exact Regime.Safe.pure hfits'' (.cons (hvalue.mono hle) hvalues)

end

section

variable {base kinds : Kinds} {machine : Machine} {kind : Kind} {ref : Ref} {value : Value}
variable (hfits : base.Fits kinds machine)
include hfits

/-- A copy is of the kind of the original. -/
theorem safe_clone (hvalue : value.OfKind kinds kind) :
    base.regime.Safe kinds (cloneValue value) machine fun later _ copy => copy.OfKind later kind := by
  have hheap := hfits.kinded.heap
  have hsame : base.regime.Safe kinds (pure value) machine
      fun later _ copy => copy.OfKind later kind := Regime.Safe.pure hfits hvalue
  unfold cloneValue
  refine Regime.Safe.bind_get ?_
  dsimp only
  split
  case h_1 ref =>
    obtain ⟨rfl, href⟩ := hvalue
    split
    case h_2 => exact hsame
    case h_1 object hobject =>
      obtain ⟨hworn, htable, hfields⟩ := hheap.stored_object hobject
      have hentity : (Entity.object { object with random := {} }).OfKind kinds .object :=
        ⟨rfl, hworn, htable, hfields⟩
      exact (safe_create hfits hentity).bind fun _ _ _ _ hfits' href' =>
        Regime.Safe.pure hfits' ⟨rfl, href'⟩
  case h_2 ref =>
    split
    case h_2 => exact hsame
    case h_1 items hitems =>
      have hentity := hheap.entity (Heap.array?_eq_some.mp hitems) hvalue.2
      exact (safe_create hfits hentity).bind
        fun _ _ _ _ hfits' href' => Regime.Safe.pure hfits' ⟨hvalue.1, href'⟩
  case h_3 ref =>
    split
    case h_2 => exact hsame
    case h_1 entries hentries =>
      have hentity := hheap.entity (Heap.map?_eq_some.mp hentries) hvalue.2
      exact (safe_create hfits hentity).bind
        fun _ _ _ _ hfits' href' => Regime.Safe.pure hfits' ⟨hvalue.1, href'⟩
  case h_4 ref =>
    split
    case h_2 => exact hsame
    case h_1 entries hentries =>
      have hentity := hheap.entity (Heap.set?_eq_some.mp hentries) hvalue.2
      exact (safe_create hfits hentity).bind
        fun _ _ _ _ hfits' href' => Regime.Safe.pure hfits' ⟨hvalue.1, href'⟩
  case h_5 => exact hsame

theorem safe_drawRandom (ref : Ref) :
    base.regime.Safe kinds (drawRandom ref) machine fun _ _ _ => True := by
  refine Regime.Safe.modifyGet (le_refl kinds) ?_ trivial
  split
  case h_1 => exact hfits.withHeap (hfits.kinded.heap.modifyObject fun _ _ h => ⟨h.1, h.2, h.3⟩)
  case h_2 => exact hfits

theorem safe_initializeField {key : FieldKey} (hkey : kinds.Holds key kind)
    (hvalue : value.OfKind kinds kind) :
    base.regime.Safe kinds (initializeField ref key value) machine fun _ _ _ => True := by
  refine safe_onHeap hfits fun heap hheap => hheap.modifyObject fun object _ hobject => ?_
  split
  · unfold Table.insertIfNew
    split
    · exact hobject
    · exact hobject.insert hkey hvalue
  · exact hobject

/-- A method table holds what is installed. -/
theorem safe_methodTable (hcomposed : base.classes.Composed) {worn : List ClassId}
    (hworn : ∀ cls ∈ worn, kinds.classes.contains cls) :
    base.regime.Safe kinds (methodTable (machine.classes.manifest worn)) machine
      fun later _ table => later.classes = kinds.classes ∧ ∀ slot routine,
        table.get? slot = some routine → kinds.classes.Installed slot routine := by
  have hmanifest : ∀ cls ∈ kinds.classes.manifest worn, kinds.classes.contains cls := by
    rw [hfits.classes] at hworn ⊢
    exact fun _ => ClassRegistry.contains_of_mem_manifest hcomposed.parents hworn
  obtain ⟨htable, htables⟩ := TableCache.request_transparent hfits.kinded.tables hmanifest
  rw [← hfits.kinded.registry] at htable htables ⊢
  refine Regime.Safe.modifyGet (le_refl kinds) ?_ ⟨hfits.kinded.registry.symm, ?_⟩
  · exact ⟨hfits.grown, hfits.classes, hfits.kinded.registry, hfits.kinded.registry ▸ htables,
      hfits.kinded.heap⟩
  · intro slot routine hslot
    exact ClassRegistry.installed_of_mem_methodsOf (htable ▸ Table.mem_of_get? hslot)

theorem safe_installManifest (hcomposed : base.classes.Composed) (ref : Ref) :
    base.regime.Safe kinds (installManifest ref) machine fun _ _ _ => True := by
  unfold installManifest
  refine Regime.Safe.bind_get ?_
  split
  case h_1 => exact Regime.Safe.pure hfits trivial
  case h_2 object hobject =>
    have hworn := (hfits.kinded.heap.stored_object hobject).worn
    refine (safe_methodTable hfits hcomposed hworn).bind ?_
    rintro later machine' table - hfits' ⟨hclasses, htable⟩
    refine safe_onHeap hfits' fun heap hheap => hheap.modifyObject fun stored _ hstored => ?_
    exact ⟨hstored.worn, fun hslot => hclasses ▸ htable _ _ hslot,
      fun entry hmem => hstored.fields entry (Table.mem_restrict.mp hmem).1⟩

theorem safe_classRoutine (hcomposed : base.classes.Composed) {cls : ClassId}
    (hcls : kinds.classes.contains cls) (slot : MethodSlot) :
    base.regime.Safe kinds (classRoutine? cls slot) machine fun _ _ answer =>
      ∀ routine, answer = some routine → base.classes.Installed slot routine := by
  unfold classRoutine?
  refine Regime.Safe.bind_get ?_
  have hworn : ∀ other ∈ [cls], kinds.classes.contains other := fun other hmem =>
    List.mem_singleton.mp hmem ▸ hcls
  refine (safe_methodTable hfits hcomposed hworn).bind ?_
  rintro later machine' table - hfits' ⟨-, htable⟩
  exact Regime.Safe.pure hfits' fun routine hroutine => hfits.classes ▸ htable _ _ hroutine

end

end Attire
