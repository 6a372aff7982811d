import Attire.Proofs.Keys
import Attire.Proofs.Number.Ranks
import Attire.Proofs.Runs.Contents
import Attire.Proofs.Wheels

namespace Attire

/-! The order of keys is total, and what is iterated in it does not depend on how it came about. -/

/-- A key as it is stored: numbers by their patterns, and texts by their bytes. -/
inductive StoredKey
  | null
  | bool (value : Bool)
  | num (bits : UInt64)
  | text (content : String)
  | ref (id : Id)
  | encoded (content : String)

namespace StoredKey

def kind : StoredKey → Nat
  | null => 0
  | bool _ => 1
  | num _ => 2
  | text _ => 3
  | ref _ => 4
  | encoded _ => 5

/-- Keys of different kinds are ordered as the constructors are listed. -/
def order : StoredKey → StoredKey → Ordering
  | bool a, bool b => compare a.toNat b.toNat
  | num a, num b => patternOrder a b
  | text a, text b => compare (bytes a) (bytes b)
  | ref a, ref b => compare a.label b.label
  | encoded a, encoded b => compare (bytes a) (bytes b)
  | a, b => compare a.kind b.kind

/-- Numbers are the same if none of them comes first.  Anything else must be identical. -/
def same : StoredKey → StoredKey → Bool
  | null, null => true
  | bool a, bool b => a = b
  | num a, num b => patternOrder a b = .eq
  | text a, text b => a = b
  | ref a, ref b => a.label = b.label
  | encoded a, encoded b => a = b
  | _, _ => false

def key : StoredKey → MapKey
  | null => .null
  | bool value => .bool value
  | num bits => .num (patternRank bits)
  | text content => .text content
  | ref id => .ref id
  | encoded content => .encoded content

def ofValue : Value → StoredKey
  | .null => null
  | .bool value => bool value
  | .num number => num number.toBits
  | .text content => text content
  | .object entity | .array entity | .map entity | .set entity => ref entity.id
  | .tuple items => encoded (Value.encode (.tuple items))
  | .suggestion stamp steps => encoded (Value.encode (.suggestion stamp steps))

theorem key_ofValue (value : Value) : (ofValue value).key = MapKey.ofValue value := by
  cases value with
  | num number => exact congrArg MapKey.num (numberRank_eq number).symm
  | _ => rfl

theorem compare_key (a b : StoredKey) : compare a.key b.key = order a b := by
  change MapKey.order a.key b.key = order a b
  cases a <;> cases b
  case num.num a b => exact compare_patternRank a b
  case text.text a b => exact (compare_bytes a b).symm
  case ref.ref a b => exact (Id.compare_label a b).symm
  case encoded.encoded a b => exact (compare_bytes a b).symm
  all_goals rfl

theorem same_iff (a b : StoredKey) : same a b ↔ a.key = b.key := by
  have hlabel : ∀ {a b : Id}, a.label = b.label ↔ a = b :=
    ⟨fun h => Id.text_injective (congrArg Label.text h), congrArg Id.label⟩
  cases a <;> cases b
  case num.num a b =>
    rw [same, decide_eq_true_iff, ← compare_patternRank, Nat.compare_eq_eq, key, key,
      MapKey.num.injEq]
  all_goals simp [same, key, hlabel]

end StoredKey

/-! Changes of containers. -/

/-- A change of a map or a set: an entry is put under its key, or a key is removed. -/
inductive Edit (α : Type)
  | put (entry : α)
  | remove (index : Value)

namespace Edit

variable {α : Type} (keyOf : α → MapKey)

/-- What is bound to the keys after a change. -/
def rebind (bound : MapKey → Option α) : Edit α → MapKey → Option α
  | put entry, key => if key = keyOf entry then some entry else bound key
  | remove index, key => if key = MapKey.ofValue index then none else bound key

/-- What is bound to the keys after all changes of an empty container. -/
def bindings (edits : List (Edit α)) : MapKey → Option α :=
  edits.foldl (rebind keyOf) fun _ => none

def apply (table : Ordered MapKey α) : Edit α → Ordered MapKey α
  | put entry => table.insert (keyOf entry) entry
  | remove index => table.erase (MapKey.ofValue index)

def applyAll (edits : List (Edit α)) : Ordered MapKey α := edits.foldl (apply keyOf) ∅

theorem sorted_apply {table : Ordered MapKey α} (h : table.Sorted) (edit : Edit α) :
    (edit.apply keyOf table).Sorted := by
  cases edit with
  | put entry => exact h.insert
  | remove index => exact h.erase

theorem get?_apply {table : Ordered MapKey α} (h : table.Sorted) (edit : Edit α) :
    (edit.apply keyOf table).get? = edit.rebind keyOf table.get? := by
  funext key
  cases edit with
  | put entry => exact h.get?_insert
  | remove index => exact h.get?_erase

theorem applyAll_spec (edits : List (Edit α)) :
    (applyAll keyOf edits).Sorted ∧ (applyAll keyOf edits).get? = bindings keyOf edits := by
  have hall : ∀ (table : Ordered MapKey α), table.Sorted →
      (edits.foldl (apply keyOf) table).Sorted ∧
        (edits.foldl (apply keyOf) table).get? = edits.foldl (rebind keyOf) table.get? := by
    induction edits with
    | nil => exact fun table h => ⟨h, rfl⟩
    | cons edit edits ih =>
      intro table h
      obtain ⟨hsorted, hget⟩ := ih _ (sorted_apply keyOf h edit)
      exact ⟨hsorted, hget.trans (by rw [get?_apply keyOf h, List.foldl_cons])⟩
  exact hall ∅ List.Pairwise.nil

variable {keyOf}

/-- Whatever is bound to a key is an entry of that key. -/
theorem keyOf_of_bindings {edits : List (Edit α)} {key : MapKey} {entry : α}
    (h : bindings keyOf edits key = some entry) : keyOf entry = key := by
  have hrebind : ∀ (bound : MapKey → Option α) (edit : Edit α),
      (∀ key entry, bound key = some entry → keyOf entry = key) →
        ∀ key entry, edit.rebind keyOf bound key = some entry → keyOf entry = key := by
    intro bound edit hbound key entry h
    cases edit with
    | put other =>
      rw [rebind] at h
      split at h
      case isTrue heq => rw [heq, Option.some.inj h]
      case isFalse => exact hbound key entry h
    | remove index =>
      rw [rebind] at h
      split at h
      case isTrue => cases h
      case isFalse => exact hbound key entry h
  have hempty : ∀ (key : MapKey) (entry : α), none = some entry → keyOf entry = key := nofun
  exact List.foldlRecOn (motive := fun bound => ∀ key entry, bound key = some entry →
    keyOf entry = key) edits (rebind keyOf) hempty
    (fun bound hbound edit _ => hrebind bound edit hbound) key entry h

theorem mem_entries_iff {edits : List (Edit α)} {key : MapKey} {entry : α} :
    (key, entry) ∈ (applyAll keyOf edits).entries ↔ bindings keyOf edits key = some entry := by
  obtain ⟨hsorted, hget⟩ := applyAll_spec keyOf edits
  rw [← hget, hsorted.get?_eq_some_iff]

theorem mem_values_iff {edits : List (Edit α)} {entry : α} :
    entry ∈ (applyAll keyOf edits).values ↔ bindings keyOf edits (keyOf entry) = some entry := by
  constructor
  · intro h
    obtain ⟨⟨key, _⟩, hmem, rfl⟩ := List.mem_map.mp h
    have hbound := mem_entries_iff.mp hmem
    rwa [keyOf_of_bindings hbound]
  · exact fun h => List.mem_map.mpr ⟨_, mem_entries_iff.mpr h, rfl⟩

theorem pairwise_values (edits : List (Edit α)) :
    (applyAll keyOf edits).values.Pairwise fun a b => compare (keyOf a) (keyOf b) = .lt := by
  refine List.pairwise_map.mpr ((applyAll_spec keyOf edits).1.imp_of_mem ?_)
  intro a b ha hb hlt
  rwa [keyOf_of_bindings (mem_entries_iff.mp ha), keyOf_of_bindings (mem_entries_iff.mp hb)]

/-- Containers with the same bindings are the same, whatever was done to them. -/
theorem applyAll_congr {edits others : List (Edit α)}
    (h : bindings keyOf edits = bindings keyOf others) :
    applyAll keyOf edits = applyAll keyOf others := by
  obtain ⟨hsorted, hget⟩ := applyAll_spec keyOf edits
  obtain ⟨hsorted', hget'⟩ := applyAll_spec keyOf others
  exact hsorted.ext_get? hsorted' fun key => by rw [hget, hget', h]

end Edit

/-! Changes of the containers of a heap, and loops over them. -/

namespace Heap

variable {heap : Heap} {ref : Ref} {id : Id}

def editMap (ref : Ref) (heap : Heap) : Edit (Value × Value) → Heap
  | .put (index, value) => heap.putElement (.map ref) .map index value
  | .remove index => heap.removeElement (.map ref) (MapKey.ofValue index)

def editSet (ref : Ref) (heap : Heap) : Edit Value → Heap
  | .put value => heap.addElement (.set ref) value
  | .remove value => heap.removeElement (.set ref) (MapKey.ofValue value)

/-- The rounds of a loop over a new map, after changes. -/
def roundsOfMap (heap : Heap) (id : Id) (edits : List (Edit (Value × Value))) (pairs : Bool) :
    List (Value × Option Value) :=
  let (ref, heap) := heap.alloc id (.map ∅)
  (edits.foldl (editMap ref) heap).rounds (.map ref) .map pairs

/-- The rounds of a loop over a new set, after changes. -/
def roundsOfSet (heap : Heap) (id : Id) (edits : List (Edit Value)) (pairs : Bool) :
    List (Value × Option Value) :=
  let (ref, heap) := heap.alloc id (.set ∅)
  (edits.foldl (editSet ref) heap).rounds (.set ref) .set pairs

abbrev mapKey (entry : Value × Value) : MapKey := MapKey.ofValue entry.1

theorem map?_modifyMap {entries : MapEntries} (h : heap.map? ref = some entries)
    (change : MapEntries → MapEntries) :
    (heap.modifyMap ref change).map? ref = some (change entries) := by
  rw [map?_eq_some] at h ⊢
  rw [modifyMap, entity?_modify, if_pos rfl, h]
  rfl

theorem set?_modifySet {entries : SetEntries} (h : heap.set? ref = some entries)
    (change : SetEntries → SetEntries) :
    (heap.modifySet ref change).set? ref = some (change entries) := by
  rw [set?_eq_some] at h ⊢
  rw [modifySet, entity?_modify, if_pos rfl, h]
  rfl

theorem map?_edits {entries : MapEntries} (h : heap.map? ref = some entries)
    (edits : List (Edit (Value × Value))) :
    (edits.foldl (editMap ref) heap).map? ref = some (edits.foldl (Edit.apply mapKey) entries) := by
  induction edits generalizing heap entries with
  | nil => exact h
  | cons edit edits ih => cases edit <;> exact ih (map?_modifyMap h _)

theorem set?_edits {entries : SetEntries} (h : heap.set? ref = some entries)
    (edits : List (Edit Value)) :
    (edits.foldl (editSet ref) heap).set? ref =
      some (edits.foldl (Edit.apply MapKey.ofValue) entries) := by
  induction edits generalizing heap entries with
  | nil => exact h
  | cons edit edits ih => cases edit <;> exact ih (set?_modifySet h _)

theorem roundsOfMap_eq (heap : Heap) (id : Id) (edits : List (Edit (Value × Value)))
    (pairs : Bool) : heap.roundsOfMap id edits pairs =
      (Edit.applyAll mapKey edits).values.map fun entry => (entry.1, some entry.2) := by
  have hnew : (heap.alloc id (.map ∅)).2.map? (heap.alloc id (.map ∅)).1 = some ∅ :=
    map?_eq_some.mpr entity?_alloc
  unfold roundsOfMap rounds
  dsimp only
  rw [map?_edits hnew]
  rfl

theorem roundsOfSet_eq (heap : Heap) (id : Id) (edits : List (Edit Value)) (pairs : Bool) :
    heap.roundsOfSet id edits pairs =
      (Edit.applyAll MapKey.ofValue edits).values.map fun item => (item, none) := by
  have hnew : (heap.alloc id (.set ∅)).2.set? (heap.alloc id (.set ∅)).1 = some ∅ :=
    set?_eq_some.mpr entity?_alloc
  unfold roundsOfSet rounds
  dsimp only
  rw [set?_edits hnew]
  rfl

end Heap

/-- The canonical order is a total order that agrees with equality, and it is the order of the keys
of values.  A loop over a map or a set takes what is bound there once each, in increasing order of
the keys, and does not depend on the changes by which the bindings came about. -/
theorem canonical_order :
    (∀ a b c : StoredKey,
      a.order a = .eq ∧
      ((a.order b).isLE → (b.order a).isLE → a.same b) ∧
      ((a.order b).isLE → (b.order c).isLE → (a.order c).isLE) ∧
      ((a.order b).isLE ∨ (b.order a).isLE) ∧
      b.order a = (a.order b).swap ∧
      (a.order b = .eq ↔ a.same b) ∧
      compare a.key b.key = a.order b ∧
      (a.key = b.key ↔ a.same b)) ∧
    (∀ value : Value, (StoredKey.ofValue value).key = MapKey.ofValue value) ∧
    (∀ (heap heap' : Heap) (id id' : Id) (edits edits' : List (Edit (Value × Value)))
        (pairs : Bool),
      (Edit.bindings Heap.mapKey edits = Edit.bindings Heap.mapKey edits' →
        heap.roundsOfMap id edits pairs = heap'.roundsOfMap id' edits' pairs) ∧
      (heap.roundsOfMap id edits pairs).Pairwise (fun first later =>
        compare (MapKey.ofValue first.1) (MapKey.ofValue later.1) = .lt) ∧
      ∀ index value, (index, some value) ∈ heap.roundsOfMap id edits pairs ↔
        Edit.bindings Heap.mapKey edits (MapKey.ofValue index) = some (index, value)) ∧
    ∀ (heap heap' : Heap) (id id' : Id) (edits edits' : List (Edit Value)) (pairs : Bool),
      (Edit.bindings MapKey.ofValue edits = Edit.bindings MapKey.ofValue edits' →
        heap.roundsOfSet id edits pairs = heap'.roundsOfSet id' edits' pairs) ∧
      (heap.roundsOfSet id edits pairs).Pairwise (fun first later =>
        compare (MapKey.ofValue first.1) (MapKey.ofValue later.1) = .lt) ∧
      ∀ item, (item, none) ∈ heap.roundsOfSet id edits pairs ↔
        Edit.bindings MapKey.ofValue edits (MapKey.ofValue item) = some item := by
  refine ⟨fun a b c => ?_, StoredKey.key_ofValue, fun heap heap' id id' edits edits' pairs => ?_,
    fun heap heap' id id' edits edits' pairs => ?_⟩
  · have hswap : compare b.key a.key = (compare a.key b.key).swap := Std.OrientedCmp.eq_swap
    simp only [← StoredKey.compare_key, StoredKey.same_iff, Std.LawfulEqOrd.compare_eq_iff_eq,
      and_true, true_and]
    refine ⟨fun hle hge => ?_, Std.TransCmp.isLE_trans, ?_, hswap⟩
    · exact Std.LawfulEqOrd.eq_of_compare (Std.OrientedCmp.isLE_antisymm hle hge)
    · rw [hswap]
      cases compare a.key b.key <;> simp
  · simp only [Heap.roundsOfMap_eq]
    refine ⟨fun h => by rw [Edit.applyAll_congr h], ?_, fun index value => ?_⟩
    · exact List.pairwise_map.mpr (Edit.pairwise_values edits)
    · have hbound : (index, value) ∈ (Edit.applyAll Heap.mapKey edits).values ↔ _ :=
        Edit.mem_values_iff
      simp [← hbound]
  · simp only [Heap.roundsOfSet_eq]
    refine ⟨fun h => by rw [Edit.applyAll_congr h], ?_, fun item => ?_⟩
    · exact List.pairwise_map.mpr (Edit.pairwise_values edits)
    · rw [← Edit.mem_values_iff]
      simp

end Attire
