import Attire.Proofs.Snapshot.Numerals
import Attire.Proofs.Tables
import Attire.Snapshot.Capture

namespace Attire

open SnapDecode

/-! What snapshots are encoded to is decoded to them. -/

namespace Json

mutual

/-- How many containers of a value stand inside of each other. -/
def nesting : Json → Nat
  | list items => nestingOfItems items + 1
  | object members => nestingOfMembers members + 1
  | null | bool _ | number _ | string _ | flawed => 0

def nestingOfItems : List Json → Nat
  | [] => 0
  | item :: rest => max (nesting item) (nestingOfItems rest)

def nestingOfMembers : List (String × Json) → Nat
  | [] => 0
  | (_, value) :: rest => max (nesting value) (nestingOfMembers rest)

end

theorem nestingOfItems_le {items : List Json} {room : Nat} :
    nestingOfItems items ≤ room ↔ ∀ item ∈ items, item.nesting ≤ room := by
  induction items with
  | nil => simp [nestingOfItems]
  | cons item rest ih => rw [nestingOfItems, Nat.max_le, ih, List.forall_mem_cons]

theorem nestingOfMembers_le {members : List (String × Json)} {room : Nat} :
    nestingOfMembers members ≤ room ↔ ∀ member ∈ members, member.2.nesting ≤ room := by
  induction members with
  | nil => simp [nestingOfMembers]
  | cons member rest ih => rw [nestingOfMembers, Nat.max_le, ih, List.forall_mem_cons]

@[simp] theorem sound_string (text : String) (room : Nat) : (string text).sound room = true := rfl

theorem sound_object {members : List (String × Json)} {room : Nat}
    (h : ∀ member ∈ members, member.2.sound room) : (object members).sound (room + 1) := by
  have hall : ∀ members : List (String × Json), (∀ member ∈ members, member.2.sound room) →
      soundMembers room members := by
    intro members
    induction members with
    | nil => exact fun _ => rfl
    | cons member rest ih =>
      intro h
      rw [soundMembers, h member (List.mem_cons_self ..),
        ih fun other hmem => h other (List.mem_cons_of_mem _ hmem), Bool.and_self]
  simpa [sound] using hall members h

theorem sound_list {items : List Json} {room : Nat} (h : ∀ item ∈ items, item.sound room) :
    (list items).sound (room + 1) := by
  have hall : ∀ items : List Json, (∀ item ∈ items, item.sound room) → soundItems room items := by
    intro items
    induction items with
    | nil => exact fun _ => rfl
    | cons item rest ih =>
      intro h
      rw [soundItems, h item (List.mem_cons_self ..),
        ih fun other hmem => h other (List.mem_cons_of_mem _ hmem), Bool.and_self]
  simpa [sound] using hall items h

end Json

theorem mapM_eq_some {α β : Type} {read : α → Option β} {write : β → α} {items : List β}
    (h : ∀ item ∈ items, read (write item) = some item) :
    (items.map write).mapM read = some items := by
  induction items with
  | nil => rfl
  | cons item rest ih =>
    rw [List.map_cons, List.mapM_cons, h item (List.mem_cons_self ..),
      ih fun other hmem => h other (List.mem_cons_of_mem _ hmem)]
    rfl

/-! Values. -/

theorem asNode_tagged (kind : String) (content : Json) (room : Nat) :
    Json.asNode "kind" "value" (room + 1) (tagged kind content) =
      some ⟨kind, some content, room⟩ := by
  simp [Json.asNode, tagged, Json.asFields, Json.Fields.required, Json.Fields.get?, Json.asName]

theorem asNode_null (room : Nat) :
    Json.asNode "kind" "value" (room + 1) (.object [("kind", .string "null")]) =
      some ⟨"null", none, room⟩ := by
  simp [Json.asNode, Json.asFields, Json.Fields.required, Json.Fields.get?, Json.asName]

theorem nesting_tagged (kind : String) (content : Json) :
    (tagged kind content).nesting = content.nesting + 1 := by
  simp [tagged, Json.nesting, Json.nestingOfMembers]

theorem nesting_encodeNumber (x : Float) : (encodeNumber x).nesting = 0 := by
  unfold encodeNumber
  split <;> simp [Json.nesting]

theorem sound_tagged {kind : String} {content : Json} {room : Nat} (h : content.sound room) :
    (tagged kind content).sound (room + 1) :=
  Json.sound_object (by simp [h])

mutual

theorem sound_encode (value : SnapValue) {room : Nat} (h : value.encode.nesting ≤ room) :
    value.encode.sound room := by
  obtain ⟨room, rfl⟩ : ∃ less, room = less + 1 := by
    refine ⟨room - 1, ?_⟩
    cases value <;> simp only [SnapValue.encode, nesting_tagged, Json.nesting] at h <;> omega
  cases value with
  | null => exact Json.sound_object (by simp)
  | num number => exact sound_tagged (sound_encodeNumber number room)
  | bool | text | ref => exact sound_tagged rfl
  | tuple items =>
    simp only [SnapValue.encode, nesting_tagged, Json.nesting] at h
    obtain ⟨room, rfl⟩ : ∃ less, room = less + 1 := ⟨room - 1, by omega⟩
    exact sound_tagged (Json.sound_list (sound_encodeAll items (by omega)))
  | suggestion steps =>
    simp only [SnapValue.encode, nesting_tagged, Json.nesting] at h
    obtain ⟨room, rfl⟩ : ∃ less, room = less + 1 := ⟨room - 1, by omega⟩
    exact sound_tagged (Json.sound_list (sound_encodeSteps steps (by omega)))

theorem sound_encodeAll (values : List SnapValue) {room : Nat}
    (h : Json.nestingOfItems (SnapValue.encodeAll values) ≤ room) :
    ∀ item ∈ SnapValue.encodeAll values, item.sound room := by
  cases values with
  | nil => exact nofun
  | cons value rest =>
    simp only [SnapValue.encodeAll, Json.nestingOfItems] at h
    have hvalue := sound_encode value (by omega : _ ≤ room)
    have hrest := sound_encodeAll rest (by omega : _ ≤ room)
    exact List.forall_mem_cons.mpr ⟨hvalue, hrest⟩

theorem sound_encodeStep (step : SnapStep) {room : Nat} (h : step.encode.nesting ≤ room) :
    step.encode.sound room := by
  obtain ⟨room, rfl⟩ : ∃ less, room = less + 1 := by
    refine ⟨room - 1, ?_⟩
    cases step <;> simp only [SnapStep.encode, Json.nesting] at h <;> omega
  cases step with
  | extend target cls | retract target cls =>
    simp only [SnapStep.encode, Json.nesting, Json.nestingOfMembers] at h
    have htarget := sound_encode target (by omega : _ ≤ room)
    exact Json.sound_object (by simp [htarget])
  | call target caller origin method args =>
    simp only [SnapStep.encode, Json.nesting, Json.nestingOfMembers] at h
    obtain ⟨room, rfl⟩ : ∃ less, room = less + 1 := ⟨room - 1, by omega⟩
    have htarget := sound_encode target (by omega : _ ≤ room + 1)
    have hcaller := sound_encode caller (by omega : _ ≤ room + 1)
    have hargs := Json.sound_list (sound_encodeAll args (by omega : _ ≤ room))
    exact Json.sound_object (by simp [htarget, hcaller, hargs])

theorem sound_encodeSteps (steps : List SnapStep) {room : Nat}
    (h : Json.nestingOfItems (SnapStep.encodeAll steps) ≤ room) :
    ∀ item ∈ SnapStep.encodeAll steps, item.sound room := by
  cases steps with
  | nil => exact nofun
  | cons step rest =>
    simp only [SnapStep.encodeAll, Json.nestingOfItems] at h
    have hstep := sound_encodeStep step (by omega : _ ≤ room)
    have hrest := sound_encodeSteps rest (by omega : _ ≤ room)
    exact List.forall_mem_cons.mpr ⟨hstep, hrest⟩

end

/-- What a tagged value is read as. -/
theorem asNested_tagged (kind : String) (content : Json) (steps room : Nat) :
    asNested (steps + 1) (room + 1) (tagged kind content) =
      match kind with
      | "null" => (Json.Node.mk kind content room).unit .null
      | "num" => (asNumber room content).map .num
      | "bool" => (Json.asBool room content).map .bool
      | "str" => (Json.asText room content).map .text
      | "ref" => (Json.asText room content).map .ref
      | "tuple" => (Json.asList (asNested steps) room content).map .tuple
      | "suggestion" => (Json.asList (asStep (asNested steps)) room content).map .suggestion
      | _ => none := by
  simp only [asNested, asNode_tagged, Option.bind_eq_bind, Option.bind_some]
  split <;> simp only [Json.Node.value, Option.bind_some, Option.map_eq_bind, Option.pure_def,
    Function.comp_def]

mutual

/-- Every level of a value takes room for a container at least, so the steps are enough. -/
theorem asNested_encode (value : SnapValue) {steps room : Nat}
    (h : value.encode.nesting ≤ room) (hsteps : room < steps) :
    asNested steps room value.encode = some value := by
  obtain ⟨steps, rfl⟩ : ∃ fewer, steps = fewer + 1 := ⟨steps - 1, by omega⟩
  obtain ⟨room, rfl⟩ : ∃ less, room = less + 1 := by
    refine ⟨room - 1, ?_⟩
    cases value <;> simp only [SnapValue.encode, nesting_tagged, Json.nesting] at h <;> omega
  cases value with
  | null => simp [SnapValue.encode, asNested, asNode_null, Json.Node.unit]
  | num number => simp [SnapValue.encode, asNested_tagged, asNumber_encodeNumber]
  | bool | text | ref =>
    rw [SnapValue.encode, asNested_tagged]
    rfl
  | tuple items =>
    simp only [SnapValue.encode, nesting_tagged, Json.nesting] at h
    obtain ⟨room, rfl⟩ : ∃ less, room = less + 1 := ⟨room - 1, by omega⟩
    have hitems := asNested_encodeAll items (by omega) (by omega : room < steps)
    simp [SnapValue.encode, asNested_tagged, Json.asList, hitems]
  | suggestion items =>
    simp only [SnapValue.encode, nesting_tagged, Json.nesting] at h
    obtain ⟨room, rfl⟩ : ∃ less, room = less + 1 := ⟨room - 1, by omega⟩
    have hitems := asStep_encodeAll items (by omega) (by omega : room < steps)
    simp [SnapValue.encode, asNested_tagged, Json.asList, hitems]

theorem asNested_encodeAll (values : List SnapValue) {steps room : Nat}
    (h : Json.nestingOfItems (SnapValue.encodeAll values) ≤ room) (hsteps : room < steps) :
    (SnapValue.encodeAll values).mapM (asNested steps room) = some values := by
  cases values with
  | nil => rfl
  | cons value rest =>
    rw [SnapValue.encodeAll, Json.nestingOfItems] at h
    rw [SnapValue.encodeAll, List.mapM_cons, asNested_encode value (by omega) hsteps,
      asNested_encodeAll rest (by omega) hsteps]
    rfl

theorem asStep_encode (step : SnapStep) {steps room : Nat} (h : step.encode.nesting ≤ room)
    (hsteps : room < steps) : asStep (asNested steps) room step.encode = some step := by
  have hsound := sound_encodeStep step h
  cases step with
  | extend target cls | retract target cls =>
    simp only [SnapStep.encode, Json.nesting, Json.nestingOfMembers] at h hsound
    have htarget := asNested_encode target (by omega : _ ≤ room - 1) (by omega : room - 1 < steps)
    simp [SnapStep.encode, asStep, asParts, hsound, Json.Fields.required, Json.Fields.get?,
      Json.asText, htarget]
  | call target caller origin method args =>
    simp only [SnapStep.encode, Json.nesting, Json.nestingOfMembers] at h hsound
    obtain ⟨room, rfl⟩ : ∃ less, room = less + 2 := ⟨room - 2, by omega⟩
    have htarget := asNested_encode target (by omega : _ ≤ room + 1) (by omega : room + 1 < steps)
    have hcaller := asNested_encode caller (by omega : _ ≤ room + 1) (by omega : room + 1 < steps)
    have hargs := asNested_encodeAll args (by omega) (by omega : room < steps)
    simp [SnapStep.encode, asStep, asParts, hsound, Json.Fields.required, Json.Fields.get?,
      Json.asText, Json.asList, htarget, hcaller, hargs]

theorem asStep_encodeAll (items : List SnapStep) {steps room : Nat}
    (h : Json.nestingOfItems (SnapStep.encodeAll items) ≤ room) (hsteps : room < steps) :
    (SnapStep.encodeAll items).mapM (asStep (asNested steps) room) = some items := by
  cases items with
  | nil => rfl
  | cons step rest =>
    rw [SnapStep.encodeAll, Json.nestingOfItems] at h
    rw [SnapStep.encodeAll, List.mapM_cons, asStep_encode step (by omega) hsteps,
      asStep_encodeAll rest (by omega) hsteps]
    rfl

end

theorem asValue_encode {value : SnapValue} {room : Nat} (h : value.encode.nesting ≤ room) :
    asValue room value.encode = some value :=
  asNested_encode value h (Nat.lt_succ_self room)

theorem asList_encodeAll {values : List SnapValue} {room : Nat}
    (h : (Json.list (SnapValue.encodeAll values)).nesting ≤ room) :
    Json.asList asValue room (.list (SnapValue.encodeAll values)) = some values := by
  rw [Json.nesting] at h
  obtain ⟨room, rfl⟩ : ∃ less, room = less + 1 := ⟨room - 1, by omega⟩
  exact asNested_encodeAll values (by omega) (Nat.lt_succ_self room)

/-! Snapshots. -/

@[simp] theorem Ordered.entries_empty {κ α : Type} : (∅ : Ordered κ α).entries = [] := rfl

theorem asTable_encode {α : Type} {read : Json.Decoder α} {write : α → Json} {room : Nat}
    {table : Ordered String α} (hsorted : table.Sorted) (h : (table.encode write).nesting ≤ room)
    (hread : ∀ entry ∈ table.entries, ∀ less, (write entry.2).nesting ≤ less →
      read less (write entry.2) = some entry.2) :
    asTable read room (table.encode write) = some table := by
  rw [Ordered.encode, Json.nesting] at h
  obtain ⟨room, rfl⟩ : ∃ less, room = less + 1 := ⟨room - 1, by omega⟩
  have hfits := Json.nestingOfMembers_le.mp (Nat.le_of_succ_le_succ h)
  have hentries : (table.entries.map fun entry => (entry.1, write entry.2)).mapM
      (fun member => do return (member.1, ← read room member.2)) = some table.entries :=
    mapM_eq_some fun entry hentry => by
      simp [hread entry hentry room (hfits _ (List.mem_map_of_mem hentry))]
  simp only [asTable, Ordered.encode, Json.asFields, Option.bind_eq_bind, Option.bind_some]
    at hentries ⊢
  rw [hentries, Option.bind_some, hsorted.ofList_entries]
  rfl

/-- The parts that are encoded as tables are kept in order. -/
structure Snapshot.Sorted (snapshot : Snapshot) : Prop where
  objects : snapshot.objects.Sorted
  fields : ∀ entry ∈ snapshot.objects.entries, entry.2.fields.Sorted
  arrays : snapshot.arrays.Sorted
  maps : snapshot.maps.Sorted
  sets : snapshot.sets.Sorted

theorem asObject_encode {object : SnapObject} (hsorted : object.fields.Sorted) {room : Nat}
    (h : object.encode.nesting ≤ room) : asObject room object.encode = some object := by
  simp only [SnapObject.encode, Json.nesting, Json.nestingOfMembers] at h
  obtain ⟨room, rfl⟩ : ∃ less, room = less + 2 := ⟨room - 2, by omega⟩
  have hclasses : Json.asList Json.asText (room + 1) (.list (object.classes.map .string)) =
      some object.classes := mapM_eq_some fun _ _ => rfl
  have hfields : asTable asValue (room + 1) (object.fields.encode SnapValue.encode) =
      some object.fields :=
    asTable_encode hsorted (by omega) fun _ _ _ hless => asValue_encode hless
  simp [asObject, SnapObject.encode, Json.asRecord, Json.asFields, Json.Fields.required,
    Json.Fields.withDefault, Json.Fields.get?, hclasses, hfields]

theorem asPair_encode {pair : SnapValue × SnapValue} {room : Nat}
    (h : (Json.list [pair.1.encode, pair.2.encode]).nesting ≤ room) :
    asPair asValue room (.list [pair.1.encode, pair.2.encode]) = some pair := by
  have hboth : Json.asList asValue room (.list (SnapValue.encodeAll [pair.1, pair.2])) =
      some [pair.1, pair.2] := asList_encodeAll h
  rw [SnapValue.encodeAll, SnapValue.encodeAll, SnapValue.encodeAll] at hboth
  simp [asPair, hboth]

theorem asPairs_encode {pairs : List (SnapValue × SnapValue)} {room : Nat}
    (h : (Json.list (pairs.map fun (key, value) => .list [key.encode, value.encode])).nesting ≤
      room) :
    Json.asList (asPair asValue) room
      (.list (pairs.map fun (key, value) => .list [key.encode, value.encode])) = some pairs := by
  rw [Json.nesting] at h
  obtain ⟨room, rfl⟩ : ∃ less, room = less + 1 := ⟨room - 1, by omega⟩
  have hfits := Json.nestingOfItems_le.mp (Nat.le_of_succ_le_succ h)
  exact mapM_eq_some fun pair hpair => asPair_encode (hfits _ (List.mem_map_of_mem hpair))

theorem asSnapshot_encode {snapshot : Snapshot} (hsorted : snapshot.Sorted) {room : Nat}
    (h : snapshot.encode.nesting ≤ room) : asSnapshot room snapshot.encode = some snapshot := by
  obtain ⟨room, rfl⟩ : ∃ less, room = less + 1 := by
    rw [Snapshot.encode, Json.nesting] at h
    exact ⟨room - 1, by omega⟩
  simp only [Snapshot.encode, Json.nesting, Json.nestingOfMembers, Nat.add_le_add_iff_right,
    Nat.max_le] at h
  obtain ⟨hroot, hobjects, harrays, hmaps, hsets, -⟩ := h
  have hitems : ∀ entry : String × List SnapValue, ∀ less,
      (Json.list (SnapValue.encodeAll entry.2)).nesting ≤ less →
      Json.asList asValue less (.list (SnapValue.encodeAll entry.2)) = some entry.2 :=
    fun _ _ hless => asList_encodeAll hless
  have hobjects := asTable_encode hsorted.objects hobjects fun entry hentry _ hless =>
    asObject_encode (hsorted.fields entry hentry) hless
  have harrays := asTable_encode hsorted.arrays harrays fun entry _ => hitems entry
  have hmaps := asTable_encode hsorted.maps hmaps fun _ _ _ hless => asPairs_encode hless
  have hsets := asTable_encode hsorted.sets hsets fun entry _ => hitems entry
  simp [asSnapshot, Snapshot.encode, Json.asRecord, Json.asFields, Json.Fields.required,
    Json.Fields.withDefault, Json.Fields.get?, asValue_encode hroot, hobjects, harrays, hmaps,
    hsets]

theorem Snapshot.Sorted.record {machine : Machine} {snapshot : Snapshot} (h : snapshot.Sorted)
    (ref : Ref) : (Capture.record machine ref snapshot).Sorted := by
  simp only [Capture.record]
  split
  · refine { h with objects := h.objects.insert, fields := fun entry hentry => ?_ }
    rcases Ordered.mem_insert hentry with rfl | hentry
    · exact Ordered.ofList_sorted _
    · exact h.fields entry hentry
  · exact { h with arrays := h.arrays.insert }
  · exact { h with maps := h.maps.insert }
  · exact { h with sets := h.sets.insert }
  · exact h

theorem walk_sorted (machine : Machine) : ∀ (steps : Nat) (stack : List Ref) (seen : List Id)
    {snapshot : Snapshot}, snapshot.Sorted → (Capture.walk machine steps stack seen snapshot).Sorted
  | 0, _, _, _, h => h
  | _ + 1, [], _, _, h => h
  | steps + 1, ref :: stack, seen, _, h => by
    rw [Capture.walk]
    split
    · exact walk_sorted machine steps stack seen h
    · exact walk_sorted machine steps _ _ (h.record ref)

theorem Machine.capture_sorted (machine : Machine) (root : Value) : (machine.capture root).Sorted :=
  walk_sorted machine _ _ _ {
    objects := .nil
    fields := nofun
    arrays := .nil
    maps := .nil
    sets := .nil }

/-- A snapshot that is taken is read again from its text's tree, unless it is nested too deeply. -/
theorem Machine.decode_capture (machine : Machine) (root : Value)
    (h : (machine.capture root).encode.nesting ≤ Json.depthLimit) :
    Snapshot.decode? (machine.capture root).encode = some (machine.capture root) :=
  asSnapshot_encode (machine.capture_sorted root) h

end Attire
