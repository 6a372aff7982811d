import Attire.Proofs.Results
import Attire.Proofs.Snapshot.Encoding

namespace Attire

open SnapDecode

/-! What is read from snapshots: their tables are in order, and where numbers are expected there are
numbers. -/

theorem forall₂_of_mapM {α β : Type} {read : α → Option β} : ∀ {items : List α} {values : List β},
    items.mapM read = some values →
      List.Forall₂ (fun item value => read item = some value) items values
  | [], _, h => by
    rw [List.mapM_nil] at h
    cases h
    exact .nil
  | item :: rest, _, h => by
    simp only [List.mapM_cons, Option.bind_eq_bind, Option.bind_eq_some_iff] at h
    obtain ⟨value, hvalue, values, hvalues, h⟩ := h
    cases h
    exact .cons hvalue (forall₂_of_mapM hvalues)

namespace Json

/-- A part of a record, which is named, or listed in the order of the names. -/
inductive Part (names : List String) (name : String) (value : Json) : Json → Prop
  | named {members : List (String × Json)} (h : (name, value) ∈ members) :
    Part names name value (.object members)
  | listed {items : List Json} (h : (name, value) ∈ names.zip items) :
    Part names name value (.list items)

namespace Fields

variable {fields : Fields} {name : String} {value : Json} {α : Type} {read : Decoder α} {result : α}

/-- A name that is given twice has no value. -/
theorem eq_of_get? {found : Option Json} (h : (name, value) ∈ fields.members)
    (hfound : fields.get? name = some found) : found = some value := by
  have hmem : (name, value) ∈ fields.members.filter fun entry => entry.1 = name :=
    List.mem_filter.mpr ⟨h, by simp⟩
  unfold get? at hfound
  split at hfound
  case h_1 hnone => simp [hnone] at hmem
  case h_2 hone =>
    rw [hone, List.mem_singleton] at hmem
    cases hmem
    exact (Option.some.inj hfound).symm
  case h_3 => cases hfound

theorem read_of_required (h : (name, value) ∈ fields.members)
    (hresult : fields.required name read = some result) : read fields.room value = some result := by
  simp only [required, Option.bind_eq_bind, Option.bind_eq_some_iff] at hresult
  obtain ⟨found, hfound, hresult⟩ := hresult
  cases eq_of_get? h hfound
  exact hresult

theorem read_of_withDefault {default : α} (h : (name, value) ∈ fields.members)
    (hresult : fields.withDefault name read default = some result) :
    read fields.room value = some result := by
  simp only [withDefault, Option.bind_eq_bind, Option.bind_eq_some_iff] at hresult
  obtain ⟨found, hfound, hresult⟩ := hresult
  cases eq_of_get? h hfound
  exact hresult

end Fields

theorem members_of_asFields {members : List (String × Json)} {room : Nat} {fields : Fields}
    (h : asFields room (.object members) = some fields) : members = fields.members := by
  cases room with
  | zero => cases h
  | succ room =>
    cases h
    rfl

theorem Part.mem_asRecord {names : List String} {name : String} {value json : Json} {room : Nat}
    {fields : Fields} (h : Part names name value json)
    (hfields : asRecord names room json = some fields) : (name, value) ∈ fields.members := by
  cases h with
  | @named members h =>
    have hfields : asFields room (.object members) = some fields := by
      cases room <;> exact hfields
    exact members_of_asFields hfields ▸ h
  | listed h =>
    cases room with
    | zero => cases hfields
    | succ room =>
      rw [asRecord] at hfields
      split at hfields <;> cases hfields
      exact h

theorem exists_of_asList {α : Type} {read : Decoder α} {item : Json} {items : List Json} {room : Nat}
    {results : List α} (h : asList read room (.list items) = some results) (hitem : item ∈ items) :
    ∃ less result, read less item = some result := by
  cases room with
  | zero => cases h
  | succ room =>
    obtain ⟨result, -, hresult⟩ := (mem_of_forall₂ (forall₂_of_mapM h)).1 item hitem
    exact ⟨room, result, hresult⟩

/-- What a tagged value is tagged with and what it contains. -/
structure Tagged (json : Json) (kind : String) (content : Json) : Prop where
  kind : ∃ tag ∈ [string kind, object [(kind, null)]], Part ["kind", "value"] "kind" tag json
  value : Part ["kind", "value"] "value" content json

theorem eq_of_asName {kind name : String} {tag : Json} {room : Nat}
    (htag : tag ∈ [string kind, object [(kind, null)]]) (h : asName room tag = some name) :
    name = kind := by
  simp only [List.mem_cons, List.not_mem_nil, or_false] at htag
  rcases htag with rfl | rfl
  · cases h
    rfl
  · cases room with
    | zero => cases h
    | succ room =>
      cases h
      rfl

theorem Tagged.of_asNode {kind : String} {content json : Json} {room : Nat} {node : Node}
    (h : json.Tagged kind content) (hnode : asNode "kind" "value" room json = some node) :
    node.tag = kind ∧ node.content = some content := by
  obtain ⟨⟨tag, htag, hkind⟩, hvalue⟩ := h
  cases hkind with
  | named hkind =>
    cases hvalue with | named hvalue =>
    simp only [asNode, Option.bind_eq_bind, Option.bind_eq_some_iff] at hnode
    obtain ⟨fields, hfields, name, hname, found, hfound, hnode⟩ := hnode
    obtain rfl := members_of_asFields hfields
    have hname := Fields.read_of_required hkind hname
    have hfound := Fields.eq_of_get? hvalue hfound
    split at hnode <;> cases hnode
    exact ⟨eq_of_asName htag hname, hfound⟩
  | listed hkind =>
    cases hvalue with | listed hvalue =>
    unfold asNode at hnode
    split at hnode
    case h_1 hlist => cases hlist
    case h_2 hlist =>
      cases hlist
      simp only [Option.bind_eq_bind, Option.bind_eq_some_iff] at hnode
      obtain ⟨name, hname, hnode⟩ := hnode
      cases hnode
      obtain rfl : tag = _ := by simpa using hkind
      obtain rfl : content = _ := by simpa using hvalue
      exact ⟨eq_of_asName htag hname, rfl⟩
    case h_3 => cases hnode

end Json

/-- A part of a step with the given tag, which comes first where the parts are listed. -/
structure StepPart (kind name : String) (value step : Json) : Prop where
  tagged : Json.Part ("step" :: stepParts kind) "step" (.string kind) step
  part : Json.Part ("step" :: stepParts kind) name value step

theorem mem_parts_of_zip {kind name : String} {value first : Json} {parts : List Json}
    (h : (name, value) ∈ ("step" :: stepParts kind).zip (first :: parts)) :
    name = "step" ∧ value = first ∨ name ≠ "step" ∧ (name, value) ∈ (stepParts kind).zip parts := by
  rw [List.zip_cons_cons, List.mem_cons, Prod.mk.injEq] at h
  refine h.imp_right fun h => ⟨?_, h⟩
  rintro rfl
  have hmem := (List.of_mem_zip h).1
  unfold stepParts at hmem
  split at hmem <;> simp at hmem

theorem StepPart.mem_asParts {kind tag name : String} {value step : Json} {room : Nat}
    {fields : Json.Fields} (h : StepPart kind name value step) (hname : name ≠ "step")
    (hfields : asParts stepParts room step = some (tag, fields)) :
    tag = kind ∧ (name, value) ∈ fields.members := by
  obtain ⟨htag, hvalue⟩ := h
  cases htag with
  | named htag =>
    cases hvalue with | named hvalue =>
    simp only [asParts, Option.bind_eq_bind] at hfields
    split at hfields
    · cases hfields
    · simp only [Option.bind_eq_some_iff] at hfields
      obtain ⟨name, hread, hfields⟩ := hfields
      cases hfields
      cases Json.Fields.read_of_required htag hread
      exact ⟨rfl, hvalue⟩
  | @listed items htag =>
    cases hvalue with | listed hvalue =>
    cases items with
    | nil => cases htag
    | cons first parts =>
    obtain ⟨-, rfl⟩ | ⟨hne, -⟩ := mem_parts_of_zip htag
    · simp only [asParts] at hfields
      split at hfields
      · cases hfields
      · split at hfields <;> cases hfields
        obtain ⟨rfl, -⟩ | ⟨-, hmem⟩ := mem_parts_of_zip hvalue
        · exact absurd rfl hname
        · exact ⟨rfl, hmem⟩
    · exact absurd rfl hne

/-- What stands for a value in a step. -/
inductive StepValue (value : Json) : Json → Prop
  | target {kind : String} {step : Json} (h : StepPart kind "target" value step) :
    StepValue value step
  | caller {step : Json} (h : StepPart "call" "caller" value step) : StepValue value step
  | arg {args : List Json} {step : Json} (h : StepPart "call" "args" (.list args) step)
    (hvalue : value ∈ args) : StepValue value step

theorem StepValue.read {value step : Json} {read : Json.Decoder SnapValue} {room : Nat}
    {result : SnapStep} (h : StepValue value step) (hresult : asStep read room step = some result) :
    ∃ less part, read less value = some part := by
  simp only [asStep, Option.bind_eq_bind, Option.bind_eq_some_iff] at hresult
  obtain ⟨⟨tag, fields⟩, hfields, hresult⟩ := hresult
  cases h with
  | target h =>
    obtain ⟨-, hmem⟩ := h.mem_asParts (by decide) hfields
    simp only at hresult
    split at hresult
    case h_4 => cases hresult
    all_goals
      obtain ⟨part, hpart, -⟩ := Option.bind_eq_some_iff.mp hresult
      exact ⟨_, part, Json.Fields.read_of_required hmem hpart⟩
  | caller h =>
    obtain ⟨rfl, hmem⟩ := h.mem_asParts (by decide) hfields
    simp only [Option.bind_eq_some_iff] at hresult
    obtain ⟨_, -, part, hpart, -⟩ := hresult
    exact ⟨_, part, Json.Fields.read_of_required hmem hpart⟩
  | arg h hvalue =>
    obtain ⟨rfl, hmem⟩ := h.mem_asParts (by decide) hfields
    simp only [Option.bind_eq_some_iff] at hresult
    obtain ⟨_, -, _, -, _, -, _, -, args, hargs, -⟩ := hresult
    exact Json.exists_of_asList (Json.Fields.read_of_required hmem hargs) hvalue

/-- A tagged value is read as the one with the same tag that is written. -/
theorem asNested_of_tagged {kind : String} {content json : Json} {steps room : Nat}
    {value : SnapValue} (h : json.Tagged kind content)
    (hvalue : asNested steps room json = some value) :
    ∃ fewer less, asNested (fewer + 1) (less + 1) (tagged kind content) = some value := by
  cases steps with
  | zero => cases hvalue
  | succ steps =>
    obtain ⟨node, hnode, -⟩ := Option.bind_eq_some_iff.mp hvalue
    obtain ⟨htag, hcontent⟩ := h.of_asNode hnode
    obtain ⟨tag, found, less⟩ := node
    cases htag
    cases hcontent
    refine ⟨steps, less, ?_⟩
    rw [← hvalue]
    simp only [asNested, hnode, asNode_tagged]

/-- What stands for a number inside of a value. -/
inductive SnapValue.NumberAt (content : Json) : Json → Prop
  | here {json : Json} (h : json.Tagged "num" content) : NumberAt content json
  | item {items : List Json} {item json : Json} (h : json.Tagged "tuple" (.list items))
    (hitem : item ∈ items) (hat : NumberAt content item) : NumberAt content json
  | step {steps : List Json} {step value json : Json} (h : json.Tagged "suggestion" (.list steps))
    (hstep : step ∈ steps) (hvalue : StepValue value step) (hat : NumberAt content value) :
    NumberAt content json

/-- Whatever stands for a number in a value that can be read is read as a number. -/
theorem SnapValue.NumberAt.read {content json : Json} (h : SnapValue.NumberAt content json) :
    ∀ {steps room : Nat} {value : SnapValue}, asNested steps room json = some value →
      ∃ less number, asNumber less content = some number := by
  induction h with
  | here h =>
    intro steps room value hvalue
    obtain ⟨fewer, less, hread⟩ := asNested_of_tagged h hvalue
    rw [asNested_tagged] at hread
    obtain ⟨number, hnumber, -⟩ := Option.map_eq_some_iff.mp hread
    exact ⟨less, number, hnumber⟩
  | item h hitem _ ih =>
    intro steps room value hvalue
    obtain ⟨fewer, less, hread⟩ := asNested_of_tagged h hvalue
    rw [asNested_tagged] at hread
    obtain ⟨values, hvalues, -⟩ := Option.map_eq_some_iff.mp hread
    obtain ⟨less, part, hpart⟩ := Json.exists_of_asList hvalues hitem
    exact ih hpart
  | step h hstep hvalue _ ih =>
    intro steps room value hresult
    obtain ⟨fewer, less, hread⟩ := asNested_of_tagged h hresult
    rw [asNested_tagged] at hread
    obtain ⟨parts, hparts, -⟩ := Option.map_eq_some_iff.mp hread
    obtain ⟨less, part, hpart⟩ := Json.exists_of_asList hparts hstep
    obtain ⟨less, inner, hinner⟩ := hvalue.read hpart
    exact ih hinner

/-- A part of a snapshot. -/
abbrev SnapshotPart (name : String) (value json : Json) : Prop :=
  Json.Part ["root", "objects", "arrays", "maps", "sets"] name value json

/-- What stands for a value in a snapshot. -/
inductive SnapshotValue (value : Json) : Json → Prop
  | root {json : Json} (h : SnapshotPart "root" value json) : SnapshotValue value json
  | field {objects fields : List (String × Json)} {id label : String} {object json : Json}
    (h : SnapshotPart "objects" (.object objects) json) (hobject : (id, object) ∈ objects)
    (hfields : Json.Part ["classes", "fields"] "fields" (.object fields) object)
    (hvalue : (label, value) ∈ fields) : SnapshotValue value json
  | item {name : String} {table : List (String × Json)} {id : String} {items : List Json}
    {json : Json} (hname : name = "arrays" ∨ name = "sets")
    (h : SnapshotPart name (.object table) json) (hitems : (id, .list items) ∈ table)
    (hvalue : value ∈ items) : SnapshotValue value json
  | entry {maps : List (String × Json)} {id : String} {entries : List Json}
    {key item json : Json} (h : SnapshotPart "maps" (.object maps) json)
    (hentries : (id, .list entries) ∈ maps) (hentry : .list [key, item] ∈ entries)
    (hvalue : value = key ∨ value = item) : SnapshotValue value json

theorem exists_of_asTable {α : Type} {read : Json.Decoder α} {members : List (String × Json)}
    {name : String} {value : Json} {room : Nat} {table : Ordered String α}
    (h : asTable read room (.object members) = some table) (hmem : (name, value) ∈ members) :
    ∃ less result, read less value = some result := by
  simp only [asTable, Option.bind_eq_bind, Option.bind_eq_some_iff] at h
  obtain ⟨fields, hfields, entries, hentries, -⟩ := h
  obtain rfl := Json.members_of_asFields hfields
  obtain ⟨entry, -, hentry⟩ := (mem_of_forall₂ (forall₂_of_mapM hentries)).1 _ hmem
  obtain ⟨result, hresult, -⟩ := Option.bind_eq_some_iff.mp hentry
  exact ⟨fields.room, result, hresult⟩

theorem SnapshotValue.read {value json : Json} {room : Nat} {snapshot : Snapshot}
    (h : SnapshotValue value json) (hsnapshot : asSnapshot room json = some snapshot) :
    ∃ less part, asValue less value = some part := by
  simp only [asSnapshot, Option.bind_eq_bind, Option.bind_eq_some_iff] at hsnapshot
  obtain ⟨fields, hfields, root, hroot, objects, hobjects, arrays, harrays, maps, hmaps, sets, hsets,
    -⟩ := hsnapshot
  cases h with
  | root h => exact ⟨_, root, Json.Fields.read_of_required (h.mem_asRecord hfields) hroot⟩
  | field h hobject hparts hvalue =>
    have hread := Json.Fields.read_of_withDefault (h.mem_asRecord hfields) hobjects
    obtain ⟨less, object, hobject⟩ := exists_of_asTable hread hobject
    simp only [asObject, Option.bind_eq_bind, Option.bind_eq_some_iff] at hobject
    obtain ⟨parts, hmembers, classes, -, table, htable, -⟩ := hobject
    have hread := Json.Fields.read_of_withDefault (hparts.mem_asRecord hmembers) htable
    exact exists_of_asTable hread hvalue
  | @item name table id items _ hname h hitems hvalue =>
    have hread : ∃ less lists, asTable (Json.asList asValue) less (.object table) = some lists := by
      rcases hname with rfl | rfl
      · exact ⟨_, arrays, Json.Fields.read_of_withDefault (h.mem_asRecord hfields) harrays⟩
      · exact ⟨_, sets, Json.Fields.read_of_withDefault (h.mem_asRecord hfields) hsets⟩
    obtain ⟨less, lists, hlists⟩ := hread
    obtain ⟨less, values, hvalues⟩ := exists_of_asTable hlists hitems
    exact Json.exists_of_asList hvalues hvalue
  | entry h hentries hentry hvalue =>
    have hread := Json.Fields.read_of_withDefault (h.mem_asRecord hfields) hmaps
    obtain ⟨less, entries, hread⟩ := exists_of_asTable hread hentries
    obtain ⟨less, pair, hpair⟩ := Json.exists_of_asList hread hentry
    simp only [asPair, Option.bind_eq_bind, Option.bind_eq_some_iff] at hpair
    obtain ⟨values, hvalues, -⟩ := hpair
    exact Json.exists_of_asList hvalues (by simpa using hvalue)

/-! Tables that are read are kept in order. -/

theorem asTable_sorted {α : Type} {read : Json.Decoder α} {room : Nat} {json : Json}
    {table : Ordered String α} (h : asTable read room json = some table) : table.Sorted := by
  simp only [asTable, Option.bind_eq_bind, Option.bind_eq_some_iff] at h
  obtain ⟨fields, -, entries, -, h⟩ := h
  cases h
  exact Ordered.ofList_sorted _

theorem mem_of_asTable {α : Type} {read : Json.Decoder α} {room : Nat} {json : Json}
    {table : Ordered String α} (h : asTable read room json = some table) {entry : String × α}
    (hentry : entry ∈ table.entries) : ∃ less value, read less value = some entry.2 := by
  simp only [asTable, Option.bind_eq_bind, Option.bind_eq_some_iff] at h
  obtain ⟨fields, -, entries, hentries, h⟩ := h
  cases h
  obtain ⟨member, -, hmember⟩ :=
    (mem_of_forall₂ (forall₂_of_mapM hentries)).2 entry (Ordered.mem_ofList hentry)
  obtain ⟨value, hvalue, heq⟩ := Option.bind_eq_some_iff.mp hmember
  cases heq
  exact ⟨fields.room, member.2, hvalue⟩

/-- A table that is missing is empty. -/
theorem table_cases {α : Type} {read : Json.Decoder α} {fields : Json.Fields} {name : String}
    {table : Ordered String α} (h : fields.withDefault name (asTable read) ∅ = some table) :
    table = ∅ ∨ ∃ json, asTable read fields.room json = some table := by
  simp only [Json.Fields.withDefault, Option.bind_eq_bind, Option.bind_eq_some_iff] at h
  obtain ⟨found, -, h⟩ := h
  cases found with
  | none => exact .inl (Option.some.inj h).symm
  | some json => exact .inr ⟨json, h⟩

theorem sorted_of_withDefault {α : Type} {read : Json.Decoder α} {fields : Json.Fields}
    {name : String} {table : Ordered String α}
    (h : fields.withDefault name (asTable read) ∅ = some table) : table.Sorted := by
  rcases table_cases h with rfl | ⟨json, hjson⟩
  · exact .nil
  · exact asTable_sorted hjson

theorem asObject_sorted {room : Nat} {json : Json} {object : SnapObject}
    (h : asObject room json = some object) : object.fields.Sorted := by
  simp only [asObject, Option.bind_eq_bind, Option.bind_eq_some_iff] at h
  obtain ⟨fields, -, classes, -, table, htable, h⟩ := h
  cases h
  exact sorted_of_withDefault htable

theorem asSnapshot_sorted {room : Nat} {json : Json} {snapshot : Snapshot}
    (h : asSnapshot room json = some snapshot) : snapshot.Sorted := by
  simp only [asSnapshot, Option.bind_eq_bind, Option.bind_eq_some_iff] at h
  obtain ⟨fields, -, root, -, objects, hobjects, arrays, harrays, maps, hmaps, sets, hsets, h⟩ := h
  cases h
  refine ⟨sorted_of_withDefault hobjects, fun entry hentry => ?_, sorted_of_withDefault harrays,
    sorted_of_withDefault hmaps, sorted_of_withDefault hsets⟩
  rcases table_cases hobjects with rfl | ⟨json, hjson⟩
  · cases hentry
  · obtain ⟨less, value, hvalue⟩ := mem_of_asTable hjson hentry
    exact asObject_sorted hvalue

/-! Other texts are refused. -/

/-- No other text is read as a number, wherever it stands. -/
theorem SnapValue.NumberAt.refused {text : String} {json : Json}
    (h : text ∉ ["NaN", "Infinity", "-Infinity"]) (hat : SnapValue.NumberAt (.string text) json)
    (steps room : Nat) : asNested steps room json = none := by
  refine Option.eq_none_iff_forall_ne_some.mpr fun value hvalue => ?_
  obtain ⟨less, number, hnumber⟩ := hat.read hvalue
  rw [asNumber_text h] at hnumber
  cases hnumber

/-- Decoding undoes encoding, for all snapshots whose tables are in order, and no others are read.
Finite numbers have literals, the others their texts, and a snapshot with another text instead of a
number is refused. -/
theorem Snapshot.decoding_exact :
    (∀ {snapshot : Snapshot} {room : Nat}, snapshot.Sorted → snapshot.encode.nesting ≤ room →
      asSnapshot room snapshot.encode = some snapshot) ∧
    (∀ {json : Json} {room : Nat} {snapshot : Snapshot}, asSnapshot room json = some snapshot →
      snapshot.Sorted) ∧
    (∀ number : Float,
      number.isFinite = true ∧ encodeNumber number = .number (.real number) ∨
      number = 0.0 / 0.0 ∧ encodeNumber number = .string "NaN" ∨
      number = 1.0 / 0.0 ∧ encodeNumber number = .string "Infinity" ∨
      number = -1.0 / 0.0 ∧ encodeNumber number = .string "-Infinity") ∧
    (∀ {text : String} {value json : Json}, text ∉ ["NaN", "Infinity", "-Infinity"] →
      SnapValue.NumberAt (.string text) value →
        (∀ steps room, asNested steps room value = none) ∧
        (SnapshotValue value json → ∀ room, asSnapshot room json = none)) := by
  refine ⟨fun hsorted => asSnapshot_encode hsorted, asSnapshot_sorted, encodeNumber_cases,
    fun h hat => ⟨hat.refused h, fun hvalue room => ?_⟩⟩
  refine Option.eq_none_iff_forall_ne_some.mpr fun snapshot hsnapshot => ?_
  obtain ⟨less, part, hpart⟩ := hvalue.read hsnapshot
  have hnone : asValue less _ = none := hat.refused h _ less
  rw [hnone] at hpart
  cases hpart

/-- A snapshot with numbers that have no literal, under tuples in steps in tuples. -/
def assorted : Snapshot where
  root := .tuple [.suggestion [
    .extend (.tuple [.num (-0.0), .num (0.0 / 0.0)]) "weft:core#A",
    .call (.ref "0") .null "weft:core#A" "m" [.tuple [], .num (1.0 / 0.0), .num (-1.0 / 0.0)]]]
  objects := ⟨[("", ⟨[], ∅⟩), ("0", ⟨["weft:core#A"], ⟨[("weft:core#A.", .bool true)]⟩⟩)]⟩
  maps := ⟨[("1", [(.text "", .null)])]⟩

theorem assorted_read : assorted.Sorted ∧ (-0.0 : Float) ≠ 0.0 ∧
    asSnapshot 9 assorted.encode = some assorted ∧
    asSnapshot 9 (.object [("root", tagged "num" (.string "many"))]) = none := by
  have hsorted : assorted.Sorted := {
    objects := List.pairwise_pair.mpr (by decide)
    fields := by simp [assorted, Ordered.Sorted]
    arrays := .nil
    maps := List.pairwise_singleton ..
    sets := .nil }
  have hnesting : assorted.encode.nesting ≤ 9 := by
    simp [assorted, Snapshot.encode, SnapValue.encode, SnapValue.encodeAll, SnapStep.encode,
      SnapStep.encodeAll, Ordered.encode, SnapObject.encode, nesting_tagged, nesting_encodeNumber,
      Json.nesting, Json.nestingOfItems, Json.nestingOfMembers]
  have hnumber : SnapValue.NumberAt (.string "many") (tagged "num" (.string "many")) :=
    .here ⟨⟨.string "num", by simp, .named (by simp)⟩, .named (by simp)⟩
  have hroot : SnapshotValue (tagged "num" (.string "many"))
      (.object [("root", tagged "num" (.string "many"))]) := .root (.named (by simp))
  have hother : "many" ∉ ["NaN", "Infinity", "-Infinity"] := by decide
  exact ⟨hsorted, by decide, Snapshot.decoding_exact.1 hsorted hnesting,
    (Snapshot.decoding_exact.2.2.2 hother hnumber).2 hroot 9⟩

end Attire
