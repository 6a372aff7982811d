import Attire.Proofs.Snapshot.Filling

namespace Attire

open Capture

/-! Graphs that snapshots carry from one machine to another. -/

/-- All entities of a snapshot, by their identifiers. -/
def Snapshot.entities (snapshot : Snapshot) : List (String × Shown) :=
  snapshot.objects.entries.map (fun (key, content) => (key, .object content)) ++
    snapshot.arrays.entries.map (fun (key, content) => (key, .array content)) ++
    snapshot.maps.entries.map (fun (key, content) => (key, .map content)) ++
    snapshot.sets.entries.map fun (key, content) => (key, .set content)

namespace Snapshot

variable {snapshot : Snapshot} {key : String}

/-- The identifiers of all entities. -/
def keys (snapshot : Snapshot) : List String :=
  snapshot.objects.keys ++ snapshot.arrays.keys ++ snapshot.maps.keys ++ snapshot.sets.keys

theorem map_entities : snapshot.entities.map Prod.fst = snapshot.keys := by
  simp [entities, keys, Ordered.keys, Function.comp_def]

theorem mem_entities_object {content : SnapObject} :
    (key, .object content) ∈ snapshot.entities ↔ (key, content) ∈ snapshot.objects.entries := by
  simp [entities]

theorem mem_entities_array {content : List SnapValue} :
    (key, .array content) ∈ snapshot.entities ↔ (key, content) ∈ snapshot.arrays.entries := by
  simp [entities]

theorem mem_entities_map {content : List (SnapValue × SnapValue)} :
    (key, .map content) ∈ snapshot.entities ↔ (key, content) ∈ snapshot.maps.entries := by
  simp [entities]

theorem mem_entities_set {content : List SnapValue} :
    (key, .set content) ∈ snapshot.entities ↔ (key, content) ∈ snapshot.sets.entries := by
  simp [entities]

end Snapshot

namespace Capture

namespace Shown

variable {entry : Shown}

@[simp] theorem object?_eq_some {content : SnapObject} :
    entry.object? = some content ↔ entry = .object content := by
  cases entry <;> simp [object?]

@[simp] theorem array?_eq_some {content : List SnapValue} :
    entry.array? = some content ↔ entry = .array content := by
  cases entry <;> simp [array?]

@[simp] theorem map?_eq_some {content : List (SnapValue × SnapValue)} :
    entry.map? = some content ↔ entry = .map content := by
  cases entry <;> simp [map?]

@[simp] theorem set?_eq_some {content : List SnapValue} :
    entry.set? = some content ↔ entry = .set content := by
  cases entry <;> simp [set?]

end Shown

/-- The classes that the objects of a graph embody and that suggestions in it name. -/
inductive Involves (machine : Machine) (root : Value) : ClassId → Prop
  | root {cls : ClassId} : cls ∈ classesOf root → Involves machine root cls
  | manifest {ref : Ref} {object : Object} {cls : ClassId} : Reaches machine (refs root) ref →
      machine.heap.object? ref = some object → cls ∈ object.manifest → Involves machine root cls
  | content {ref : Ref} {entity : Entity} {value : Value} {cls : ClassId} :
      Reaches machine (refs root) ref → machine.heap.entity? ref = some entity →
      value ∈ contents machine entity → cls ∈ classesOf value → Involves machine root cls

end Capture

/-- A graph of which a snapshot shows everything: identifiers and fields can be told apart, fields are
stored, and no suggestion is in a key. -/
structure Machine.Portable (machine : Machine) (root : Value) : Prop where
  distinct : Distinct machine (refs root)
  object {ref : Ref} {object : Object} : Reaches machine (refs root) ref →
    machine.heap.object? ref = some object → object.Portable machine.classes
  key {ref : Ref} {entries : MapEntries} : Reaches machine (refs root) ref →
    machine.heap.map? ref = some entries → ∀ entry ∈ entries.values, entry.1.Stampless
  element {ref : Ref} {entries : SetEntries} : Reaches machine (refs root) ref →
    machine.heap.set? ref = some entries → ∀ item ∈ entries.values, item.Stampless

/-- A graph of one machine, and classes among which those of the graph have counterparts. -/
structure Passage (source : Machine) (root : Value) (target : ClassRegistry) : Prop where
  composed : source.classes.Composed
  running : source.Sound source.classes source.heap.outline
  known : root.Known source.classes source.heap.outline
  portable : source.Portable root
  composed' : target.Composed
  named : target.Named
  counterpart {cls : ClassId} : Involves source root cls →
    ∃ found, source.classes.Counterpart target cls found

mutual

/-- What a value mentions may be known by more than its place. -/
theorem Value.Within.refs {entity entity' : Value → Prop} {cls : ClassId → Prop} :
    ∀ {value : Value}, value.Within entity cls →
      (∀ part ref, part.ref? = some ref → ref ∈ Capture.refs value → entity part → entity' part) →
      value.Within entity' fun _ => True
  | .null, _, _ | .num _, _, _ | .bool _, _, _ | .text _, _, _ => trivial
  | .object _, h, hparts | .array _, h, hparts | .map _, h, hparts | .set _, h, hparts =>
    hparts _ _ rfl (List.mem_singleton_self _) h
  | .tuple _, h, hparts => Value.AllWithin.refs h hparts
  | .suggestion _ _, h, hparts => Step.AllWithin.refs h hparts

theorem Value.AllWithin.refs {entity entity' : Value → Prop} {cls : ClassId → Prop} :
    ∀ {values : List Value}, Value.AllWithin entity cls values →
      (∀ part ref, part.ref? = some ref → ref ∈ refsOfAll values → entity part → entity' part) →
      Value.AllWithin entity' (fun _ => True) values
  | [], _, _ => trivial
  | _ :: _, h, hparts =>
    ⟨h.1.refs fun part ref href hmem => hparts part ref href (List.mem_append_left _ hmem),
      Value.AllWithin.refs h.2 fun part ref href hmem =>
        hparts part ref href (List.mem_append_right _ hmem)⟩

theorem Step.Within.refs {entity entity' : Value → Prop} {cls : ClassId → Prop} :
    ∀ {step : Step}, step.Within entity cls →
      (∀ part ref, part.ref? = some ref → ref ∈ refsOfStep step → entity part → entity' part) →
      step.Within entity' fun _ => True
  | .extend _ _, h, hparts | .retract _ _, h, hparts => ⟨trivial, h.2.refs hparts⟩
  | .call _ _ _ _, h, hparts =>
    ⟨h.1.refs fun part ref href hmem =>
        hparts part ref href (List.mem_append_left _ (List.mem_append_left _ hmem)),
      h.2.1.refs fun part ref href hmem =>
        hparts part ref href (List.mem_append_left _ (List.mem_append_right _ hmem)),
      Value.AllWithin.refs h.2.2 fun part ref href hmem =>
        hparts part ref href (List.mem_append_right _ hmem)⟩

theorem Step.AllWithin.refs {entity entity' : Value → Prop} {cls : ClassId → Prop} :
    ∀ {steps : List Step}, Step.AllWithin entity cls steps →
      (∀ part ref, part.ref? = some ref → ref ∈ refsOfSteps steps → entity part → entity' part) →
      Step.AllWithin entity' (fun _ => True) steps
  | [], _, _ => trivial
  | _ :: _, h, hparts =>
    ⟨h.1.refs fun part ref href hmem => hparts part ref href (List.mem_append_left _ hmem),
      Step.AllWithin.refs h.2 fun part ref href hmem =>
        hparts part ref href (List.mem_append_right _ hmem)⟩

end

namespace Passage

variable {source : Machine} {root : Value} {target : ClassRegistry} {ref : Ref} {entity : Entity}
variable {shells : Restore.Shells}

theorem has (h : Passage source root target) (hreach : Reaches source (refs root) ref) :
    source.heap.outline.Has ref :=
  hreach.has h.running fun _ hmem => has_of_mem_refs h.known hmem

theorem entity?_of_reaches (h : Passage source root target)
    (hreach : Reaches source (refs root) ref) : ∃ entity, source.heap.entity? ref = some entity := by
  obtain ⟨kind, hcell⟩ := h.has hreach
  obtain ⟨entity, hentity, -⟩ := Heap.entity?_of_cell hcell
  exact ⟨entity, hentity⟩

/-- The entities of the snapshot are those that can be reached. -/
theorem mem_entities (h : Passage source root target) {key : String} {content : Shown} :
    (key, content) ∈ (source.capture root).entities ↔
      ∃ ref entity, Reaches source (refs root) ref ∧ source.heap.entity? ref = some entity ∧
        ref.id.text = key ∧ shown source entity = content := by
  obtain ⟨visited, hnodup, hvisited, hcapture⟩ :=
    source.capture_eq (fun _ => h.has) h.portable.distinct
  have hpart : ∀ {α : Type} {part : Shown → Option α} {content : α},
      (key, content) ∈ (Ordered.ofList (table source part visited)).entries ↔
        ∃ ref entity, Reaches source (refs root) ref ∧ source.heap.entity? ref = some entity ∧
          ref.id.text = key ∧ part (shown source entity) = some content := by
    intro α part content
    rw [Ordered.mem_ofList_iff (nodup_table hnodup), mem_table]
    constructor
    · rintro ⟨ref, hmem, hshown, hkey⟩
      obtain ⟨_, hpart, hcontent⟩ := Option.bind_eq_some_iff.mp hshown
      obtain ⟨entity, hentity, rfl⟩ := Option.map_eq_some_iff.mp hpart
      exact ⟨ref, entity, (hvisited ref).mp hmem, hentity, hkey, hcontent⟩
    · rintro ⟨ref, entity, hreach, hentity, hkey, hcontent⟩
      refine ⟨ref, (hvisited ref).mpr hreach, ?_, hkey⟩
      rw [shown?, hentity, Option.map_some, Option.bind_some, hcontent]
  cases content with
  | object content => rw [hcapture, Snapshot.mem_entities_object, hpart]; simp
  | array content => rw [hcapture, Snapshot.mem_entities_array, hpart]; simp
  | map content => rw [hcapture, Snapshot.mem_entities_map, hpart]; simp
  | set content => rw [hcapture, Snapshot.mem_entities_set, hpart]; simp

theorem entities_unique (h : Passage source root target) {key : String} {a b : Shown}
    (ha : (key, a) ∈ (source.capture root).entities)
    (hb : (key, b) ∈ (source.capture root).entities) : a = b := by
  obtain ⟨ref, entity, hreach, hentity, rfl, rfl⟩ := h.mem_entities.mp ha
  obtain ⟨ref', entity', hreach', hentity', hkey, rfl⟩ := h.mem_entities.mp hb
  obtain rfl := h.portable.distinct ref' ref hreach' hreach (Id.text_injective hkey)
  rw [Option.some.inj (hentity.symm.trans hentity')]

theorem mem_keys (h : Passage source root target) {key : String} :
    key ∈ (source.capture root).keys ↔
      ∃ ref entity, Reaches source (refs root) ref ∧ source.heap.entity? ref = some entity ∧
        ref.id.text = key := by
  rw [← Snapshot.map_entities]
  constructor
  · intro hmem
    obtain ⟨⟨key, content⟩, hentry, rfl⟩ := List.mem_map.mp hmem
    obtain ⟨ref, entity, hreach, hentity, hkey, -⟩ := h.mem_entities.mp hentry
    exact ⟨ref, entity, hreach, hentity, hkey⟩
  · rintro ⟨ref, entity, hreach, hentity, hkey⟩
    exact List.mem_map.mpr ⟨_, h.mem_entities.mpr ⟨ref, entity, hreach, hentity, hkey, rfl⟩, rfl⟩

theorem nodup_keys (h : Passage source root target) : (source.capture root).keys.Nodup := by
  rw [← Snapshot.map_entities]
  refine List.Nodup.map_on ?_ ?_
  · rintro ⟨key, a⟩ ha ⟨_, b⟩ hb ⟨⟩
    rw [h.entities_unique ha hb]
  · obtain ⟨visited, -, -, hcapture⟩ := source.capture_eq (fun _ => h.has) h.portable.distinct
    have hpart : ∀ {α : Type} (make : α → Shown) (part : Shown → Option α),
        (∀ a b, make a = make b → a = b) →
        ((Ordered.ofList (table source part visited)).entries.map fun (key, content) =>
          (key, make content)).Nodup := by
      intro α make part hmake
      refine List.Nodup.map ?_ (List.Nodup.of_map _ (Ordered.ofList_sorted _).nodup_keys)
      rintro ⟨key, a⟩ ⟨key', b⟩ heq
      obtain ⟨rfl, hcontent⟩ := Prod.mk.inj heq
      rw [hmake a b hcontent]
    rw [hcapture]
    refine (((hpart .object _ ?_).append (hpart .array _ ?_) ?_).append (hpart .map _ ?_) ?_).append
      (hpart .set _ ?_) ?_
    all_goals grind [List.disjoint_left]

/-- Every entity that can be reached has a shell of its kind. -/
def Shelled (source : Machine) (root : Value) (shells : Restore.Shells) : Prop :=
  ∀ ref entity, Reaches source (refs root) ref → source.heap.entity? ref = some entity →
    ∃ place, shells.get? ref.id.text = some (entity.kind.value place) ∧ place.id = ref.id

theorem sheltered_of_known (h : Passage source root target) (hshelled : Shelled source root shells)
    {value : Value} (hvalue : value.Known source.classes source.heap.outline)
    (hrefs : ∀ inner ∈ refs value, Reaches source (refs root) inner)
    (hclasses : ∀ cls ∈ classesOf value, Involves source root cls) :
    Restore.Sheltered source.classes target shells value := by
  constructor
  case housed =>
    refine hvalue.refs fun part inner hinner hmem hnames => ?_
    obtain ⟨kind, other, rfl⟩ := hnames.eq_value
    obtain rfl := Option.some.inj (EntityKind.ref?_value.symm.trans hinner)
    obtain ⟨entity, hentity, rfl⟩ := Heap.entity?_of_cell (EntityKind.names_value.mp hnames)
    obtain ⟨place, hplace, hid⟩ := hshelled other entity (hrefs other hmem) hentity
    exact ⟨other, place, hinner, hid, by rw [EntityKind.moved_value, hplace]⟩
  case found =>
    intro cls hcls
    obtain ⟨found, hfound⟩ := h.counterpart (hclasses cls hcls)
    exact ⟨found, hfound.find, hfound.name_eq h.named⟩

theorem sheltered_root (h : Passage source root target) (hshelled : Shelled source root shells) :
    Restore.Sheltered source.classes target shells root :=
  h.sheltered_of_known hshelled h.known (fun _ => .start) fun _ => .root

theorem sheltered_content (h : Passage source root target) (hshelled : Shelled source root shells)
    (hreach : Reaches source (refs root) ref) (hentity : source.heap.entity? ref = some entity)
    {value : Value} (hvalue : value ∈ contents source entity) :
    Restore.Sheltered source.classes target shells value := by
  have hknown := (h.running.stored_sound hentity).contents value (mem_contents hvalue)
  refine h.sheltered_of_known hshelled hknown (fun inner hinner => hreach.inside ?_) fun cls =>
    .content hreach hentity hvalue
  rw [entityRefs, hentity]
  exact mem_refsOfAll.mpr ⟨value, hvalue, hinner⟩

end Passage

end Attire
