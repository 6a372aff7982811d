import Attire.Proofs.Snapshot.Reaching
import Mathlib.Logic.Relation

namespace Attire

open Capture

/-! A snapshot shows what the root leads to, and nothing else. -/

/-- The values of a step. -/
def Step.parts : Step → List Value
  | .extend target _ | .retract target _ => [target]
  | .call target caller _ args => target :: caller :: args

theorem Step.Within.parts {entity : Value → Prop} {cls : ClassId → Prop} {step : Step}
    (h : step.Within entity cls) : ∀ value ∈ step.parts, value.Within entity cls := by
  cases step with
  | extend | retract =>
    intro value hmem
    exact List.mem_singleton.mp hmem ▸ h.2
  | call target caller slot args =>
    intro value hmem
    rcases List.mem_cons.mp hmem with rfl | hmem
    · exact h.1
    · rcases List.mem_cons.mp hmem with rfl | hmem
      · exact h.2.1
      · exact Value.allWithin_iff.mp h.2.2 value hmem

namespace Machine

/-- The second value is right inside of the first one. -/
inductive Leads (machine : Machine) : Value → Value → Prop
  /-- What an object stores in a field that a class of its manifest declares. -/
  | field {ref : Ref} {object : Object} {cls : ClassId} {found : ClassDef} {key : FieldKey}
      {own : OwnField} {value : Value} : machine.heap.object? ref = some object →
      cls ∈ object.manifest → machine.classes.get? cls = some found →
      (key, own) ∈ found.ownFieldKeys → object.fields.get? key = some value →
      Leads machine (.object ref) value
  | item {ref : Ref} {items : Array Value} {value : Value} :
      machine.heap.array? ref = some items → value ∈ items.toList → Leads machine (.array ref) value
  | key {ref : Ref} {entries : MapEntries} {entry : Value × Value} :
      machine.heap.map? ref = some entries → entry ∈ entries.values →
      Leads machine (.map ref) entry.1
  | value {ref : Ref} {entries : MapEntries} {entry : Value × Value} :
      machine.heap.map? ref = some entries → entry ∈ entries.values →
      Leads machine (.map ref) entry.2
  | element {ref : Ref} {entries : SetEntries} {value : Value} :
      machine.heap.set? ref = some entries → value ∈ entries.values →
      Leads machine (.set ref) value
  | component {items : List Value} {value : Value} : value ∈ items →
      Leads machine (.tuple items) value
  | part {stamp : Nat} {steps : List Step} {step : Step} {value : Value} : step ∈ steps →
      value ∈ step.parts → Leads machine (.suggestion stamp steps) value

/-- The value can be reached from the root. -/
def LeadsTo (machine : Machine) (root value : Value) : Prop :=
  Relation.ReflTransGen machine.Leads root value

end Machine

namespace Machine

variable {machine : Machine} {root value inner : Value} {ref : Ref} {entity : Entity}

/-! One step. -/

theorem refsOfStep_eq (step : Step) : refsOfStep step = refsOfAll step.parts := by
  cases step <;> simp [refsOfStep, Step.parts, refsOfAll, List.append_assoc]

theorem mem_refsOfSteps {steps : List Step} :
    ref ∈ refsOfSteps steps ↔ ∃ step ∈ steps, ref ∈ refsOfAll step.parts := by
  induction steps with
  | nil => simp [refsOfSteps]
  | cons step rest ih =>
    rw [refsOfSteps, List.mem_append, ih, refsOfStep_eq]
    simp

theorem mem_contents_object {object : Object} : value ∈ contents machine (.object object) ↔
    ∃ cls ∈ object.manifest, ∃ found, machine.classes.get? cls = some found ∧
      ∃ key own, (key, own) ∈ found.ownFieldKeys ∧ object.fields.get? key = some value := by
  simp only [contents, shownFields, fieldViews, List.mem_map, List.mem_filterMap, List.mem_flatMap,
    Option.map_eq_some_iff]
  constructor
  · rintro ⟨_, ⟨_, ⟨found, ⟨cls, hcls, hfound⟩, ⟨key, own⟩, hown, rfl⟩, value, hvalue, rfl⟩, rfl⟩
    exact ⟨cls, hcls, found, hfound, key, own, hown, hvalue⟩
  · rintro ⟨cls, hcls, found, hfound, key, own, hown, hvalue⟩
    exact ⟨_, ⟨_, ⟨found, ⟨cls, hcls, hfound⟩, (key, own), hown, rfl⟩, value, hvalue, rfl⟩, rfl⟩

/-- An entity leads to its contents. -/
theorem leads_entity (hentity : machine.heap.entity? ref = some entity) :
    machine.Leads (entity.kind.value ref) value ↔ value ∈ contents machine entity := by
  cases entity with
  | object object =>
    rw [mem_contents_object]
    constructor
    · rintro (⟨hobject, hcls, hfound, hown, hvalue⟩ | _)
      obtain ⟨⟩ := hentity.symm.trans (Heap.object?_eq_some.mp hobject)
      exact ⟨_, hcls, _, hfound, _, _, hown, hvalue⟩
    · rintro ⟨cls, hcls, found, hfound, key, own, hown, hvalue⟩
      exact .field (Heap.object?_eq_some.mpr hentity) hcls hfound hown hvalue
  | array items =>
    constructor
    · rintro (_ | ⟨hitems, hmem⟩)
      obtain ⟨⟩ := hentity.symm.trans (Heap.array?_eq_some.mp hitems)
      exact hmem
    · exact .item (Heap.array?_eq_some.mpr hentity)
  | map entries =>
    simp only [contents, List.mem_flatMap, List.mem_cons, List.not_mem_nil, or_false]
    constructor
    · rintro (_ | _ | ⟨hentries, hmem⟩ | ⟨hentries, hmem⟩)
      all_goals obtain ⟨⟩ := hentity.symm.trans (Heap.map?_eq_some.mp hentries)
      · exact ⟨_, hmem, .inl rfl⟩
      · exact ⟨_, hmem, .inr rfl⟩
    · rintro ⟨entry, hmem, rfl | rfl⟩
      · exact .key (Heap.map?_eq_some.mpr hentity) hmem
      · exact .value (Heap.map?_eq_some.mpr hentity) hmem
  | set entries =>
    constructor
    · rintro (_ | _ | _ | _ | ⟨hentries, hmem⟩)
      obtain ⟨⟩ := hentity.symm.trans (Heap.set?_eq_some.mp hentries)
      exact hmem
    · exact .element (Heap.set?_eq_some.mpr hentity)

/-- Values lead to the contents of an entity, or to parts of themselves. -/
theorem Leads.entity_or_part (h : machine.Leads value inner) :
    (∃ ref entity, value = entity.kind.value ref ∧ machine.heap.entity? ref = some entity ∧
      inner ∈ contents machine entity) ∨ ∀ ref ∈ refs inner, ref ∈ refs value := by
  have hentity : ∀ {ref : Ref} {entity : Entity}, machine.heap.entity? ref = some entity →
      value = entity.kind.value ref → ∃ ref entity, value = entity.kind.value ref ∧
        machine.heap.entity? ref = some entity ∧ inner ∈ contents machine entity :=
    fun hentity hvalue => ⟨_, _, hvalue, hentity, (leads_entity hentity).mp (hvalue ▸ h)⟩
  cases h with
  | field hobject => exact .inl (hentity (Heap.object?_eq_some.mp hobject) rfl)
  | item hitems => exact .inl (hentity (Heap.array?_eq_some.mp hitems) rfl)
  | key hentries | value hentries => exact .inl (hentity (Heap.map?_eq_some.mp hentries) rfl)
  | element hentries => exact .inl (hentity (Heap.set?_eq_some.mp hentries) rfl)
  | component hmem => exact .inr fun ref href => mem_refsOfAll.mpr ⟨inner, hmem, href⟩
  | part hstep hmem =>
    exact .inr fun ref href =>
      mem_refsOfSteps.mpr ⟨_, hstep, mem_refsOfAll.mpr ⟨inner, hmem, href⟩⟩

/-! Many steps. -/

mutual

theorem leadsTo_of_mem_refs : ∀ {value : Value}, ref ∈ refs value →
    ∃ kind : EntityKind, machine.LeadsTo value (kind.value ref)
  | .null, hmem | .num _, hmem | .bool _, hmem | .text _, hmem => nomatch hmem
  | .object _, hmem => List.mem_singleton.mp hmem ▸ ⟨.object, .refl⟩
  | .array _, hmem => List.mem_singleton.mp hmem ▸ ⟨.array, .refl⟩
  | .map _, hmem => List.mem_singleton.mp hmem ▸ ⟨.map, .refl⟩
  | .set _, hmem => List.mem_singleton.mp hmem ▸ ⟨.set, .refl⟩
  | .tuple items, hmem =>
    let ⟨_, hitem, kind, hleads⟩ := leadsTo_of_mem_refsOfAll (hmem : ref ∈ refsOfAll items)
    ⟨kind, .head (.component hitem) hleads⟩
  | .suggestion _ steps, hmem =>
    let ⟨_, hstep, _, hpart, kind, hleads⟩ :=
      leadsTo_of_mem_refsOfSteps (hmem : ref ∈ refsOfSteps steps)
    ⟨kind, .head (.part hstep hpart) hleads⟩

theorem leadsTo_of_mem_refsOfAll : ∀ {values : List Value}, ref ∈ refsOfAll values →
    ∃ value ∈ values, ∃ kind : EntityKind, machine.LeadsTo value (kind.value ref)
  | [], hmem => nomatch hmem
  | value :: rest, hmem => by
    rcases List.mem_append.mp hmem with hmem | hmem
    · exact ⟨value, List.mem_cons_self .., leadsTo_of_mem_refs hmem⟩
    · obtain ⟨other, hother, hleads⟩ := leadsTo_of_mem_refsOfAll hmem
      exact ⟨other, List.mem_cons_of_mem _ hother, hleads⟩

theorem leadsTo_of_mem_refsOfStep : ∀ {step : Step}, ref ∈ refsOfStep step →
    ∃ value ∈ step.parts, ∃ kind : EntityKind, machine.LeadsTo value (kind.value ref)
  | .extend target _, hmem | .retract target _, hmem =>
    ⟨target, List.mem_singleton_self _, leadsTo_of_mem_refs hmem⟩
  | .call target caller _ args, hmem => by
    rcases List.mem_append.mp hmem with hmem | hmem
    · rcases List.mem_append.mp hmem with hmem | hmem
      · exact ⟨target, by simp [Step.parts], leadsTo_of_mem_refs hmem⟩
      · exact ⟨caller, by simp [Step.parts], leadsTo_of_mem_refs hmem⟩
    · obtain ⟨arg, harg, hleads⟩ := leadsTo_of_mem_refsOfAll hmem
      exact ⟨arg, by simp [Step.parts, harg], hleads⟩

theorem leadsTo_of_mem_refsOfSteps : ∀ {steps : List Step}, ref ∈ refsOfSteps steps →
    ∃ step ∈ steps, ∃ value ∈ step.parts, ∃ kind : EntityKind,
      machine.LeadsTo value (kind.value ref)
  | [], hmem => nomatch hmem
  | step :: rest, hmem => by
    rcases List.mem_append.mp hmem with hmem | hmem
    · exact ⟨step, List.mem_cons_self .., leadsTo_of_mem_refsOfStep hmem⟩
    · obtain ⟨other, hother, hleads⟩ := leadsTo_of_mem_refsOfSteps hmem
      exact ⟨other, List.mem_cons_of_mem _ hother, hleads⟩

end

theorem LeadsTo.reaches (h : machine.LeadsTo root value) :
    ∀ ref ∈ refs value, Reaches machine (refs root) ref := by
  induction h with
  | refl => exact fun ref => .start
  | tail _ hstep ih =>
    rcases hstep.entity_or_part with ⟨outer, entity, rfl, hentity, hmem⟩ | hpart
    · have houter := ih outer (by simp)
      refine fun ref href => houter.inside ?_
      rw [entityRefs, hentity]
      exact mem_refsOfAll.mpr ⟨_, hmem, href⟩
    · exact fun ref href => ih ref (hpart ref href)

/-- No reference that the root leads to dangles. -/
def Grounded (machine : Machine) (root : Value) : Prop :=
  ∀ value, machine.LeadsTo root value → value.ref?.isSome → machine.heap.outline.Names value

/-- No two entities that the root leads to share an identifier. -/
def DistinctFrom (machine : Machine) (root : Value) : Prop :=
  ∀ a b ref ref', machine.LeadsTo root a → machine.LeadsTo root b → a.ref? = some ref →
    b.ref? = some ref' → ref.id = ref'.id → ref = ref'

theorem Grounded.cell (h : machine.Grounded root) {kind : EntityKind}
    (hleads : machine.LeadsTo root (kind.value ref)) :
    machine.heap.outline.cells[ref.address]? = some (ref.id, kind) :=
  EntityKind.names_value.mp (h _ hleads (by simp))

/-- The entity that a reference leads to is of the kind that it says. -/
theorem Grounded.stored (h : machine.Grounded root) {kind : EntityKind}
    (hleads : machine.LeadsTo root (kind.value ref)) :
    ∃ entity, machine.heap.entity? ref = some entity ∧ entity.kind = kind := by
  have hcell := h.cell hleads
  simp only [Heap.outline, List.getElem?_map, Array.getElem?_toList] at hcell
  obtain ⟨cell, hcell, heq⟩ := Option.map_eq_some_iff.mp hcell
  exact ⟨cell.entity, Heap.entity?_eq_some.mpr ⟨cell, hcell, rfl⟩, congrArg Prod.snd heq⟩

theorem Grounded.leadsTo_of_reaches (h : machine.Grounded root)
    (hreach : Reaches machine (refs root) ref) :
    ∃ kind : EntityKind, machine.LeadsTo root (kind.value ref) := by
  induction hreach with
  | start hmem => exact leadsTo_of_mem_refs hmem
  | inside _ hinner ih =>
    obtain ⟨kind, hleads⟩ := ih
    obtain ⟨entity, hentity, rfl⟩ := h.stored hleads
    rw [entityRefs, hentity] at hinner
    obtain ⟨value, hvalue, hmem⟩ := mem_refsOfAll.mp hinner
    obtain ⟨kind, hinside⟩ := leadsTo_of_mem_refs hmem
    exact ⟨kind, (hleads.tail ((leads_entity hentity).mpr hvalue)).trans hinside⟩

theorem Grounded.leadsTo_iff (h : machine.Grounded root) {kind : EntityKind} :
    machine.LeadsTo root (kind.value ref) ↔ Reaches machine (refs root) ref ∧
      ∃ entity, machine.heap.entity? ref = some entity ∧ entity.kind = kind := by
  constructor
  · exact fun hleads => ⟨hleads.reaches ref (by simp), h.stored hleads⟩
  · rintro ⟨hreach, entity, hentity, rfl⟩
    obtain ⟨kind, hleads⟩ := h.leadsTo_of_reaches hreach
    obtain ⟨other, hother, rfl⟩ := h.stored hleads
    obtain rfl := Option.some.inj (hentity.symm.trans hother)
    exact hleads

theorem Grounded.has (h : machine.Grounded root) (hreach : Reaches machine (refs root) ref) :
    machine.heap.outline.Has ref := by
  obtain ⟨kind, hleads⟩ := h.leadsTo_of_reaches hreach
  exact ⟨kind, h.cell hleads⟩

theorem Grounded.distinct (h : machine.Grounded root) (hdistinct : machine.DistinctFrom root) :
    Distinct machine (refs root) := by
  intro a b ha hb hid
  obtain ⟨kind, hleads⟩ := h.leadsTo_of_reaches ha
  obtain ⟨kind', hleads'⟩ := h.leadsTo_of_reaches hb
  exact hdistinct _ _ a b hleads hleads' EntityKind.ref?_value EntityKind.ref?_value hid

theorem Sound.known_of_leads {classes : ClassRegistry} {outline : Outline}
    (h : machine.Sound classes outline) (hvalue : value.Known classes outline)
    (hleads : machine.Leads value inner) : inner.Known classes outline := by
  have hstored : ∀ {ref : Ref} {entity : Entity}, machine.heap.entity? ref = some entity →
      value = entity.kind.value ref → inner.Known classes outline := fun hentity heq =>
    (h.stored_sound hentity).contents _ (mem_contents ((leads_entity hentity).mp (heq ▸ hleads)))
  cases hleads with
  | field hobject => exact hstored (Heap.object?_eq_some.mp hobject) rfl
  | item hitems => exact hstored (Heap.array?_eq_some.mp hitems) rfl
  | key hentries | value hentries => exact hstored (Heap.map?_eq_some.mp hentries) rfl
  | element hentries => exact hstored (Heap.set?_eq_some.mp hentries) rfl
  | component hmem => exact Value.allWithin_iff.mp hvalue inner hmem
  | part hstep hmem => exact (Step.allWithin_iff.mp hvalue _ hstep).parts inner hmem

/-- Sound machines know of no dangling references. -/
theorem Sound.grounded {classes : ClassRegistry} {outline : Outline}
    (h : machine.Sound classes outline) (hroot : root.Known classes outline) :
    machine.Grounded root := by
  have hknown : ∀ {value : Value}, machine.LeadsTo root value → value.Known classes outline := by
    intro value hleads
    induction hleads with
    | refl => exact hroot
    | tail _ hstep ih => exact h.known_of_leads ih hstep
  intro value hleads href
  have hvalue := hknown hleads
  rw [h.layout]
  cases value with
  | object | array | map | set => exact hvalue
  | _ => cases href

end Machine

/-! References in snapshots. -/

mutual

/-- The identifiers that a value refers to. -/
def SnapValue.mentions : SnapValue → List String
  | .ref id => [id]
  | .tuple items => SnapValue.mentionsOfAll items
  | .suggestion steps => SnapStep.mentionsOfAll steps
  | .null | .num _ | .bool _ | .text _ => []

def SnapValue.mentionsOfAll : List SnapValue → List String
  | [] => []
  | item :: rest => item.mentions ++ SnapValue.mentionsOfAll rest

def SnapStep.mentions : SnapStep → List String
  | .extend target _ | .retract target _ => target.mentions
  | .call target caller _ _ args =>
    target.mentions ++ caller.mentions ++ SnapValue.mentionsOfAll args

def SnapStep.mentionsOfAll : List SnapStep → List String
  | [] => []
  | step :: rest => step.mentions ++ SnapStep.mentionsOfAll rest

end

namespace Snapshot

/-- The identifiers that a snapshot refers to anywhere. -/
def mentions (snapshot : Snapshot) : List String :=
  snapshot.root.mentions ++
  (snapshot.objects.values.flatMap fun object => SnapValue.mentionsOfAll object.fields.values) ++
  snapshot.arrays.values.flatMap SnapValue.mentionsOfAll ++
  (snapshot.maps.values.flatMap fun entries =>
    entries.flatMap fun (key, value) => key.mentions ++ value.mentions) ++
  snapshot.sets.values.flatMap SnapValue.mentionsOfAll

end Snapshot

namespace Capture

variable {machine : Machine} {classes : ClassRegistry}

mutual

theorem mentions_value : ∀ item : Value,
    (value classes item).mentions = (refs item).map fun ref => ref.id.text
  | .null | .num _ | .bool _ | .text _ | .object _ | .array _ | .map _ | .set _ => rfl
  | .tuple items => mentions_values items
  | .suggestion _ steps => mentions_stepsOf steps

theorem mentions_values : ∀ items : List Value,
    SnapValue.mentionsOfAll (values classes items) = (refsOfAll items).map fun ref => ref.id.text
  | [] => rfl
  | item :: rest => by
    rw [values, SnapValue.mentionsOfAll, mentions_value item, mentions_values rest, refsOfAll,
      List.map_append]

theorem mentions_step : ∀ item : Step,
    (step classes item).mentions = (refsOfStep item).map fun ref => ref.id.text
  | .extend target _ | .retract target _ => mentions_value target
  | .call target caller _ args => by
    rw [step, SnapStep.mentions, mentions_value target, mentions_value caller, mentions_values args,
      refsOfStep, List.map_append, List.map_append]

theorem mentions_stepsOf : ∀ items : List Step,
    SnapStep.mentionsOfAll (stepsOf classes items) =
      (refsOfSteps items).map fun ref => ref.id.text
  | [] => rfl
  | item :: rest => by
    rw [stepsOf, SnapStep.mentionsOfAll, mentions_step item, mentions_stepsOf rest, refsOfSteps,
      List.map_append]

end

/-- What is shown of an entity refers to no more than the entity. -/
def Shown.mentions : Shown → List String
  | .object shown => SnapValue.mentionsOfAll shown.fields.values
  | .array items | .set items => SnapValue.mentionsOfAll items
  | .map entries => entries.flatMap fun (key, value) => key.mentions ++ value.mentions

theorem mem_mentionsOfAll {items : List SnapValue} {id : String} :
    id ∈ SnapValue.mentionsOfAll items ↔ ∃ item ∈ items, id ∈ item.mentions := by
  induction items with
  | nil => simp [SnapValue.mentionsOfAll]
  | cons item rest ih => simp [SnapValue.mentionsOfAll, ih]

theorem mentions_shown {entity : Entity} {id : String} (h : id ∈ (shown machine entity).mentions) :
    ∃ ref ∈ refsOfAll (contents machine entity), ref.id.text = id := by
  have hvalue : ∀ item ∈ contents machine entity, id ∈ (value machine.classes item).mentions →
      ∃ ref ∈ refsOfAll (contents machine entity), ref.id.text = id := by
    intro item hitem hmem
    rw [mentions_value] at hmem
    obtain ⟨ref, href, heq⟩ := List.mem_map.mp hmem
    exact ⟨ref, mem_refsOfAll.mpr ⟨item, hitem, href⟩, heq⟩
  cases entity with
  | object object =>
    obtain ⟨item, hitem, hmem⟩ := mem_mentionsOfAll.mp h
    obtain ⟨entry, hentry, rfl⟩ := List.mem_map.mp hitem
    obtain ⟨field, hfield, rfl⟩ := List.mem_map.mp (Ordered.mem_ofList hentry)
    exact hvalue field.2 (List.mem_map.mpr ⟨field, hfield, rfl⟩) hmem
  | array | set =>
    simp only [shown, Shown.mentions, mentions_values] at h
    exact List.mem_map.mp h
  | map entries =>
    obtain ⟨pair, hpair, hmem⟩ := List.mem_flatMap.mp h
    obtain ⟨entry, hentry, rfl⟩ := List.mem_map.mp hpair
    have hinside : ∀ item ∈ [entry.1, entry.2], item ∈ contents machine (.map entries) :=
      fun item hitem => List.mem_flatMap.mpr ⟨entry, hentry, hitem⟩
    rcases List.mem_append.mp hmem with hmem | hmem
    · exact hvalue entry.1 (hinside _ (by simp)) hmem
    · exact hvalue entry.2 (hinside _ (by simp)) hmem

end Capture

/-- The snapshot has an entry for exactly what the root leads to, in the table of its kind, and for
every identifier that it refers to. -/
structure Machine.Depicted (machine : Machine) (root : Value) (snapshot : Snapshot) : Prop where
  objects (id : String) : id ∈ snapshot.objects.keys ↔
    ∃ ref, machine.LeadsTo root (.object ref) ∧ ref.id.text = id
  arrays (id : String) : id ∈ snapshot.arrays.keys ↔
    ∃ ref, machine.LeadsTo root (.array ref) ∧ ref.id.text = id
  maps (id : String) : id ∈ snapshot.maps.keys ↔
    ∃ ref, machine.LeadsTo root (.map ref) ∧ ref.id.text = id
  sets (id : String) : id ∈ snapshot.sets.keys ↔
    ∃ ref, machine.LeadsTo root (.set ref) ∧ ref.id.text = id
  closed : ∀ id ∈ snapshot.mentions, id ∈ snapshot.objects.keys ∨ id ∈ snapshot.arrays.keys ∨
    id ∈ snapshot.maps.keys ∨ id ∈ snapshot.sets.keys

namespace Machine

variable {machine : Machine} {root : Value} {visited : List Ref}

theorem mem_keys_table {α : Type} {part : Shown → Option α} {id : String}
    (hnodup : (visited.map Ref.id).Nodup) :
    id ∈ (Ordered.ofList (table machine part visited)).keys ↔
      ∃ ref ∈ visited, ((shown? machine ref).bind part).isSome ∧ ref.id.text = id := by
  simp only [Ordered.keys, List.mem_map, Ordered.mem_ofList_iff (nodup_table hnodup), mem_table,
    Option.isSome_iff_exists]
  constructor
  · rintro ⟨entry, ⟨ref, hmem, hshown, hid⟩, rfl⟩
    exact ⟨ref, hmem, ⟨_, hshown⟩, hid⟩
  · rintro ⟨ref, hmem, ⟨content, hshown⟩, rfl⟩
    exact ⟨(ref.id.text, content), ⟨ref, hmem, hshown, rfl⟩, rfl⟩

/-- A table has entries for the entities of its kind. -/
theorem Grounded.mem_keys (h : machine.Grounded root) (hnodup : (visited.map Ref.id).Nodup)
    (hvisited : ∀ ref, ref ∈ visited ↔ Reaches machine (refs root) ref) {α : Type}
    {part : Shown → Option α} (kind : EntityKind)
    (hpart : ∀ entity, (part (shown machine entity)).isSome ↔ entity.kind = kind) (id : String) :
    id ∈ (Ordered.ofList (table machine part visited)).keys ↔
      ∃ ref, machine.LeadsTo root (kind.value ref) ∧ ref.id.text = id := by
  have hshown : ∀ ref, ((shown? machine ref).bind part).isSome ↔
      ∃ entity, machine.heap.entity? ref = some entity ∧ entity.kind = kind := by
    intro ref
    rw [shown?]
    cases machine.heap.entity? ref with
    | none => simp
    | some entity => simpa using hpart entity
  simp only [mem_keys_table hnodup, hvisited, hshown, h.leadsTo_iff, and_assoc]

/-- A table only refers to what its entities lead to. -/
theorem reaches_of_mentions (hvisited : ∀ ref ∈ visited, Reaches machine (refs root) ref)
    {α : Type} {part : Shown → Option α} {mentions : α → List String}
    (hpart : ∀ shown content, part shown = some content → mentions content = shown.mentions)
    {id : String}
    (hid : id ∈ (Ordered.ofList (table machine part visited)).values.flatMap mentions) :
    ∃ ref, Reaches machine (refs root) ref ∧ ref.id.text = id := by
  obtain ⟨content, hcontent, hmem⟩ := List.mem_flatMap.mp hid
  obtain ⟨entry, hentry, rfl⟩ := List.mem_map.mp hcontent
  obtain ⟨ref, href, hshown, -⟩ := mem_table.mp (Ordered.mem_ofList hentry)
  obtain ⟨_, hentity, hpartial⟩ := Option.bind_eq_some_iff.mp hshown
  obtain ⟨entity, hstored, rfl⟩ := Option.map_eq_some_iff.mp hentity
  rw [hpart _ _ hpartial] at hmem
  obtain ⟨inner, hinner, htext⟩ := mentions_shown hmem
  refine ⟨inner, (hvisited ref href).inside ?_, htext⟩
  rwa [entityRefs, hstored]

theorem reaches_of_mem_mentions (hvisited : ∀ ref ∈ visited, Reaches machine (refs root) ref)
    {id : String} (hid : id ∈ Snapshot.mentions {
      root := value machine.classes root
      objects := Ordered.ofList (table machine Shown.object? visited)
      arrays := Ordered.ofList (table machine Shown.array? visited)
      maps := Ordered.ofList (table machine Shown.map? visited)
      sets := Ordered.ofList (table machine Shown.set? visited) }) :
    ∃ ref, Reaches machine (refs root) ref ∧ ref.id.text = id := by
  simp only [Snapshot.mentions, List.mem_append] at hid
  rcases hid with (((hid | hid) | hid) | hid) | hid
  · rw [mentions_value] at hid
    obtain ⟨ref, href, htext⟩ := List.mem_map.mp hid
    exact ⟨ref, .start href, htext⟩
  all_goals
    refine reaches_of_mentions hvisited (fun shown content hshown => ?_) hid
    cases shown <;> cases hshown
    rfl

/-- Taking a snapshot ends, and the snapshot shows exactly what the root leads to, whatever is shared
and wherever it leads back to itself. -/
theorem capture_exact (hgrounded : machine.Grounded root) (hdistinct : machine.DistinctFrom root) :
    (∀ last, Walks machine (refs root) [] { root := value machine.classes root } last ↔
      last = machine.capture root) ∧
    machine.Depicted root (machine.capture root) := by
  have hwalks := machine.walks_capture fun ref => hgrounded.has
  refine ⟨fun last => ⟨fun hlast => hlast.unique hwalks, fun hlast => hlast ▸ hwalks⟩, ?_⟩
  obtain ⟨visited, hnodup, hvisited, heq⟩ :=
    machine.capture_eq (fun ref => hgrounded.has) (hgrounded.distinct hdistinct)
  have hobjects := hgrounded.mem_keys hnodup hvisited .object fun entity =>
    show (shown machine entity).object?.isSome ↔ _ by
      cases entity <;> simp [shown, Shown.object?, Entity.kind]
  have harrays := hgrounded.mem_keys hnodup hvisited .array fun entity =>
    show (shown machine entity).array?.isSome ↔ _ by
      cases entity <;> simp [shown, Shown.array?, Entity.kind]
  have hmaps := hgrounded.mem_keys hnodup hvisited .map fun entity =>
    show (shown machine entity).map?.isSome ↔ _ by
      cases entity <;> simp [shown, Shown.map?, Entity.kind]
  have hsets := hgrounded.mem_keys hnodup hvisited .set fun entity =>
    show (shown machine entity).set?.isSome ↔ _ by
      cases entity <;> simp [shown, Shown.set?, Entity.kind]
  rw [heq]
  refine ⟨hobjects, harrays, hmaps, hsets, fun id hid => ?_⟩
  obtain ⟨ref, hreach, rfl⟩ := reaches_of_mem_mentions (fun ref => (hvisited ref).mp) hid
  obtain ⟨kind, hleads⟩ := hgrounded.leadsTo_of_reaches hreach
  cases kind with
  | object => exact .inl ((hobjects _).mpr ⟨ref, hleads, rfl⟩)
  | array => exact .inr (.inl ((harrays _).mpr ⟨ref, hleads, rfl⟩))
  | map => exact .inr (.inr (.inl ((hmaps _).mpr ⟨ref, hleads, rfl⟩)))
  | set => exact .inr (.inr (.inr ((hsets _).mpr ⟨ref, hleads, rfl⟩)))

/-! An array inside of itself. -/

def knot : Value := .array ⟨0, ⟨0⟩⟩

def knotItems : Array Value := #[knot, .tuple [knot], .suggestion 0 [.extend knot ⟨0⟩]]

def knotted : Machine where
  heap := ⟨#[⟨⟨0⟩, .array knotItems⟩]⟩

theorem knot_leadsTo {value : Value} (h : knotted.LeadsTo knot value) :
    value ∈ knotItems.toList := by
  have hknot : knot ∈ knotItems.toList := List.mem_cons_self ..
  induction h with
  | refl => exact hknot
  | @tail outer inner _ hstep ih =>
    simp only [knotItems, List.mem_cons, List.not_mem_nil, or_false] at ih
    rcases ih with rfl | rfl | rfl
    · obtain _ | ⟨hitems, hmem⟩ := hstep
      cases hitems
      exact hmem
    · cases hstep with
      | component hmem => exact List.mem_singleton.mp hmem ▸ hknot
    · cases hstep with
      | part hpart hmem =>
        obtain rfl := List.mem_singleton.mp hpart
        exact List.mem_singleton.mp hmem ▸ hknot

theorem knot_ref {value : Value} {ref : Ref} (h : knotted.LeadsTo knot value)
    (href : value.ref? = some ref) : value = knot ∧ ref = ⟨0, ⟨0⟩⟩ := by
  have hmem := knot_leadsTo h
  simp only [knotItems, List.mem_cons, List.not_mem_nil, or_false] at hmem
  rcases hmem with rfl | rfl | rfl
  · cases href
    exact ⟨rfl, rfl⟩
  · cases href
  · cases href

theorem knot_exact : knotted.Grounded knot ∧ knotted.DistinctFrom knot ∧
    Walks knotted (refs knot) [] { root := .ref "0" } (knotted.capture knot) ∧
    knotted.Depicted knot (knotted.capture knot) := by
  have hgrounded : knotted.Grounded knot := by
    intro value hleads href
    obtain ⟨ref, href⟩ := Option.isSome_iff_exists.mp href
    rw [(knot_ref hleads href).1]
    rfl
  have hdistinct : knotted.DistinctFrom knot := by
    intro a b ref ref' ha hb href href' _
    rw [(knot_ref ha href).2, (knot_ref hb href').2]
  obtain ⟨hwalks, hdepicted⟩ := capture_exact hgrounded hdistinct
  exact ⟨hgrounded, hdistinct, (hwalks _).mpr rfl, hdepicted⟩

end Machine

end Attire
