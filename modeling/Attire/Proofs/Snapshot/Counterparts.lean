import Attire.Proofs.Results
import Attire.Proofs.Snapshot.Copies
import Attire.Proofs.Snapshot.Fields
import Attire.Proofs.Snapshot.Reaching

namespace Attire

open Capture

/-! Two graphs of which snapshots show the same. -/

/-- `twin` leads from the entities that can be reached from a value to those that can be reached from
another one.  Twins have the same identifier and show the same, and what one mentions are the twins of
what the other one mentions. -/
structure Twins (machine : Machine) (root : Value) (next : Machine) (root' : Value)
    (twin : Ref → Ref) : Prop where
  shownRoot : value next.classes root' = value machine.classes root
  start : refs root' = (refs root).map twin
  has {ref : Ref} : Reaches machine (refs root) ref → next.heap.outline.Has (twin ref)
  id {ref : Ref} : Reaches machine (refs root) ref → (twin ref).id = ref.id
  shown {ref : Ref} : Reaches machine (refs root) ref → shown? next (twin ref) = shown? machine ref
  inside {ref inner : Ref} : Reaches machine (refs root) ref →
    (inner ∈ entityRefs next (twin ref) ↔ inner ∈ (entityRefs machine ref).map twin)

namespace Twins

variable {machine next : Machine} {root root' : Value} {twin : Ref → Ref} {ref : Ref}

theorem reaches_iff (h : Twins machine root next root' twin) :
    Reaches next (refs root') ref ↔ ∃ old, Reaches machine (refs root) old ∧ twin old = ref := by
  constructor
  · intro hreach
    induction hreach with
    | start hmem =>
      rw [h.start] at hmem
      obtain ⟨old, hold, rfl⟩ := List.mem_map.mp hmem
      exact ⟨old, .start hold, rfl⟩
    | inside _ hinner ih =>
      obtain ⟨old, hold, rfl⟩ := ih
      obtain ⟨inner, hmem, rfl⟩ := List.mem_map.mp ((h.inside hold).mp hinner)
      exact ⟨inner, hold.inside hmem, rfl⟩
  · rintro ⟨old, hold, rfl⟩
    induction hold with
    | start hmem => exact .start (h.start ▸ List.mem_map_of_mem hmem)
    | inside hold hinner ih => exact ih.inside ((h.inside hold).mpr (List.mem_map_of_mem hinner))

theorem has_next (h : Twins machine root next root' twin) (hreach : Reaches next (refs root') ref) :
    next.heap.outline.Has ref := by
  obtain ⟨old, hold, rfl⟩ := h.reaches_iff.mp hreach
  exact h.has hold

theorem distinct_next (h : Twins machine root next root' twin)
    (hdistinct : Distinct machine (refs root)) : Distinct next (refs root') := by
  intro a b ha hb hid
  obtain ⟨old, hold, rfl⟩ := h.reaches_iff.mp ha
  obtain ⟨old', hold', rfl⟩ := h.reaches_iff.mp hb
  rw [h.id hold, h.id hold'] at hid
  rw [hdistinct old old' hold hold' hid]

/-- Mentions of one entity become mentions of one entity, and no others do. -/
theorem address_iff (h : Twins machine root next root' twin)
    (hhas : ∀ ref, Reaches machine (refs root) ref → machine.heap.outline.Has ref)
    (hdistinct : Distinct machine (refs root)) {a b : Ref} (ha : Reaches machine (refs root) a)
    (hb : Reaches machine (refs root) b) :
    (twin a).address = (twin b).address ↔ a.address = b.address := by
  constructor
  · intro haddress
    have htwins : twin a = twin b := (h.has ha).eq_of_address (h.has hb) haddress
    have hid : a.id = b.id := by rw [← h.id ha, htwins, h.id hb]
    rw [hdistinct a b ha hb hid]
  · intro haddress
    rw [(hhas a ha).eq_of_address (hhas b hb) haddress]

theorem capture_eq (h : Twins machine root next root' twin)
    (hhas : ∀ ref, Reaches machine (refs root) ref → machine.heap.outline.Has ref)
    (hdistinct : Distinct machine (refs root)) : next.capture root' = machine.capture root := by
  obtain ⟨visited, hnodup, hvisited, hcapture⟩ := machine.capture_eq hhas hdistinct
  obtain ⟨visited', hnodup', hvisited', hcapture'⟩ :=
    next.capture_eq (fun _ => h.has_next) (h.distinct_next hdistinct)
  -- The walks may meet twins in different orders, but tables are sorted by identifiers.
  have htable : ∀ {α : Type} (part : Shown → Option α),
      Ordered.ofList (table next part visited') = Ordered.ofList (table machine part visited) := by
    intro α part
    refine Ordered.ofList_congr (nodup_table hnodup') (nodup_table hnodup) fun entry => ?_
    rw [mem_table, mem_table]
    constructor
    · rintro ⟨ref, hmem, hshown, hkey⟩
      obtain ⟨old, hold, rfl⟩ := h.reaches_iff.mp ((hvisited' ref).mp hmem)
      rw [h.shown hold] at hshown
      exact ⟨old, (hvisited old).mpr hold, hshown, h.id hold ▸ hkey⟩
    · rintro ⟨old, hmem, hshown, hkey⟩
      have hold := (hvisited old).mp hmem
      refine ⟨twin old, (hvisited' _).mpr (h.reaches_iff.mpr ⟨old, hold, rfl⟩), ?_, ?_⟩
      · rw [h.shown hold, hshown]
      · rw [h.id hold, hkey]
  rw [hcapture, hcapture', h.shownRoot]
  simp only [htable]

end Twins

end Attire

namespace Attire

open Capture

/-! Classes of two registries that go by the same names, and objects that wear them. -/

namespace ClassRegistry

variable {source target : ClassRegistry} {cls found : ClassId} {manifest worn : List ClassId}

/-- The class itself declares a field with that name. -/
def OwnsName (classes : ClassRegistry) (cls : ClassId) (name : String) : Prop :=
  ∃ key own, key.owner = cls ∧ classes.Owns key own ∧ own.name = name

/-- What the other registry has under the name of a class declares fields of the same names, and its
parents are what that registry has under the names of the parents. -/
structure Counterpart (source target : ClassRegistry) (cls found : ClassId) : Prop where
  find : target.find? (source.qualifiedNameOf cls) = some found
  fields (name : String) : source.OwnsName cls name ↔ target.OwnsName found name
  parents : (target.parents found).map some =
    (source.parents cls).map fun parent => target.find? (source.qualifiedNameOf parent)

theorem Named.qualifiedNameOf_eq (hnamed : target.Named) {name : String}
    (h : target.find? name = some found) : target.qualifiedNameOf found = name := by
  obtain ⟨def', hget, hname⟩ := hnamed name found h
  rw [ClassRegistry.qualifiedNameOf_eq hget, hname]

theorem Counterpart.name_eq (hnamed : target.Named) (h : source.Counterpart target cls found) :
    target.qualifiedNameOf found = source.qualifiedNameOf cls :=
  hnamed.qualifiedNameOf_eq h.find

theorem forall₂_manifest (hnamed : target.Named) (hlegible : source.Legible (source.manifest worn))
    (hcounterparts : ∀ cls ∈ source.manifest worn, ∃ found, source.Counterpart target cls found)
    {worn' : List ClassId} (hworn : List.Forall₂ (source.Counterpart target) worn worn') :
    List.Forall₂ (source.Counterpart target) (source.manifest worn) (target.manifest worn') := by
  let related (cls found : ClassId) : Prop :=
    cls ∈ source.manifest worn ∧ source.Counterpart target cls found
  have hunique : ∀ a b a' b', related a b → related a' b' → (a = a' ↔ b = b') := by
    rintro a b a' b' ⟨ha, hb⟩ ⟨ha', hb'⟩
    constructor
    · rintro rfl
      exact Option.some.inj (hb.find.symm.trans hb'.find)
    · rintro rfl
      exact hlegible.names a ha a' ha' ((hb.name_eq hnamed).symm.trans (hb'.name_eq hnamed))
  have hparents : ∀ a b, related a b →
      List.Forall₂ related (source.parents a) (target.parents b) := by
    rintro a b ⟨ha, hb⟩
    obtain ⟨start, hstart, hpath⟩ := mem_manifest.mp ha
    have hmanifest : ∀ parent ∈ source.parents a, parent ∈ source.manifest worn :=
      fun parent hparent => mem_manifest.mpr ⟨start, hstart, hpath.tail hparent⟩
    have hfind : List.Forall₂ (fun parent other =>
        target.find? (source.qualifiedNameOf parent) = some other) (source.parents a)
        (target.parents b) := by
      have hequal : List.Forall₂ Eq _ _ := List.forall₂_eq_eq_eq ▸ hb.parents.symm
      rwa [List.forall₂_map_left_iff, List.forall₂_map_right_iff] at hequal
    refine ((List.forall₂_and_left _ _).mpr ⟨hmanifest, hfind⟩).imp ?_
    rintro parent other ⟨hparent, hother⟩
    obtain ⟨found, hfound⟩ := hcounterparts parent hparent
    obtain rfl := Option.some.inj (hother.symm.trans hfound.find)
    exact ⟨hparent, hfound⟩
  have hrelated : List.Forall₂ related worn worn' :=
    (List.forall₂_and_left _ _).mpr ⟨fun _ => mem_manifest_of_mem, hworn⟩
  exact (manifest_parallel hunique hparents hrelated).imp fun _ _ h => h.2

theorem Legible.counterparts (hlegible : source.Legible manifest) (hnamed : target.Named)
    {manifest' : List ClassId}
    (h : List.Forall₂ (source.Counterpart target) manifest manifest') :
    target.Legible manifest' := by
  obtain ⟨-, hback⟩ := mem_of_forall₂ h
  constructor
  case names =>
    intro a ha b hb heq
    obtain ⟨cls, hcls, hcounterpart⟩ := hback a ha
    obtain ⟨cls', hcls', hcounterpart'⟩ := hback b hb
    have hnames := (hcounterpart.name_eq hnamed).symm.trans
      (heq.trans (hcounterpart'.name_eq hnamed))
    obtain rfl := hlegible.names cls hcls cls' hcls' hnames
    exact Option.some.inj (hcounterpart.find.symm.trans hcounterpart'.find)
  case dotless =>
    intro key own hkey hown
    obtain ⟨cls, hcls, hcounterpart⟩ := hback key.owner hkey
    obtain ⟨key', own', rfl, hown', hname⟩ :=
      (hcounterpart.fields own.name).mpr ⟨key, own, rfl, hown, rfl⟩
    exact hname ▸ hlegible.dotless hcls hown'

end ClassRegistry

open ClassRegistry

/-- A snapshot shows all fields of the object, each under a key of its own. -/
structure Object.Portable (classes : ClassRegistry) (object : Object) : Prop where
  legible : classes.Legible object.manifest
  complete {key : FieldKey} : key.owner ∈ object.manifest → classes.HasField key →
    object.fields.contains key

/-- The copy wears the counterparts of what the original wears, and stores copies of what a snapshot
shows of it. -/
structure Object.Copies (source : Machine) (target : ClassRegistry) (twin : Ref → Ref)
    (original copy : Object) : Prop where
  worn : List.Forall₂ (source.classes.Counterpart target) original.worn copy.worn
  manifest : List.Forall₂ (source.classes.Counterpart target) original.manifest copy.manifest
  nodup : original.manifest.Nodup ∧ copy.manifest.Nodup
  field {label : String} {content : Value} : (label, content) ∈ shownFields source original →
    ∃ key own stored, key.owner ∈ copy.manifest ∧ target.Owns key own ∧
      target.labelOf key own = label ∧ copy.fields.get? key = some stored ∧
      content.Copies source.classes target twin stored

inductive Entity.Copies (source : Machine) (target : ClassRegistry) (twin : Ref → Ref) :
    Entity → Entity → Prop
  | object {original copy : Object} : original.Portable source.classes →
      original.Copies source target twin copy → Copies source target twin (.object original) (.object copy)
  | array {items items' : Array Value} :
      List.Forall₂ (Value.Copies source.classes target twin) items.toList items'.toList →
      Copies source target twin (.array items) (.array items')
  | map {entries entries' : MapEntries} :
      List.Forall₂ (fun entry entry' => entry.1.Copies source.classes target twin entry'.1 ∧
        entry.2.Copies source.classes target twin entry'.2) entries.values entries'.values →
      Copies source target twin (.map entries) (.map entries')
  | set {entries entries' : SetEntries} :
      List.Forall₂ (Value.Copies source.classes target twin) entries.values entries'.values →
      Copies source target twin (.set entries) (.set entries')

section

variable {source next : Machine} {twin : Ref → Ref} {original copy : Object}
variable (hcomposed : source.classes.Composed) (hcomposed' : next.classes.Composed)
variable (hnamed : next.classes.Named)

namespace Object.Copies

variable {label : String} {stored : Value}

include hcomposed' in
theorem shown_copy (h : original.Copies source next.classes twin copy) {content : Value}
    (hcontent : (label, content) ∈ shownFields source original) :
    ∃ stored, (label, stored) ∈ shownFields next copy ∧
      content.Copies source.classes next.classes twin stored := by
  obtain ⟨key, own, stored, howner, hown, hlabel, hvalue, hcopies⟩ := h.field hcontent
  exact ⟨stored, (mem_shownFields hcomposed').mpr ⟨key, own, howner, hown, hlabel, hvalue⟩, hcopies⟩

include hcomposed hcomposed' hnamed

theorem field_stored (h : original.Copies source next.classes twin copy)
    (hportable : original.Portable source.classes) {key : FieldKey} {own : OwnField}
    (howner : key.owner ∈ copy.manifest) (hown : next.classes.Owns key own) :
    ∃ content stored, (next.classes.labelOf key own, content) ∈ shownFields source original ∧
      copy.fields.get? key = some stored ∧
      content.Copies source.classes next.classes twin stored := by
  obtain ⟨cls, hcls, hcounterpart⟩ := (mem_of_forall₂ h.manifest).2 key.owner howner
  obtain ⟨key', own', rfl, hown', hname⟩ :=
    (hcounterpart.fields own.name).mpr ⟨key, own, rfl, hown, rfl⟩
  obtain ⟨content, hcontent⟩ :=
    Option.isSome_iff_exists.mp (hportable.complete hcls hown'.hasField)
  have hlabel : source.classes.labelOf key' own' = next.classes.labelOf key own := by
    rw [labelOf, labelOf, hname, hcounterpart.name_eq hnamed]
  have hshown := (mem_shownFields hcomposed).mpr ⟨key', own', hcls, hown', hlabel, hcontent⟩
  obtain ⟨found, foundOwn, stored, hfound, hfoundOwn, hfoundLabel, hstored, hcopies⟩ :=
    h.field hshown
  have hlegible := hportable.legible.counterparts hnamed h.manifest
  obtain rfl := hlegible.label_injective hcomposed' hfound howner hfoundOwn hown hfoundLabel
  exact ⟨content, stored, hshown, hstored, hcopies⟩

theorem shown_original (h : original.Copies source next.classes twin copy)
    (hportable : original.Portable source.classes)
    (hstored : (label, stored) ∈ shownFields next copy) :
    ∃ content, (label, content) ∈ shownFields source original ∧
      content.Copies source.classes next.classes twin stored := by
  obtain ⟨key, own, howner, hown, rfl, hvalue⟩ := (mem_shownFields hcomposed').mp hstored
  obtain ⟨content, copied, hshown, hcopied, hcopies⟩ :=
    h.field_stored hcomposed hcomposed' hnamed hportable howner hown
  obtain rfl := Option.some.inj (hvalue.symm.trans hcopied)
  exact ⟨content, hshown, hcopies⟩

theorem complete (h : original.Copies source next.classes twin copy)
    (hportable : original.Portable source.classes) {key : FieldKey}
    (howner : key.owner ∈ copy.manifest) (hfield : next.classes.HasField key) :
    copy.fields.contains key := by
  obtain ⟨own, hown⟩ := owns_of_hasField hfield
  obtain ⟨_, stored, -, hstored, -⟩ :=
    h.field_stored hcomposed hcomposed' hnamed hportable howner hown
  rw [Table.contains, hstored]
  rfl

theorem shown_eq (h : original.Copies source next.classes twin copy)
    (hportable : original.Portable source.classes) :
    shown next (.object copy) = shown source (.object original) := by
  have hworn : copy.worn.map next.classes.qualifiedNameOf =
      original.worn.map source.classes.qualifiedNameOf := by
    have hequal : List.Forall₂ Eq (copy.worn.map next.classes.qualifiedNameOf)
        (original.worn.map source.classes.qualifiedNameOf) := by
      rw [List.forall₂_map_left_iff, List.forall₂_map_right_iff]
      exact h.worn.flip.imp fun _ _ hcounterpart => hcounterpart.name_eq hnamed
    exact List.forall₂_eq_eq_eq ▸ hequal
  have hfst : ∀ (machine : Machine) (object : Object),
      ((shownFields machine object).map fun entry =>
        (entry.1, Capture.value machine.classes entry.2)).map Prod.fst =
        (shownFields machine object).map Prod.fst := by
    intro machine object
    rw [List.map_map]
    rfl
  have hlegible := hportable.legible.counterparts hnamed h.manifest
  have hfields : Ordered.ofList ((shownFields next copy).map fun entry =>
      (entry.1, Capture.value next.classes entry.2)) =
      Ordered.ofList ((shownFields source original).map fun entry =>
        (entry.1, Capture.value source.classes entry.2)) := by
    refine Ordered.ofList_congr ?_ ?_ fun entry => ?_
    · rw [hfst]
      exact nodup_shownFields hcomposed' h.nodup.2 hlegible
    · rw [hfst]
      exact nodup_shownFields hcomposed h.nodup.1 hportable.legible
    · obtain ⟨label, shown⟩ := entry
      simp only [List.mem_map, Prod.exists, Prod.mk.injEq]
      constructor
      · rintro ⟨_, stored, hstored, rfl, rfl⟩
        obtain ⟨content, hcontent, hcopies⟩ :=
          h.shown_original hcomposed hcomposed' hnamed hportable hstored
        exact ⟨_, content, hcontent, rfl, hcopies.shown.symm⟩
      · rintro ⟨_, content, hcontent, rfl, rfl⟩
        obtain ⟨stored, hstored, hcopies⟩ := h.shown_copy hcomposed' hcontent
        exact ⟨_, stored, hstored, rfl, hcopies.shown⟩
  rw [shown, shown, hworn, hfields]

theorem mem_refs_iff (h : original.Copies source next.classes twin copy)
    (hportable : original.Portable source.classes) {inner : Ref} :
    inner ∈ refsOfAll (contents next (.object copy)) ↔
      inner ∈ (refsOfAll (contents source (.object original))).map twin := by
  simp only [contents, List.mem_map, mem_refsOfAll, Prod.exists, exists_eq_right]
  constructor
  · rintro ⟨stored, ⟨label, hstored⟩, hinner⟩
    obtain ⟨content, hcontent, hcopies⟩ :=
      h.shown_original hcomposed hcomposed' hnamed hportable hstored
    rw [hcopies.refs] at hinner
    obtain ⟨old, hold, rfl⟩ := List.mem_map.mp hinner
    exact ⟨old, ⟨content, ⟨label, hcontent⟩, hold⟩, rfl⟩
  · rintro ⟨old, ⟨content, ⟨label, hcontent⟩, hold⟩, rfl⟩
    obtain ⟨stored, hstored, hcopies⟩ := h.shown_copy hcomposed' hcontent
    exact ⟨stored, ⟨label, hstored⟩, hcopies.refs ▸ List.mem_map_of_mem hold⟩

end Object.Copies

namespace Entity.Copies

variable {entity entity' : Entity}

include hcomposed hcomposed' hnamed

theorem shown_eq (h : Entity.Copies source next.classes twin entity entity') :
    shown next entity' = shown source entity := by
  cases h with
  | object hportable hcopies => exact hcopies.shown_eq hcomposed hcomposed' hnamed hportable
  | array hcopies => exact congrArg Shown.array (values_eq_of_copies hcopies)
  | map hcopies =>
    have hequal : List.Forall₂ Eq _ _ := List.forall₂_map_left_iff.mpr
      (List.forall₂_map_right_iff.mpr (hcopies.flip.imp fun entry' entry hentry =>
        (Prod.ext hentry.1.shown hentry.2.shown :
          (Capture.value next.classes entry'.1, Capture.value next.classes entry'.2) =
            (Capture.value source.classes entry.1, Capture.value source.classes entry.2))))
    exact congrArg Shown.map (List.forall₂_eq_eq_eq ▸ hequal)
  | set hcopies => exact congrArg Shown.set (values_eq_of_copies hcopies)

theorem mem_refs_iff (h : Entity.Copies source next.classes twin entity entity') {inner : Ref} :
    inner ∈ refsOfAll (Capture.contents next entity') ↔
      inner ∈ (refsOfAll (Capture.contents source entity)).map twin := by
  cases h with
  | object hportable hcopies => exact hcopies.mem_refs_iff hcomposed hcomposed' hnamed hportable
  | array hcopies | set hcopies => exact refs_eq_of_copies hcopies ▸ Iff.rfl
  | @map entries entries' hcopies =>
    have hall : ∀ {pairs pairs' : List (Value × Value)},
        List.Forall₂ (fun entry entry' => entry.1.Copies source.classes next.classes twin entry'.1 ∧
          entry.2.Copies source.classes next.classes twin entry'.2) pairs pairs' →
        List.Forall₂ (Value.Copies source.classes next.classes twin)
          (pairs.flatMap fun entry => [entry.1, entry.2])
          (pairs'.flatMap fun entry => [entry.1, entry.2]) := by
      intro pairs pairs' hpairs
      induction hpairs with
      | nil => exact .nil
      | cons hentry _ ih => exact .cons hentry.1 (.cons hentry.2 ih)
    exact refs_eq_of_copies (hall hcopies) ▸ Iff.rfl

end Entity.Copies

end

end Attire
