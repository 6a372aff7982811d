import Attire.Proofs.Machine.Sound
import Attire.Snapshot.Capture
import Attire.Snapshot.Restore
import Mathlib.Data.List.TakeWhile

namespace Attire

/-! The keys under which snapshots show fields. -/

theorem Restore.splitKey_append {name field : String} (h : '.' ∉ field.toList) :
    splitKey (name ++ "." ++ field) = some (name, field) := by
  have hplain : ∀ c ∈ field.toList.reverse, decide (c ≠ '.') = true := by
    intro c hmem
    refine decide_eq_true fun heq => h ?_
    exact heq ▸ List.mem_reverse.mp hmem
  have hreversed : (name ++ "." ++ field).toList.reverse =
      field.toList.reverse ++ '.' :: name.toList.reverse := by
    simp
  unfold splitKey
  simp only [hreversed, List.dropWhile_append_of_pos hplain, List.takeWhile_append_of_pos hplain]
  simp

theorem Restore.splitKey_plain {label name field : String}
    (h : splitKey label = some (name, field)) : '.' ∉ field.toList := by
  unfold splitKey at h
  simp only at h
  split at h
  · cases h
  · cases h
    intro hmem
    rw [String.toList_ofList, List.mem_reverse] at hmem
    have hne := List.mem_takeWhile_imp hmem
    exact of_decide_eq_true hne rfl

theorem ClassDef.ownFieldKey?_eq_some {found : ClassDef} {name : String} {key : FieldKey}
    (h : (found.ownFields.map OwnField.name).Nodup) :
    found.ownFieldKey? name = some key ↔
      key.owner = found.id ∧ ∃ own, found.ownFields[key.index]? = some own ∧ own.name = name := by
  obtain ⟨owner, index⟩ := key
  rw [ownFieldKey?, Option.map_eq_some_iff]
  constructor
  · rintro ⟨place, hplace, heq⟩
    cases heq
    obtain ⟨hlt, hname, -⟩ := List.findIdx?_eq_some_iff_getElem.mp hplace
    exact ⟨rfl, _, List.getElem?_eq_getElem hlt, of_decide_eq_true hname⟩
  · rintro ⟨rfl, own, hown, rfl⟩
    obtain ⟨place, hplace⟩ : ∃ place,
        found.ownFields.findIdx? (fun field => field.name = own.name) = some place := by
      refine Option.isSome_iff_exists.mp (List.findIdx?_isSome.trans (List.any_eq_true.mpr ?_))
      exact ⟨own, List.mem_of_getElem? hown, decide_eq_true rfl⟩
    obtain ⟨hlt, hname, -⟩ := List.findIdx?_eq_some_iff_getElem.mp hplace
    -- No other field of the class has the name.
    have hsame : place = index := by
      refine (List.getElem?_inj (by simpa using hlt) h).mp ?_
      rw [List.getElem?_map, List.getElem?_map, hown, List.getElem?_eq_getElem hlt,
        Option.map_some, Option.map_some, of_decide_eq_true hname]
    exact ⟨place, hplace, hsame ▸ rfl⟩

namespace ClassRegistry

variable {classes : ClassRegistry} {manifest : List ClassId} {cls : ClassId} {found : ClassDef}
variable {key other : FieldKey} {own : OwnField} {name label : String}

theorem qualifiedNameOf_eq (h : classes.get? cls = some found) :
    classes.qualifiedNameOf cls = found.qualifiedName := by
  rw [qualifiedNameOf, h]
  rfl

/-- The class itself declares a field in that place. -/
def Owns (classes : ClassRegistry) (key : FieldKey) (own : OwnField) : Prop :=
  ∃ found, classes.get? key.owner = some found ∧ found.ownFields[key.index]? = some own

theorem owns_of_hasField (h : classes.HasField key) : ∃ own, classes.Owns key own := by
  obtain ⟨found, hfound, hlt⟩ := h
  exact ⟨_, found, hfound, List.getElem?_eq_getElem hlt⟩

theorem Owns.hasField (h : classes.Owns key own) : classes.HasField key := by
  obtain ⟨found, hfound, hown⟩ := h
  exact ⟨found, hfound, (List.getElem?_eq_some_iff.mp hown).1⟩

theorem Owns.unique {own' : OwnField} (h : classes.Owns key own) (h' : classes.Owns key own') :
    own = own' := by
  obtain ⟨found, hfound, hown⟩ := h
  obtain ⟨found', hfound', hown'⟩ := h'
  obtain rfl := Option.some.inj (hfound.symm.trans hfound')
  exact Option.some.inj (hown.symm.trans hown')

/-- The key under which a snapshot shows a field. -/
def labelOf (classes : ClassRegistry) (key : FieldKey) (own : OwnField) : String :=
  classes.qualifiedNameOf key.owner ++ "." ++ own.name

/-- Fields of the classes have keys that tell them apart. -/
structure Legible (classes : ClassRegistry) (manifest : List ClassId) : Prop where
  names : ∀ a ∈ manifest, ∀ b ∈ manifest,
    classes.qualifiedNameOf a = classes.qualifiedNameOf b → a = b
  dotless {key : FieldKey} {own : OwnField} : key.owner ∈ manifest → classes.Owns key own →
    '.' ∉ own.name.toList

theorem Owns.ext (hcomposed : classes.Composed) {own' : OwnField} (h : classes.Owns key own)
    (h' : classes.Owns other own') (howner : key.owner = other.owner)
    (hname : own.name = own'.name) : key = other := by
  obtain ⟨found, hfound, hown⟩ := h
  obtain ⟨found', hfound', hown'⟩ := h'
  rw [howner, hfound'] at hfound
  cases hfound
  have hlt := (List.getElem?_eq_some_iff.mp hown).1
  have hindex : key.index = other.index := by
    refine (List.getElem?_inj (by simpa using hlt) (hcomposed.fieldNames hfound')).mp ?_
    rw [List.getElem?_map, List.getElem?_map, hown, hown', Option.map_some, Option.map_some, hname]
  cases key
  cases other
  cases howner
  cases hindex
  rfl

theorem Legible.label_injective (h : classes.Legible manifest) (hcomposed : classes.Composed)
    {own' : OwnField} (hkey : key.owner ∈ manifest) (hother : other.owner ∈ manifest)
    (hown : classes.Owns key own) (hown' : classes.Owns other own')
    (hlabel : classes.labelOf key own = classes.labelOf other own') : key = other := by
  have hsplit : some (classes.qualifiedNameOf key.owner, own.name) =
      some (classes.qualifiedNameOf other.owner, own'.name) := by
    rw [← Restore.splitKey_append (h.dotless hkey hown),
      ← Restore.splitKey_append (h.dotless hother hown')]
    exact congrArg Restore.splitKey hlabel
  obtain ⟨hname, hfield⟩ := Prod.mk.inj (Option.some.inj hsplit)
  exact hown.ext hcomposed hown' (h.names _ hkey _ hother hname) hfield

end ClassRegistry

namespace Capture

open ClassRegistry

variable {machine : Machine} {object : Object} {label : String} {content : Value}

theorem mem_shownFields (hcomposed : machine.classes.Composed) :
    (label, content) ∈ shownFields machine object ↔
      ∃ key own, key.owner ∈ object.manifest ∧ machine.classes.Owns key own ∧
        machine.classes.labelOf key own = label ∧ object.fields.get? key = some content := by
  simp only [shownFields, Machine.fieldViews, ClassDef.ownFieldKeys, List.mem_filterMap,
    List.mem_flatMap, List.mem_map, List.mem_mapIdx, Option.map_eq_some_iff, Prod.mk.injEq]
  constructor
  · rintro ⟨_, ⟨found, ⟨cls, hcls, hfound⟩, _, ⟨index, hindex, rfl⟩, rfl⟩, value, hvalue, hlabel, rfl⟩
    have hid := hcomposed.id hfound
    refine ⟨⟨found.id, index⟩, _, hid ▸ hcls, ⟨found, hid ▸ hfound,
      List.getElem?_eq_getElem hindex⟩, ?_, hvalue⟩
    rw [labelOf, qualifiedNameOf_eq (hid ▸ hfound)]
    exact hlabel
  · rintro ⟨⟨owner, index⟩, own, howner, ⟨found, hfound, hown⟩, rfl, hvalue⟩
    obtain ⟨hindex, rfl⟩ := List.getElem?_eq_some_iff.mp hown
    obtain rfl := hcomposed.id hfound
    exact ⟨_, ⟨found, ⟨_, howner, hfound⟩, _, ⟨index, hindex, rfl⟩, rfl⟩, content, hvalue, by
      rw [labelOf, qualifiedNameOf_eq hfound], rfl⟩

theorem fieldViews_pairwise (hcomposed : machine.classes.Composed)
    (hmanifest : object.manifest.Nodup) :
    (machine.fieldViews object).Pairwise fun a b => a.key ≠ b.key := by
  refine List.pairwise_flatMap.mpr ⟨fun found hfound => ?_, ?_⟩
  · refine List.pairwise_map.mpr (List.pairwise_iff_getElem.mpr fun i j hi hj hlt heq => ?_)
    simp only [ClassDef.ownFieldKeys, List.getElem_mapIdx, FieldKey.mk.injEq] at heq
    omega
  · refine List.pairwise_filterMap.mpr (hmanifest.imp ?_)
    intro a b hne found hfound found' hfound' view hview view' hview' heq
    obtain ⟨entry, hentry, rfl⟩ := List.mem_map.mp hview
    obtain ⟨entry', hentry', rfl⟩ := List.mem_map.mp hview'
    obtain ⟨_, _, rfl⟩ := List.mem_mapIdx.mp hentry
    obtain ⟨_, _, rfl⟩ := List.mem_mapIdx.mp hentry'
    refine hne ?_
    rw [← hcomposed.id hfound, ← hcomposed.id hfound']
    exact congrArg FieldKey.owner heq

theorem mem_fieldViews (hcomposed : machine.classes.Composed) {view : FieldView}
    (h : view ∈ machine.fieldViews object) :
    ∃ own, view.key.owner ∈ object.manifest ∧ machine.classes.Owns view.key own ∧
      machine.classes.labelOf view.key own = view.cls ++ "." ++ view.name := by
  obtain ⟨found, hfound, hview⟩ := List.mem_flatMap.mp h
  obtain ⟨cls, hcls, hget⟩ := List.mem_filterMap.mp hfound
  obtain ⟨entry, hentry, rfl⟩ := List.mem_map.mp hview
  obtain ⟨index, hindex, rfl⟩ := List.mem_mapIdx.mp hentry
  obtain rfl := hcomposed.id hget
  refine ⟨_, hcls, ⟨found, hget, List.getElem?_eq_getElem hindex⟩, ?_⟩
  rw [labelOf, qualifiedNameOf_eq hget]

theorem nodup_shownFields (hcomposed : machine.classes.Composed) (hmanifest : object.manifest.Nodup)
    (hlegible : machine.classes.Legible object.manifest) :
    ((shownFields machine object).map Prod.fst).Nodup := by
  refine List.pairwise_map.mpr (List.pairwise_filterMap.mpr ?_)
  refine (fieldViews_pairwise hcomposed hmanifest).imp_of_mem ?_
  intro a b ha hb hne entry hentry entry' hentry' heq
  obtain ⟨_, -, rfl⟩ := Option.map_eq_some_iff.mp hentry
  obtain ⟨_, -, rfl⟩ := Option.map_eq_some_iff.mp hentry'
  obtain ⟨own, howner, hown, hlabel⟩ := mem_fieldViews hcomposed ha
  obtain ⟨own', howner', hown', hlabel'⟩ := mem_fieldViews hcomposed hb
  exact hne (hlegible.label_injective hcomposed howner howner' hown hown'
    (hlabel.trans (heq.trans hlabel'.symm)))

end Capture

end Attire
