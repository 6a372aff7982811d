import Attire.Proofs.Host.Integrity
import Attire.Proofs.Host.RoundTrip

namespace Attire

open Capture

/-! Which keys of snapshots are read as the fields that they were written for. -/

namespace ClassRegistry

variable {classes : ClassRegistry} {key : FieldKey} {own : OwnField} {label : String}

/-- The field that a key of a snapshot is read as. -/
def fieldLabelled? (classes : ClassRegistry) (label : String) : Option FieldKey := do
  let (name, field) ← Restore.splitKey label
  let cls ← classes.find? name
  (← classes.get? cls).ownFieldKey? field

theorem fieldLabelled?_eq_some (hcomposed : classes.Composed) :
    classes.fieldLabelled? label = some key ↔ ∃ name own,
      Restore.splitKey label = some (name, own.name) ∧ classes.find? name = some key.owner ∧
        classes.Owns key own := by
  simp only [fieldLabelled?, Option.bind_eq_bind, Option.bind_eq_some_iff]
  constructor
  · rintro ⟨⟨name, field⟩, hsplit, cls, hcls, found, hfound, hkey⟩
    obtain ⟨howner, own, hown, rfl⟩ :=
      (ClassDef.ownFieldKey?_eq_some (hcomposed.fieldNames hfound)).mp hkey
    obtain rfl : key.owner = cls := howner.trans (hcomposed.id hfound)
    exact ⟨name, own, hsplit, hcls, found, hfound, hown⟩
  · rintro ⟨name, own, hsplit, hcls, found, hfound, hown⟩
    exact ⟨_, hsplit, key.owner, hcls, found, hfound,
      (ClassDef.ownFieldKey?_eq_some (hcomposed.fieldNames hfound)).mpr
        ⟨(hcomposed.id hfound).symm, own, hown, rfl⟩⟩

/-- A field's own key is read as that field exactly if its name has no dot and its class is the one
found by its name. -/
theorem fieldLabelled?_labelOf (hcomposed : classes.Composed) (h : classes.Owns key own) :
    classes.fieldLabelled? (classes.labelOf key own) = some key ↔
      '.' ∉ own.name.toList ∧
        classes.find? (classes.qualifiedNameOf key.owner) = some key.owner := by
  rw [fieldLabelled?_eq_some hcomposed]
  constructor
  · rintro ⟨name, own', hsplit, hfind, hown⟩
    obtain rfl := h.unique hown
    have hplain := Restore.splitKey_plain hsplit
    rw [labelOf, Restore.splitKey_append hplain] at hsplit
    cases hsplit
    exact ⟨hplain, hfind⟩
  · rintro ⟨hplain, hfind⟩
    exact ⟨_, own, Restore.splitKey_append hplain, hfind, h⟩

end ClassRegistry

open ClassRegistry

/-- Whatever is stored under the key becomes that field of an object which is of its class. -/
def Restore.Lands (classes : ClassRegistry) (label : String) (key : FieldKey) : Prop :=
  ∀ {machine next : Machine} {shells : Shells} {place : Ref} {content : SnapValue} {stored : Value}
    {copy : Object}, machine.classes = classes →
    value shells content machine = .ok stored next → next.heap.object? place = some copy →
    copy.embodies key.owner = true →
    ∃ after, fillField shells place label content machine = .ok () after ∧
      after.heap.object? place = some { copy with fields := copy.fields.insert key stored }

theorem Restore.lands_of_fieldLabelled {classes : ClassRegistry} {label : String} {key : FieldKey}
    (hcomposed : classes.Composed) (hkey : classes.fieldLabelled? label = some key) :
    Lands classes label key := by
  rintro machine next shells place content stored copy rfl hvalue hplace hembodies
  have hfills : Machine.Succeeds (fillField shells place label content) machine fun _ after =>
      after.heap.object? place = some { copy with fields := copy.fields.insert key stored } := by
    simp only [fieldLabelled?, Option.bind_eq_bind, Option.bind_eq_some_iff] at hkey
    obtain ⟨⟨name, field⟩, hsplit, cls, hcls, found, hfound, hkey⟩ := hkey
    obtain rfl : key.owner = cls :=
      ((ClassDef.ownFieldKey?_eq_some (hcomposed.fieldNames hfound)).mp hkey).1.trans
        (hcomposed.id hfound)
    unfold fillField
    rw [hsplit]
    refine (findClass_succeeds rfl hcls).bind fun cls' machine' hcls' => ?_
    obtain ⟨rfl, rfl⟩ := hcls'
    refine Machine.Succeeds.bind_get ?_
    rw [hfound, Option.bind_some, hkey]
    have hread : Machine.Succeeds (value shells content) machine' fun answer after =>
        answer = stored ∧ after = next := by
      rw [Machine.Succeeds, Yields, hvalue]
      exact ⟨rfl, rfl⟩
    refine hread.bind fun answer after hanswer => ?_
    obtain ⟨rfl, rfl⟩ := hanswer
    refine (modify_succeeds (Heap.object?_eq_some.mp hplace) rfl).imp fun _ last hlast => ?_
    refine Heap.object?_eq_some.mpr (hlast.2.trans ?_)
    simp only [hembodies, if_pos]
  obtain ⟨_, after, hrun, hafter⟩ := hfills.exists_ok
  exact ⟨after, hrun, hafter⟩

namespace Workspace

variable {workspace : Workspace} {options : Options} {sources : Sources}

/-- No field that the object stores has a dot in its name. -/
def Dotless (classes : ClassRegistry) (object : Object) : Prop :=
  ∀ key ∈ object.fields.keys, ∀ own, classes.Owns key own → '.' ∉ own.name.toList

/-- Different fields are shown under different keys if each key is read as its own field. -/
theorem nodup_labels {machine : Machine} {object : Object} (hcomposed : machine.classes.Composed)
    (hmanifest : object.manifest.Nodup)
    (h : ∀ key own, key ∈ object.fields.keys → machine.classes.Owns key own →
      machine.classes.fieldLabelled? (machine.classes.labelOf key own) = some key) :
    ((shownFields machine object).map Prod.fst).Nodup := by
  refine List.pairwise_map.mpr (List.pairwise_filterMap.mpr ?_)
  refine (fieldViews_pairwise hcomposed hmanifest).imp_of_mem ?_
  intro a b ha hb hne entry hentry entry' hentry' heq
  obtain ⟨value, hvalue, rfl⟩ := Option.map_eq_some_iff.mp hentry
  obtain ⟨value', hvalue', rfl⟩ := Option.map_eq_some_iff.mp hentry'
  obtain ⟨own, -, hown, hlabel⟩ := mem_fieldViews hcomposed ha
  obtain ⟨own', -, hown', hlabel'⟩ := mem_fieldViews hcomposed hb
  have hread := h a.key own (List.mem_map_of_mem (Table.mem_of_get? hvalue)) hown
  have hread' := h b.key own' (List.mem_map_of_mem (Table.mem_of_get? hvalue')) hown'
  rw [hlabel.trans (heq.trans hlabel'.symm), hread'] at hread
  exact hne (Option.some.inj hread).symm

/-- A field's key is read as that field exactly if the field's name has no dot and the class is the
one found by its name.  An object whose stored fields have no dots in their names shows each of them
under a key of its own, and what is restored under the key becomes that field again. -/
theorem labels_exact (h : Reachable options sources workspace) :
    let classes := workspace.machine.classes
    (∀ key own, classes.Owns key own →
      (classes.fieldLabelled? (classes.labelOf key own) = some key ↔
        '.' ∉ own.name.toList ∧
          classes.find? (classes.qualifiedNameOf key.owner) = some key.owner)) ∧
    (sources.Unambiguous → ∀ ref object, workspace.machine.heap.object? ref = some object →
      Dotless classes object →
      ((shownFields workspace.machine object).map Prod.fst).Nodup ∧
      ∀ key content, object.fields.get? key = some content → object.embodies key.owner = true ∧
        ∃ own, classes.Owns key own ∧
          (classes.labelOf key own, content) ∈ shownFields workspace.machine object ∧
          classes.fieldLabelled? (classes.labelOf key own) = some key ∧
          Restore.Lands classes (classes.labelOf key own) key) := by
  have hcomposed := h.sound.composed
  refine ⟨fun _ _ => fieldLabelled?_labelOf hcomposed, fun hsources ref object hobject hdotless => ?_⟩
  rw [← h.sources] at hsources
  have hcoherent := (h.sound.running.object_sound hobject).object rfl
  have hread : ∀ key own, key ∈ object.fields.keys → workspace.machine.classes.Owns key own →
      workspace.machine.classes.fieldLabelled? (workspace.machine.classes.labelOf key own) =
        some key := by
    intro key own hkey hown
    have ⟨found, hfound, _⟩ := hown
    refine (fieldLabelled?_labelOf hcomposed hown).mpr ⟨hdotless key hkey own hown, ?_⟩
    rw [qualifiedNameOf_eq hfound]
    exact h.sound.indexed hsources _ found hfound
  refine ⟨nodup_labels hcomposed ?_ hread, fun key content hcontent => ?_⟩
  · rw [hcoherent.manifest]
    exact (hcomposed.acyclic.layered _).nodup
  · have hkey : key ∈ object.fields.keys := List.mem_map_of_mem (Table.mem_of_get? hcontent)
    obtain ⟨howner, hhas⟩ := hcoherent.fields key hkey
    obtain ⟨own, hown⟩ := owns_of_hasField hhas
    exact ⟨decide_eq_true ((hcoherent.types _).mpr howner), own, hown,
      (mem_shownFields hcomposed).mpr ⟨key, own, howner, hown, rfl, hcontent⟩,
      hread key own hkey hown, Restore.lands_of_fieldLabelled hcomposed (hread key own hkey hown)⟩

theorem HasDie.dotless {machine : Machine} {die : Object} {cls : ClassDef}
    (h : HasDie machine die cls) : Dotless machine.classes die := by
  intro key hkey own hown
  have hkey : key = ⟨⟨0⟩, 0⟩ := by simpa [Table.keys, h.fields] using hkey
  rw [h.name_of_owns hown (congrArg FieldKey.owner hkey)]
  decide

theorem lucky_labelled : ∃ workspace die own, Reachable {} diceSources workspace ∧
    diceSources.Unambiguous ∧ workspace.machine.heap.object? firstDie = some die ∧
    Dotless workspace.machine.classes die ∧ die.fields.get? ⟨⟨0⟩, 0⟩ = some (.bool true) ∧
    ((shownFields workspace.machine die).map Prod.fst).Nodup ∧
    workspace.machine.classes.Owns ⟨⟨0⟩, 0⟩ own ∧
    ∃ after, Restore.fillField ∅ firstDie (workspace.machine.classes.labelOf ⟨⟨0⟩, 0⟩ own)
        (.bool false) workspace.machine = .ok () after ∧
      after.heap.object? firstDie =
        some { die with fields := die.fields.insert ⟨⟨0⟩, 0⟩ (.bool false) } := by
  obtain ⟨workspace, -, die, cls, hreachable, -, -, hdie⟩ := die_imported
  have hfield : die.fields.get? ⟨⟨0⟩, 0⟩ = some (.bool true) := by
    rw [Table.get?, hdie.fields]
    rfl
  obtain ⟨hnodup, hlabels⟩ := (labels_exact hreachable).2 dice_unambiguous firstDie die hdie.stored
    hdie.dotless
  obtain ⟨hembodies, own, hown, -, -, hlands⟩ := hlabels _ _ hfield
  exact ⟨workspace, die, own, hreachable, dice_unambiguous, hdie.stored, hdie.dotless, hfield, hnodup,
    hown, hlands rfl rfl hdie.stored hembodies⟩

end Workspace

end Attire
