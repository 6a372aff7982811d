import Attire.Proofs.Snapshot.Housing

namespace Attire

open Capture ClassRegistry

/-! Filling the entities of a rebuild with what a snapshot shows of the old ones. -/

namespace Heap

variable {heap : Heap} {ref : Ref}

theorem entity?_of_cell {id : Id} {kind : EntityKind}
    (h : heap.outline.cells[ref.address]? = some (id, kind)) :
    ∃ entity, heap.entity? ref = some entity ∧ entity.kind = kind := by
  simp only [outline, List.getElem?_map, Array.getElem?_toList] at h
  obtain ⟨cell, hcell, heq⟩ := Option.map_eq_some_iff.mp h
  exact ⟨cell.entity, entity?_eq_some.mpr ⟨cell, hcell, rfl⟩, congrArg Prod.snd heq⟩

end Heap

namespace Restore

open Machine

variable {source machine after : Machine} {target : ClassRegistry} {shells : Shells}
variable {place : Ref} {key : String} {stored : Entity}

/-- Only the entity in one place changes, and it stays of its kind. -/
structure Touches (place : Ref) (machine after : Machine) : Prop where
  classes : after.classes = machine.classes
  outline : after.heap.outline = machine.heap.outline
  others {ref : Ref} : ref.address ≠ place.address →
    after.heap.entity? ref = machine.heap.entity? ref

theorem Touches.refl (place : Ref) (machine : Machine) : Touches place machine machine :=
  ⟨rfl, rfl, fun _ => rfl⟩

theorem Touches.trans {last : Machine} (h : Touches place machine after)
    (h' : Touches place after last) : Touches place machine last where
  classes := h'.classes.trans h.classes
  outline := h'.outline.trans h.outline
  others hne := (h'.others hne).trans (h.others hne)

theorem Suggests.touches (h : Suggests machine after) : Touches place machine after :=
  ⟨h.classes, by rw [h.heap], fun _ => by rw [h.heap]⟩

theorem modify_succeeds {change : Entity → Entity} (hstored : machine.heap.entity? place = some stored)
    (hkind : (change stored).kind = stored.kind) :
    Succeeds (onHeap fun heap => heap.modify place change) machine fun _ after =>
      Touches place machine after ∧ after.heap.entity? place = some (change stored) := by
  refine ⟨⟨rfl, ?_, fun hne => ?_⟩, ?_⟩
  · refine Heap.outline_modify fun entity hentity => ?_
    obtain rfl := Option.some.inj (hstored.symm.trans hentity)
    exact hkind
  · exact Heap.entity?_modify.trans (if_neg fun heq => hne heq.symm)
  · exact Heap.entity?_modify.trans (by rw [if_pos rfl, hstored, Option.map_some])

/-- Only the entity in one place changes, and it becomes as wanted. -/
def Fills (place : Ref) (wanted : Entity → Prop) (machine after : Machine) : Prop :=
  Touches place machine after ∧ ∃ entity, after.heap.entity? place = some entity ∧ wanted entity

theorem Fills.imp {wanted wanted' : Entity → Prop} (h : Fills place wanted machine after)
    (himp : ∀ entity, wanted entity → wanted' entity) : Fills place wanted' machine after := by
  obtain ⟨htouches, entity, hentity, hwanted⟩ := h
  exact ⟨htouches, entity, hentity, himp entity hwanted⟩

/-- A value whose parts can be rebuilt. -/
structure Sheltered (source target : ClassRegistry) (shells : Shells) (value : Value) : Prop where
  housed : value.Within (Houses shells) fun _ => True
  found : ∀ cls ∈ classesOf value, Finds source target cls

theorem Sheltered.value_succeeds {original : Value} (hmachine : machine.classes = target)
    (h : Sheltered source.classes target shells original) :
    Succeeds (value shells (Capture.value source.classes original)) machine fun copy after =>
      original.Copies source.classes target (twin shells) copy ∧ Suggests machine after :=
  Restore.value_succeeds original hmachine h.housed h.found

theorem Sheltered.values_succeeds {originals : List Value} (hmachine : machine.classes = target)
    (h : ∀ original ∈ originals, Sheltered source.classes target shells original) :
    Succeeds (values shells (Capture.values source.classes originals)) machine fun copies after =>
      List.Forall₂ (Value.Copies source.classes target (twin shells)) originals copies ∧
        Suggests machine after := by
  refine Restore.values_succeeds originals hmachine
    (Value.allWithin_iff.mpr fun original hmem => (h original hmem).housed) fun cls hcls => ?_
  obtain ⟨original, hmem, hcls⟩ := mem_classesOfAll.mp hcls
  exact (h original hmem).found cls hcls

/-! Containers. -/

section

variable (hmachine : machine.classes = target)

include hmachine

theorem fillArray_succeeds {items : Array Value} (hshell : shells.get? key = some (.array place))
    (hplace : machine.heap.outline.Names (.array place))
    (hitems : ∀ item ∈ items.toList, Sheltered source.classes target shells item) :
    Succeeds (fillArray shells key (Capture.values source.classes items.toList)) machine
      fun _ => Fills place (Entity.Copies source target (twin shells) (.array items)) machine := by
  unfold fillArray
  refine (Sheltered.values_succeeds hmachine hitems).bind fun copies after hcopies => ?_
  obtain ⟨hcopies, hafter⟩ := hcopies
  obtain ⟨stored, hstored, hkind⟩ := Heap.entity?_of_cell hplace
  rw [refOf?, hshell]
  rw [← hafter.heap] at hstored
  cases stored with
  | array old =>
    refine (modify_succeeds hstored rfl).imp fun _ last hlast => ?_
    exact ⟨hafter.touches.trans hlast.1, _, hlast.2, .array (by simpa using hcopies)⟩
  | _ => cases hkind

theorem fillSet_succeeds {entries : SetEntries} (hshell : shells.get? key = some (.set place))
    (hplace : machine.heap.outline.Names (.set place)) (hsorted : entries.Sorted)
    (hkeys : ∀ entry ∈ entries.entries, entry.1 = MapKey.ofValue entry.2)
    (hplain : ∀ item ∈ entries.values, item.Stampless)
    (hitems : ∀ item ∈ entries.values, Sheltered source.classes target shells item) :
    Succeeds (fillSet shells key (Capture.values source.classes entries.values)) machine
      fun _ => Fills place (Entity.Copies source target (twin shells) (.set entries)) machine := by
  unfold fillSet
  refine (Sheltered.values_succeeds hmachine hitems).bind fun copies after hcopies => ?_
  obtain ⟨hcopies, hafter⟩ := hcopies
  obtain ⟨stored, hstored, hkind⟩ := Heap.entity?_of_cell hplace
  rw [refOf?, hshell]
  rw [← hafter.heap] at hstored
  cases stored with
  | set old =>
    refine (modify_succeeds hstored rfl).imp fun _ last hlast => ?_
    refine ⟨hafter.touches.trans hlast.1, _, hlast.2, .set ?_⟩
    have hequal : (copies.map fun item => (MapKey.ofValue item, item)).map Prod.fst =
        entries.entries.map Prod.fst := by
      rw [List.map_map, List.map_congr_left hkeys]
      exact (keys_eq_of_copies hcopies hplain).trans List.map_map
    rw [hsorted.values_ofList hequal, List.map_map]
    exact (List.map_id copies).symm ▸ hcopies
  | _ => cases hkind

theorem fillMap_succeeds {entries : MapEntries} (hshell : shells.get? key = some (.map place))
    (hplace : machine.heap.outline.Names (.map place)) (hsorted : entries.Sorted)
    (hkeys : ∀ entry ∈ entries.entries, entry.1 = MapKey.ofValue entry.2.1)
    (hplain : ∀ entry ∈ entries.values, entry.1.Stampless)
    (hitems : ∀ entry ∈ entries.values, Sheltered source.classes target shells entry.1 ∧
      Sheltered source.classes target shells entry.2) :
    Succeeds (fillMap shells key (entries.values.map fun (key, item) =>
        (Capture.value source.classes key, Capture.value source.classes item))) machine
      fun _ => Fills place (Entity.Copies source target (twin shells) (.map entries)) machine := by
  unfold fillMap
  rw [List.mapM_map]
  refine (Succeeds.mapM (Suggests machine) (fun original copy =>
    copy.1 = MapKey.ofValue copy.2.1 ∧
      original.1.Copies source.classes target (twin shells) copy.2.1 ∧
      original.2.Copies source.classes target (twin shells) copy.2.2) (.refl machine) ?_).bind ?_
  · rintro ⟨key, item⟩ hmem current hcurrent
    obtain ⟨hkey, hitem⟩ := hitems _ hmem
    refine (hkey.value_succeeds (hcurrent.classes.trans hmachine)).bind fun key' after hkey' => ?_
    obtain ⟨hkeyCopies, hafter⟩ := hkey'
    have hmiddle := hcurrent.trans hafter
    refine (hitem.value_succeeds (hmiddle.classes.trans hmachine)).bind fun item' last hitem' => ?_
    exact ⟨⟨rfl, hkeyCopies, hitem'.1⟩, hmiddle.trans hitem'.2⟩
  rintro copies after ⟨hcopies, hafter⟩
  obtain ⟨stored, hstored, hkind⟩ := Heap.entity?_of_cell hplace
  rw [refOf?, hshell]
  rw [← hafter.heap] at hstored
  cases stored with
  | map old =>
    refine (modify_succeeds hstored rfl).imp fun _ last hlast => ?_
    refine ⟨hafter.touches.trans hlast.1, _, hlast.2, .map ?_⟩
    have hfirsts : List.Forall₂ (Value.Copies source.classes target (twin shells))
        (entries.values.map Prod.fst) (copies.map fun copy => copy.2.1) :=
      List.forall₂_map_left_iff.mpr (List.forall₂_map_right_iff.mpr
        (hcopies.imp fun _ _ hcopy => hcopy.2.1))
    have hequal : copies.map Prod.fst = entries.entries.map Prod.fst := by
      have hcanonical : copies.map Prod.fst = copies.map fun copy => MapKey.ofValue copy.2.1 :=
        List.map_congr_left fun copy hmem => by
          obtain ⟨original, -, hcopy⟩ := (mem_of_forall₂ hcopies).2 copy hmem
          exact hcopy.1
      have hsame := keys_eq_of_copies hfirsts (by simpa using hplain)
      rw [List.map_map, List.map_map] at hsame
      rw [hcanonical, List.map_congr_left hkeys]
      exact hsame.trans List.map_map
    rw [hsorted.values_ofList hequal]
    exact List.forall₂_map_right_iff.mpr (hcopies.imp fun _ _ hcopy => hcopy.2)
  | _ => cases hkind

end

/-! Objects. -/

/-- The copy of a field is stored in its place. -/
def Stores (source : Machine) (target : ClassRegistry) (shells : Shells) (copy : Object)
    (label : String) (content : Value) : Prop :=
  ∃ key own stored, key.owner ∈ copy.manifest ∧ target.Owns key own ∧
    target.labelOf key own = label ∧ copy.fields.get? key = some stored ∧
    content.Copies source.classes target (twin shells) stored

section

variable {original : Object} (copy : Object) {label : String} {content : Value}
variable (hcomposed : source.classes.Composed) (hcomposed' : target.Composed)
variable (hnamed : target.Named) (hportable : original.Portable source.classes)
variable (hmanifest : List.Forall₂ (source.classes.Counterpart target) original.manifest copy.manifest)
variable (htypes : ∀ cls, cls ∈ copy.types ↔ cls ∈ copy.manifest)

include hcomposed hcomposed' hnamed hportable hmanifest htypes

omit hcomposed hcomposed' hnamed hportable hmanifest htypes in
theorem Stores.insert {key : FieldKey} {own : OwnField} {value : Value} {other : String}
    (h : Stores source target shells copy label content) (hown : target.Owns key own)
    (hkey : target.labelOf key own = other) (hne : label ≠ other) :
    Stores source target shells { copy with fields := copy.fields.insert key value } label content := by
  obtain ⟨key', own', stored, howner, hown', hlabel, hstored, hcopies⟩ := h
  refine ⟨key', own', stored, howner, hown', hlabel, ?_, hcopies⟩
  rw [Table.get?_insert_of_ne, hstored]
  rintro rfl
  exact hne (hlabel.symm.trans (hown'.unique hown ▸ hkey))

theorem fillField_succeeds (hmachine : machine.classes = target)
    (hplace : machine.heap.entity? place = some (.object copy))
    (hfield : (label, content) ∈ shownFields source original)
    (hcontent : Sheltered source.classes target shells content) :
    Succeeds (fillField shells place label (Capture.value source.classes content)) machine
      fun _ after => Touches place machine after ∧
        ∃ key own stored, key.owner ∈ copy.manifest ∧ target.Owns key own ∧
          target.labelOf key own = label ∧
          content.Copies source.classes target (twin shells) stored ∧
          after.heap.entity? place =
            some (.object { copy with fields := copy.fields.insert key stored }) := by
  obtain ⟨key, own, howner, hown, rfl, -⟩ := (mem_shownFields hcomposed).mp hfield
  obtain ⟨found, hfound, hcounterpart⟩ := (mem_of_forall₂ hmanifest).1 key.owner howner
  obtain ⟨key', own', rfl, ⟨cls, hcls, hown'⟩, hname⟩ :=
    (hcounterpart.fields own.name).mp ⟨key, own, rfl, hown, rfl⟩
  have hkey : cls.ownFieldKey? own.name = some key' :=
    (ClassDef.ownFieldKey?_eq_some (hcomposed'.fieldNames hcls)).mpr
      ⟨(hcomposed'.id hcls).symm, own', hown', hname⟩
  unfold fillField
  rw [labelOf, splitKey_append (hportable.legible.dotless howner hown)]
  refine (findClass_succeeds hmachine hcounterpart.find).bind fun cls' machine' hcls' => ?_
  obtain ⟨rfl, rfl⟩ := hcls'
  refine Succeeds.bind_get ?_
  rw [hmachine, hcls, Option.bind_some, hkey]
  refine (hcontent.value_succeeds hmachine).bind fun stored after hstored => ?_
  obtain ⟨hcopies, hafter⟩ := hstored
  rw [← hafter.heap] at hplace
  refine (modify_succeeds hplace rfl).imp fun _ last hlast => ?_
  obtain ⟨htouches, hentity⟩ := hlast
  refine ⟨hafter.touches.trans htouches, key', own', stored, hfound, ⟨cls, hcls, hown'⟩, ?_, hcopies,
    ?_⟩
  · rw [labelOf, hcounterpart.name_eq hnamed, hname]
  · have hembodies : copy.embodies key'.owner = true := decide_eq_true ((htypes _).mpr hfound)
    rw [hentity]
    simp only [hembodies, if_pos]

/-- Once all fields are stored, the object is a copy. -/
theorem fillFields_succeeds (hmachine : machine.classes = target)
    (hplace : machine.heap.entity? place = some (.object copy)) (hnodup : original.manifest.Nodup)
    (hcontents : ∀ entry ∈ shownFields source original,
      Sheltered source.classes target shells entry.2) :
    Succeeds ((Ordered.ofList ((shownFields source original).map fun (key, item) =>
        (key, Capture.value source.classes item))).entries.forM
          fun (key, content) => fillField shells place key content) machine
      fun _ after => Touches place machine after ∧ ∃ fields,
        after.heap.entity? place = some (.object { copy with fields }) ∧
        ∀ label content, (label, content) ∈ shownFields source original →
          Stores source target shells { copy with fields } label content := by
  have hlabels := nodup_shownFields hcomposed hnodup hportable.legible
  have hlabels' : (((shownFields source original).map fun (key, item) =>
      (key, Capture.value source.classes item)).map Prod.fst).Nodup := by
    rw [List.map_map]
    exact hlabels
  refine (Succeeds.forM (motive := fun done current => Touches place machine current ∧ ∃ fields,
    current.heap.entity? place = some (.object { copy with fields }) ∧
      ∀ entry ∈ done, ∀ content, (entry.1, content) ∈ shownFields source original →
        Stores source target shells { copy with fields } entry.1 content)
    ⟨.refl place machine, copy.fields, hplace, nofun⟩ ?_).imp ?_
  · rintro done ⟨label, shown⟩ rest current heq ⟨htouches, fields, hcurrent, hdone⟩
    have hmem := (Ordered.mem_ofList_iff hlabels').mp
      (heq ▸ List.mem_append_right _ (List.mem_cons_self ..))
    obtain ⟨⟨_, content⟩, hcontent, ⟨⟩⟩ := List.mem_map.mp hmem
    refine (fillField_succeeds { copy with fields } hcomposed hcomposed' hnamed hportable hmanifest htypes
      (htouches.classes.trans hmachine) hcurrent hcontent (hcontents _ hcontent)).imp ?_
    rintro _ after ⟨htouches', key, own, stored, howner, hown, hlabel, hcopies, hafter⟩
    refine ⟨htouches.trans htouches', fields.insert key stored, hafter, ?_⟩
    intro entry hentry other hother
    by_cases hlabelEq : entry.1 = label
    · have hsame := List.inj_on_of_nodup_map hlabels hother hcontent hlabelEq
      obtain rfl : other = content := congrArg Prod.snd hsame
      exact ⟨key, own, stored, howner, hown, hlabel.trans hlabelEq.symm,
        Table.get?_insert_self .., hcopies⟩
    · rcases List.mem_append.mp hentry with hentry | hentry
      · exact (hdone entry hentry other hother).insert _ hown hlabel hlabelEq
      · exact absurd (congrArg Prod.fst (List.mem_singleton.mp hentry)) hlabelEq
  · rintro _ after ⟨htouches, fields, hafter, hdone⟩
    refine ⟨htouches, fields, hafter, fun label content hcontent => ?_⟩
    exact hdone (label, _) ((Ordered.mem_ofList_iff hlabels').mpr (List.mem_map_of_mem hcontent))
      content hcontent

end

/-! All entities. -/

/-- The entities under the keys are as wanted. -/
def Filled (wanted : String → Entity → Prop) (shells : Shells) (keys : List String)
    (machine : Machine) : Prop :=
  ∀ key ∈ keys, ∃ entity, machine.heap.entity? (placeOf shells key) = some entity ∧ wanted key entity

theorem Filled.of_heap {wanted : String → Entity → Prop} {keys : List String}
    (h : Filled wanted shells keys machine) (hheap : after.heap = machine.heap) :
    Filled wanted shells keys after := by
  unfold Filled
  rwa [hheap]

theorem Filled.step {wanted : String → Entity → Prop} {keys : List String}
    (hplaces : ∀ other ∈ keys, (placeOf shells other).address = (placeOf shells key).address →
      other = key)
    (hfresh : key ∉ keys) (h : Filled wanted shells keys machine)
    (hfills : Fills (placeOf shells key) (wanted key) machine after) :
    Filled wanted shells (keys ++ [key]) after := by
  obtain ⟨htouches, hkey⟩ := hfills
  intro other hother
  rcases List.mem_append.mp hother with hother | hother
  · rw [htouches.others fun haddress => hfresh (hplaces other hother haddress ▸ hother)]
    exact h other hother
  · exact List.mem_singleton.mp hother ▸ hkey

/-- What was filled since shells were made. -/
structure Progress (wanted : String → Entity → Prop) (shells : Shells) (keys : List String)
    (base machine : Machine) : Prop where
  classes : machine.classes = base.classes
  outline : machine.heap.outline = base.heap.outline
  filled : Filled wanted shells keys machine

/-- A loop that fills one entity after the other. -/
theorem fills {α : Type} {items : List (String × α)} {action : String × α → Run PUnit}
    (wanted : String → Entity → Prop) {keys all : List String} {base : Machine}
    (hplaces : ∀ a ∈ all, ∀ b ∈ all,
      (placeOf shells a).address = (placeOf shells b).address → a = b)
    (hall : keys ++ items.map Prod.fst ⊆ all)
    (hnodup : (keys ++ items.map Prod.fst).Nodup)
    (hprogress : Progress wanted shells keys base machine)
    (hstep : ∀ item ∈ items, ∀ current, current.classes = base.classes →
      current.heap.outline = base.heap.outline →
      current.heap.entity? (placeOf shells item.1) = machine.heap.entity? (placeOf shells item.1) →
      Succeeds (action item) current fun _ =>
        Fills (placeOf shells item.1) (wanted item.1) current) :
    Succeeds (items.forM action) machine fun _ after =>
      Progress wanted shells (keys ++ items.map Prod.fst) base after := by
  -- A step may rely on what its own entity was before the loop, so rounds leave the others alone.
  refine (Succeeds.forM (motive := fun done current =>
    Progress wanted shells (keys ++ done.map Prod.fst) base current ∧
    ∀ key ∈ items.map Prod.fst, key ∉ done.map Prod.fst →
      current.heap.entity? (placeOf shells key) = machine.heap.entity? (placeOf shells key))
    ⟨by simpa using hprogress, fun _ _ _ => rfl⟩ ?_).imp fun _ _ h => h.1
  rintro done item rest current heq ⟨hdone, hkept⟩
  have hmem : item ∈ items := heq ▸ List.mem_append_right _ (List.mem_cons_self ..)
  have hkey : item.1 ∈ all := hall (List.mem_append_right _ (List.mem_map_of_mem hmem))
  have hsub : ∀ other ∈ done.map Prod.fst, other ∈ items.map Prod.fst := by
    intro other hother
    rw [heq, List.map_append]
    exact List.mem_append_left _ hother
  have hfresh : item.1 ∉ keys ++ done.map Prod.fst := by
    rw [heq, List.map_append, List.map_cons, ← List.append_assoc, List.nodup_append] at hnodup
    exact fun hold => hnodup.2.2 _ hold _ (List.mem_cons_self ..) rfl
  have hfreshDone := fun hold => hfresh (List.mem_append_right _ hold)
  refine (hstep item hmem current hdone.classes hdone.outline
    (hkept _ (List.mem_map_of_mem hmem) hfreshDone)).imp ?_
  intro _ after hfills
  have htouches := hfills.1
  refine ⟨⟨htouches.classes.trans hdone.classes, htouches.outline.trans hdone.outline, ?_⟩, ?_⟩
  · rw [List.map_append, ← List.append_assoc]
    refine hdone.filled.step (fun other hother => hplaces other (hall ?_) _ hkey) hfresh hfills
    exact (List.mem_append.mp hother).elim (List.mem_append_left _)
      fun hother => List.mem_append_right _ (hsub other hother)
  · intro key hkeyMem hnew
    rw [List.map_append, List.mem_append, not_or] at hnew
    rw [htouches.others fun haddress => hnew.2 (List.mem_singleton.mpr
      (hplaces key (hall (List.mem_append_right _ hkeyMem)) _ hkey haddress)),
      hkept key hkeyMem hnew.1]

end Restore

end Attire
