import Attire.Proofs.Snapshot.Graphs

namespace Attire

open Capture Restore Machine

/-! Rebuilding the graph that a snapshot shows. -/

/-- `twin` leads from a graph to a copy of it: twins have the same identifier and hold copies of the
same contents. -/
structure Mirrors (source : Machine) (root : Value) (next : Machine) (root' : Value)
    (twin : Ref → Ref) : Prop where
  start : root.Copies source.classes next.classes twin root'
  has {ref : Ref} : Reaches source (refs root) ref → next.heap.outline.Has (twin ref)
  id {ref : Ref} : Reaches source (refs root) ref → (twin ref).id = ref.id
  entity {ref : Ref} {original : Entity} : Reaches source (refs root) ref →
    source.heap.entity? ref = some original →
    ∃ copy, next.heap.entity? (twin ref) = some copy ∧
      Entity.Copies source next.classes twin original copy

theorem Mirrors.twins {source next : Machine} {root root' : Value} {twin : Ref → Ref}
    (hpassage : Passage source root next.classes) (h : Mirrors source root next root' twin) :
    Twins source root next root' twin := by
  have hcopies : ∀ {ref : Ref}, Reaches source (refs root) ref → ∃ original copy,
      source.heap.entity? ref = some original ∧ next.heap.entity? (twin ref) = some copy ∧
        Entity.Copies source next.classes twin original copy := by
    intro ref hreach
    obtain ⟨original, horiginal⟩ := hpassage.entity?_of_reaches hreach
    obtain ⟨copy, hcopy, hcopies⟩ := h.entity hreach horiginal
    exact ⟨original, copy, horiginal, hcopy, hcopies⟩
  constructor
  case shownRoot => exact h.start.shown
  case start => exact h.start.refs
  case has => exact h.has
  case id => exact h.id
  case shown =>
    intro ref hreach
    obtain ⟨original, copy, horiginal, hcopy, hcopies⟩ := hcopies hreach
    rw [shown?, shown?, horiginal, hcopy, Option.map_some, Option.map_some,
      hcopies.shown_eq hpassage.composed hpassage.composed' hpassage.named]
  case inside =>
    intro ref inner hreach
    obtain ⟨original, copy, horiginal, hcopy, hcopies⟩ := hcopies hreach
    rw [entityRefs, entityRefs, horiginal, hcopy]
    exact hcopies.mem_refs_iff hpassage.composed hpassage.composed' hpassage.named

namespace Passage

variable {source machine : Machine} {root : Value} {target : ClassRegistry} {shells : Shells}
variable {ref : Ref} {key : String}

/-! What shells are made from. -/

theorem exists_id (h : Passage source root target) (hkey : key ∈ (source.capture root).keys) :
    ∃ id : Id, id.text = key := by
  obtain ⟨ref, _, -, -, hkey⟩ := h.mem_keys.mp hkey
  exact ⟨ref.id, hkey⟩

theorem worn_counterparts (h : Passage source root target) {object : Object}
    (hreach : Reaches source (refs root) ref)
    (hentity : source.heap.entity? ref = some (.object object)) {cls : ClassId}
    (hcls : cls ∈ object.manifest) : ∃ found, source.classes.Counterpart target cls found :=
  h.counterpart (.manifest hreach (Heap.object?_eq_some.mpr hentity) hcls)

theorem find_of_mem_objects (h : Passage source root target) {content : SnapObject}
    (hmem : (key, content) ∈ (source.capture root).objects.entries) {name : String}
    (hname : name ∈ content.classes) : ∃ cls, target.find? name = some cls := by
  obtain ⟨ref, entity, hreach, hentity, -, hshown⟩ :=
    h.mem_entities.mp (Snapshot.mem_entities_object.mpr hmem)
  cases entity with
  | object object =>
    cases hshown
    obtain ⟨cls, hworn, rfl⟩ := List.mem_map.mp hname
    have hmanifest := ((h.running.stored_sound hentity).object rfl).manifest
    obtain ⟨found, hfound⟩ := h.worn_counterparts hreach hentity
      (hmanifest ▸ ClassRegistry.mem_manifest_of_mem hworn)
    exact ⟨found, hfound.find⟩
  | _ => cases hshown

/-- What a shell wears and embodies are counterparts of what the original does. -/
theorem dressed_counterparts (h : Passage source root target) {original copy : Object}
    (hreach : Reaches source (refs root) ref)
    (hentity : source.heap.entity? ref = some (.object original)) {content : SnapObject}
    (hcontent : content.classes = original.worn.map source.classes.qualifiedNameOf)
    (hdressed : Dressed target content copy) :
    List.Forall₂ (source.classes.Counterpart target) original.worn copy.worn ∧
      List.Forall₂ (source.classes.Counterpart target) original.manifest copy.manifest := by
  have hportable := h.portable.object hreach (Heap.object?_eq_some.mpr hentity)
  have hmanifest := ((h.running.stored_sound hentity).object rfl).manifest
  have hfinds : List.Forall₂ (fun cls found =>
      target.find? (source.classes.qualifiedNameOf cls) = some found) original.worn copy.worn :=
    List.forall₂_map_left_iff.mp (hcontent ▸ hdressed.worn)
  have hknown : ∀ cls ∈ original.worn, cls ∈ original.manifest :=
    fun cls hcls => hmanifest ▸ ClassRegistry.mem_manifest_of_mem hcls
  have hworn : List.Forall₂ (source.classes.Counterpart target) original.worn copy.worn := by
    refine ((List.forall₂_and_left _ _).mpr ⟨hknown, hfinds⟩).imp ?_
    rintro cls found ⟨hcls, hfind⟩
    obtain ⟨other, hother⟩ := h.worn_counterparts hreach hentity hcls
    obtain rfl := Option.some.inj (hfind.symm.trans hother.find)
    exact hother
  refine ⟨hworn, ?_⟩
  rw [hmanifest, hdressed.manifest]
  exact ClassRegistry.forall₂_manifest h.named (hmanifest ▸ hportable.legible)
    (fun cls hcls => h.worn_counterparts hreach hentity (hmanifest ▸ hcls)) hworn

/-- All shells are made. -/
structure Stocked (source : Machine) (root : Value) (target : ClassRegistry) (shells : Shells)
    (machine : Machine) : Prop where
  housed : Housed target (source.capture root).keys shells machine
  shelled : Shelled source root shells
  dressed : ∀ entry ∈ (source.capture root).objects.entries, DressedIn target shells machine entry

theorem stocked_of_shells (h : Passage source root target)
    (hhoused : Housed target (source.capture root).keys shells machine)
    (hdressed : ∀ entry ∈ (source.capture root).objects.entries,
      DressedIn target shells machine entry)
    (harrays : ∀ key ∈ (source.capture root).arrays.keys, ∃ ref, shells.get? key = some (.array ref))
    (hmaps : ∀ key ∈ (source.capture root).maps.keys, ∃ ref, shells.get? key = some (.map ref))
    (hsets : ∀ key ∈ (source.capture root).sets.keys, ∃ ref, shells.get? key = some (.set ref)) :
    Stocked source root target shells machine := by
  refine ⟨hhoused, fun ref entity hreach hentity => ?_, hdressed⟩
  have hshown := h.mem_entities.mpr ⟨ref, entity, hreach, hentity, rfl, rfl⟩
  obtain ⟨place, hplace⟩ : ∃ place, shells.get? ref.id.text = some (entity.kind.value place) := by
    cases entity with
    | object object =>
      obtain ⟨place, _, hplace, -⟩ := hdressed _ (Snapshot.mem_entities_object.mp hshown)
      exact ⟨place, hplace⟩
    | array items =>
      exact harrays _ (List.mem_map.mpr ⟨_, Snapshot.mem_entities_array.mp hshown, rfl⟩)
    | map entries => exact hmaps _ (List.mem_map.mpr ⟨_, Snapshot.mem_entities_map.mp hshown, rfl⟩)
    | set entries => exact hsets _ (List.mem_map.mpr ⟨_, Snapshot.mem_entities_set.mp hshown, rfl⟩)
  obtain ⟨other, hother, hid, -⟩ := hhoused.shell hplace
  obtain rfl := Option.some.inj (EntityKind.ref?_value.symm.trans hother)
  exact ⟨place, hplace, Id.text_injective hid⟩

namespace Stocked

theorem place (h : Stocked source root target shells machine) {entity : Entity}
    (hreach : Reaches source (refs root) ref) (hentity : source.heap.entity? ref = some entity) :
    shells.get? ref.id.text = some (entity.kind.value (twin shells ref)) ∧
      (twin shells ref).id = ref.id ∧
      machine.heap.outline.Names (entity.kind.value (twin shells ref)) := by
  obtain ⟨place, hplace, hid⟩ := h.shelled ref entity hreach hentity
  have htwin : twin shells ref = place := placeOf_eq hplace EntityKind.ref?_value
  obtain ⟨_, -, -, hnames⟩ := h.housed.shell hplace
  exact htwin ▸ ⟨hplace, hid, hnames⟩

theorem key_eq (hpassage : Passage source root target)
    (h : Stocked source root target shells machine) {key key' : String}
    (hkey : key ∈ (source.capture root).keys) (hkey' : key' ∈ (source.capture root).keys)
    (haddress : (placeOf shells key).address = (placeOf shells key').address) : key = key' := by
  obtain ⟨ref, entity, hreach, hentity, rfl⟩ := hpassage.mem_keys.mp hkey
  obtain ⟨ref', entity', hreach', hentity', rfl⟩ := hpassage.mem_keys.mp hkey'
  exact h.housed.key_eq (h.place hreach hentity).1 (h.place hreach' hentity').1 haddress

end Stocked

/-! Filling the shells. -/

/-- The entity is a copy of the one with that identifier. -/
def Wanted (source : Machine) (root : Value) (target : ClassRegistry) (shells : Shells)
    (key : String) (entity : Entity) : Prop :=
  ∃ ref original, Reaches source (refs root) ref ∧ source.heap.entity? ref = some original ∧
    ref.id.text = key ∧ Entity.Copies source target (twin shells) original entity

section

variable {current : Machine} (hclasses : current.classes = machine.classes)
variable (houtline : current.heap.outline = machine.heap.outline)

include hclasses houtline

theorem fillArray_succeeds (h : Passage source root target)
    (hstocked : Stocked source root target shells machine) {content : List SnapValue}
    (hmem : (key, content) ∈ (source.capture root).arrays.entries) :
    Succeeds (fillArray shells key content) current fun _ =>
      Fills (placeOf shells key) (Wanted source root target shells key) current := by
  obtain ⟨ref, entity, hreach, hentity, rfl, hshown⟩ :=
    h.mem_entities.mp (Snapshot.mem_entities_array.mpr hmem)
  cases entity with
  | array items =>
    cases hshown
    obtain ⟨hshell, -, hnames⟩ := hstocked.place hreach hentity
    refine (Restore.fillArray_succeeds (hclasses.trans hstocked.housed.classes) hshell
      (houtline ▸ hnames) fun item hitem =>
        h.sheltered_content hstocked.shelled hreach hentity hitem).imp
        fun _ _ hfills => hfills.imp fun _ hcopies => ⟨ref, _, hreach, hentity, rfl, hcopies⟩
  | _ => cases hshown

theorem fillMap_succeeds (h : Passage source root target)
    (hstocked : Stocked source root target shells machine)
    {content : List (SnapValue × SnapValue)}
    (hmem : (key, content) ∈ (source.capture root).maps.entries) :
    Succeeds (fillMap shells key content) current fun _ =>
      Fills (placeOf shells key) (Wanted source root target shells key) current := by
  obtain ⟨ref, entity, hreach, hentity, rfl, hshown⟩ :=
    h.mem_entities.mp (Snapshot.mem_entities_map.mpr hmem)
  cases entity with
  | map entries =>
    cases hshown
    obtain ⟨hshell, -, hnames⟩ := hstocked.place hreach hentity
    obtain ⟨hsorted, hkeys⟩ := (h.running.stored_sound hentity).map rfl
    have hitems : ∀ entry ∈ entries.values, Sheltered source.classes target shells entry.1 ∧
        Sheltered source.classes target shells entry.2 := by
      intro entry hentry
      constructor
      all_goals
        refine h.sheltered_content hstocked.shelled hreach hentity ?_
        exact List.mem_flatMap.mpr ⟨entry, hentry, by simp⟩
    refine (Restore.fillMap_succeeds (hclasses.trans hstocked.housed.classes) hshell
      (houtline ▸ hnames) hsorted hkeys
      (h.portable.key hreach (Heap.map?_eq_some.mpr hentity)) hitems).imp
        fun _ _ hfills => hfills.imp fun _ hcopies => ⟨ref, _, hreach, hentity, rfl, hcopies⟩
  | _ => cases hshown

theorem fillSet_succeeds (h : Passage source root target)
    (hstocked : Stocked source root target shells machine) {content : List SnapValue}
    (hmem : (key, content) ∈ (source.capture root).sets.entries) :
    Succeeds (fillSet shells key content) current fun _ =>
      Fills (placeOf shells key) (Wanted source root target shells key) current := by
  obtain ⟨ref, entity, hreach, hentity, rfl, hshown⟩ :=
    h.mem_entities.mp (Snapshot.mem_entities_set.mpr hmem)
  cases entity with
  | set entries =>
    cases hshown
    obtain ⟨hshell, -, hnames⟩ := hstocked.place hreach hentity
    obtain ⟨hsorted, hkeys⟩ := (h.running.stored_sound hentity).set rfl
    refine (Restore.fillSet_succeeds (hclasses.trans hstocked.housed.classes) hshell
      (houtline ▸ hnames) hsorted hkeys
      (h.portable.element hreach (Heap.set?_eq_some.mpr hentity)) fun item hitem =>
        h.sheltered_content hstocked.shelled hreach hentity hitem).imp
        fun _ _ hfills => hfills.imp fun _ hcopies => ⟨ref, _, hreach, hentity, rfl, hcopies⟩
  | _ => cases hshown

omit houtline in
theorem fillObject_succeeds (h : Passage source root target)
    (hstocked : Stocked source root target shells machine) {content : SnapObject}
    (hmem : (key, content) ∈ (source.capture root).objects.entries)
    (hsame : current.heap.entity? (placeOf shells key) = machine.heap.entity? (placeOf shells key)) :
    Succeeds (content.fields.entries.forM fun (label, item) =>
        fillField shells (placeOf shells key) label item) current fun _ =>
      Fills (placeOf shells key) (Wanted source root target shells key) current := by
  obtain ⟨place, copy, hplace, hcopy, hdressed⟩ := hstocked.dressed _ hmem
  obtain ⟨ref, entity, hreach, hentity, rfl, hshown⟩ :=
    h.mem_entities.mp (Snapshot.mem_entities_object.mpr hmem)
  cases entity with
  | object original =>
    cases hshown
    rw [placeOf_eq hplace rfl] at hsame ⊢
    have hportable := h.portable.object hreach (Heap.object?_eq_some.mpr hentity)
    have hmanifest := ((h.running.stored_sound hentity).object rfl).manifest
    obtain ⟨hworn, hcounterparts⟩ := h.dressed_counterparts hreach hentity rfl hdressed
    have hnodup : original.manifest.Nodup := hmanifest ▸ (h.composed.acyclic.layered _).nodup
    have hnodup' : copy.manifest.Nodup := hdressed.manifest ▸ (h.composed'.acyclic.layered _).nodup
    refine (fillFields_succeeds copy h.composed h.composed' h.named hportable hcounterparts
      hdressed.types (hclasses.trans hstocked.housed.classes) (hsame.trans hcopy) hnodup
      fun entry hentry => h.sheltered_content hstocked.shelled hreach hentity
        (List.mem_map_of_mem hentry)).imp ?_
    rintro _ after ⟨htouches, fields, hafter, hstores⟩
    refine ⟨htouches, _, hafter, ref, _, hreach, hentity, rfl, .object hportable ?_⟩
    exact ⟨hworn, hcounterparts, ⟨hnodup, hnodup'⟩, fun hfield => hstores _ _ hfield⟩
  | _ => cases hshown

end

/-! The end of a rebuild. -/

theorem initializeMissing_succeeds {place : Ref} {copy : Object}
    (hplace : machine.heap.entity? place = some (.object copy))
    (hcomposed : machine.classes.Composed)
    (hcomplete : ∀ key : FieldKey, key.owner ∈ copy.manifest → machine.classes.HasField key →
      copy.fields.contains key) (steps : Nat) :
    Succeeds (initializeMissing (steps + 1) place) machine fun _ after => after = machine := by
  have hpending : machine.pendingFields copy = [] := by
    refine List.flatMap_eq_nil_iff.mpr fun found hfound => ?_
    obtain ⟨cls, hcls, hget⟩ := List.mem_filterMap.mp hfound
    rw [List.map_eq_nil_iff, List.filter_eq_nil_iff]
    intro entry hentry
    obtain ⟨index, hindex, rfl⟩ := List.mem_mapIdx.mp hentry
    obtain rfl := hcomposed.id hget
    simp [hcomplete ⟨found.id, index⟩ hcls ⟨found, hget, hindex⟩]
  rw [initializeMissing]
  refine Succeeds.bind_get ?_
  rw [Heap.object?_eq_some.mpr hplace, Option.map_some, hpending]
  exact rfl

theorem advance_succeeds (places : List Ref) (machine : Machine) :
    Succeeds (places.forM fun ref =>
      (modify fun machine => { machine with odometer := machine.odometer.advancePast ref.id } :
        Run PUnit)) machine fun _ after =>
      after.classes = machine.classes ∧ after.heap = machine.heap :=
  Succeeds.forM (motive := fun _ after =>
    after.classes = machine.classes ∧ after.heap = machine.heap) ⟨rfl, rfl⟩
    fun _ _ _ _ _ h => ⟨h.1, h.2⟩

theorem mirrors_of_filled (h : Passage source root target)
    (hstocked : Stocked source root target shells machine) {last : Machine} {root' : Value}
    (hroot : root.Copies source.classes target (twin shells) root')
    (hclasses : last.classes = target) (houtline : last.heap.outline = machine.heap.outline)
    (hfilled : Filled (Wanted source root target shells) shells (source.capture root).keys last) :
    Mirrors source root last root' (twin shells) := by
  constructor
  case start => exact hclasses ▸ hroot
  case has =>
    intro ref hreach
    obtain ⟨entity, hentity⟩ := h.entity?_of_reaches hreach
    obtain ⟨-, -, hnames⟩ := hstocked.place hreach hentity
    exact houtline ▸ hnames.has EntityKind.ref?_value
  case id =>
    intro ref hreach
    obtain ⟨entity, hentity⟩ := h.entity?_of_reaches hreach
    exact (hstocked.place hreach hentity).2.1
  case entity =>
    intro ref original hreach horiginal
    obtain ⟨copy, hcopy, other, entity, hother, hentity, hkey, hcopies⟩ :=
      hfilled ref.id.text (h.mem_keys.mpr ⟨ref, original, hreach, horiginal, rfl⟩)
    obtain rfl := h.portable.distinct other ref hother hreach (Id.text_injective hkey)
    obtain rfl := Option.some.inj (horiginal.symm.trans hentity)
    exact ⟨copy, hcopy, hclasses ▸ hcopies⟩

/-! The whole rebuild. -/

/-- The objects with their shells. -/
def placed (shells : Shells) (snapshot : Snapshot) : List (Ref × SnapObject) :=
  snapshot.objects.entries.map fun entry => (placeOf shells entry.1, entry.2)

theorem stock_succeeds (h : Passage source root target) (hmachine : machine.classes = target) :
    Succeeds (stock (source.capture root)) machine fun (shells, objects) after =>
      Stocked source root target shells after ∧ objects = placed shells (source.capture root) := by
  have hkeys := h.nodup_keys
  have hmaps := (List.nodup_append.mp hkeys).1
  have harrays := (List.nodup_append.mp hmaps).1
  have hobjects := (List.nodup_append.mp harrays).1
  unfold stock
  refine (objectShells_succeeds hmachine hobjects (fun key hkey => ?_)
    fun entry hentry name hname => h.find_of_mem_objects hentry hname).bind ?_
  · exact h.exists_id (by simp [Snapshot.keys, hkey])
  rintro ⟨shells₁, objects⟩ machine₁ ⟨hhoused₁, hshells₁, hdressed₁⟩
  refine (containerShells_succeeds rfl hhoused₁ harrays fun key hkey => ?_).bind ?_
  · exact h.exists_id (by simp [Snapshot.keys, hkey])
  rintro shells₂ machine₂ ⟨hhoused₂, hlater₂, hshells₂⟩
  refine (containerShells_succeeds rfl hhoused₂ hmaps fun key hkey => ?_).bind ?_
  · exact h.exists_id (by simp [Snapshot.keys, hkey])
  rintro shells₃ machine₃ ⟨hhoused₃, hlater₃, hshells₃⟩
  refine (containerShells_succeeds rfl hhoused₃ hkeys fun key hkey => ?_).bind ?_
  · exact h.exists_id (by simp [Snapshot.keys, hkey])
  rintro shells machine₄ ⟨hhoused, hlater₄, hshells₄⟩
  have hlater := (hlater₂.trans hlater₃).trans hlater₄
  constructor
  · refine h.stocked_of_shells hhoused (fun entry hentry => ?_) (fun key hkey => ?_)
      (fun key hkey => ?_) hshells₄
    · exact (hdressed₁ entry hentry).later hlater
    · obtain ⟨ref, href⟩ := hshells₂ key hkey
      exact ⟨ref, (hlater₃.trans hlater₄).shell href⟩
    · obtain ⟨ref, href⟩ := hshells₃ key hkey
      exact ⟨ref, hlater₄.shell href⟩
  · refine hshells₁.trans (List.map_congr_left fun entry hentry => ?_)
    obtain ⟨place, _, hplace, -⟩ := hdressed₁ entry hentry
    rw [placeOf_eq hplace rfl, placeOf_eq (hlater.shell hplace) rfl]

theorem fill_succeeds (h : Passage source root target)
    (hstocked : Stocked source root target shells machine) :
    Succeeds (fill shells (placed shells (source.capture root)) (source.capture root)) machine
      fun _ after => Progress (Wanted source root target shells) shells (source.capture root).keys
        machine after := by
  have hkeys := h.nodup_keys
  have hmaps := (List.nodup_append.mp hkeys).1
  have harrays := (List.nodup_append.mp hmaps).1
  have hobjects := (List.nodup_append.mp harrays).1
  have hmapsIn : _ ⊆ (source.capture root).keys := List.subset_append_left _ _
  have harraysIn := List.Subset.trans (List.subset_append_left _ _) hmapsIn
  have hobjectsIn := List.Subset.trans (List.subset_append_left _ _) harraysIn
  have hplaces : ∀ a ∈ (source.capture root).keys, ∀ b ∈ (source.capture root).keys,
      (placeOf shells a).address = (placeOf shells b).address → a = b :=
    fun _ ha _ hb => hstocked.key_eq h ha hb
  have hnone : Progress (Wanted source root target shells) shells [] machine machine :=
    ⟨rfl, rfl, nofun⟩
  unfold fill placed
  refine (Succeeds.forM_map (fills _ hplaces hobjectsIn hobjects hnone
    fun (_, _) hentry current hclasses _ hsame =>
      h.fillObject_succeeds hclasses hstocked hentry hsame)).bind fun _ machine₁ hobjects => ?_
  refine (fills _ hplaces harraysIn harrays hobjects fun (_, _) hentry current hclasses houtline _ =>
    h.fillArray_succeeds hclasses houtline hstocked hentry).bind fun _ machine₂ harrays => ?_
  refine (fills _ hplaces hmapsIn hmaps harrays fun (_, _) hentry current hclasses houtline _ =>
    h.fillMap_succeeds hclasses houtline hstocked hentry).bind fun _ machine₃ hmaps => ?_
  exact fills _ hplaces (List.Subset.refl _) hkeys hmaps
    fun (_, _) hentry current hclasses houtline _ =>
      h.fillSet_succeeds hclasses houtline hstocked hentry

theorem missing_succeeds (h : Passage source root target) (hclasses : machine.classes = target)
    (hfilled : Filled (Wanted source root target shells) shells (source.capture root).keys machine)
    (steps : Nat) :
    Succeeds ((placed shells (source.capture root)).forM fun (ref, _) =>
      initializeMissing (steps + 1) ref) machine fun _ after => after = machine := by
  refine Succeeds.forM (motive := fun _ after => after = machine) rfl ?_
  rintro done ⟨place, content⟩ rest _ heq rfl
  obtain ⟨⟨key, _⟩, hmem, ⟨⟩⟩ := List.mem_map.mp
    (heq ▸ List.mem_append_right _ (List.mem_cons_self ..) :
      (place, content) ∈ placed shells (source.capture root))
  obtain ⟨ref, entity, hreach, hentity, rfl, hshown⟩ :=
    h.mem_entities.mp (Snapshot.mem_entities_object.mpr hmem)
  obtain ⟨stored, hstored, other, original, hother, horiginal, hkey, hcopies⟩ :=
    hfilled ref.id.text (h.mem_keys.mpr ⟨ref, entity, hreach, hentity, rfl⟩)
  obtain rfl := h.portable.distinct other ref hother hreach (Id.text_injective hkey)
  obtain rfl := Option.some.inj (hentity.symm.trans horiginal)
  cases hcopies with
  | object hportable hcopies =>
    refine initializeMissing_succeeds hstored (hclasses ▸ h.composed') (fun key howner hfield => ?_)
      steps
    subst hclasses
    exact hcopies.complete h.composed h.composed' h.named hportable howner hfield
  | _ => cases hshown

theorem restore_succeeds (h : Passage source root target) (hmachine : machine.classes = target)
    (steps : Nat) :
    Succeeds (Machine.restore (steps + 1) (source.capture root)) machine fun root' after =>
      after.classes = target ∧ ∃ twin, Mirrors source root after root' twin := by
  rw [restore_eq]
  refine (h.stock_succeeds hmachine).bind ?_
  rintro ⟨shells, _⟩ machine₁ ⟨hstocked, rfl⟩
  refine (h.fill_succeeds hstocked).bind fun _ machine₂ hprogress => ?_
  have hclasses := hprogress.classes.trans hstocked.housed.classes
  have hroot : (source.capture root).root = Capture.value source.classes root := by
    obtain ⟨_, -, -, hcapture⟩ := source.capture_eq (fun _ => h.has) h.portable.distinct
    rw [hcapture]
  rw [hroot]
  refine ((h.sheltered_root hstocked.shelled).value_succeeds hclasses).bind ?_
  rintro root' machine₃ ⟨hcopies, hsuggests⟩
  have hclasses₃ := hsuggests.classes.trans hclasses
  have hfilled := hprogress.filled.of_heap hsuggests.heap
  refine (h.missing_succeeds hclasses₃ hfilled steps).bind ?_
  rintro _ _ rfl
  refine (advance_succeeds _ _).bind fun _ last hlast => ?_
  obtain ⟨hlastClasses, hlastHeap⟩ := hlast
  have houtline : last.heap.outline = machine₁.heap.outline := by
    rw [hlastHeap, hsuggests.heap, hprogress.outline]
  have hlast := hlastClasses.trans hclasses₃
  exact ⟨hlast, twin shells, h.mirrors_of_filled hstocked hcopies hlast houtline
    (hfilled.of_heap hlastHeap)⟩

end Passage

end Attire
