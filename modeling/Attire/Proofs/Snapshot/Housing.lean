import Attire.Proofs.Machine.Operations
import Attire.Proofs.Snapshot.Counterparts
import Attire.Proofs.Snapshot.Phases

namespace Attire

/-! The empty entities from which a rebuild starts. -/

theorem EntityKind.moved_value {kind : EntityKind} {ref place : Ref} :
    Restore.moved place (kind.value ref) = kind.value place := by
  cases kind <;> rfl

namespace Heap

variable {heap : Heap} {id : Id} {entity : Entity}

theorem outline_le_alloc : heap.outline ≤ (heap.alloc id entity).2.outline :=
  ⟨[(id, entity.kind)], (outline_alloc id).symm⟩

end Heap

namespace Restore

variable {target : ClassRegistry} {keys : List String} {shells shells' : Shells}
variable {machine after : Machine} {id : Id} {entity : Entity}

/-- Every shell is an entity that there is, under its own identifier. -/
structure Housed (target : ClassRegistry) (keys : List String) (shells : Shells)
    (machine : Machine) : Prop where
  classes : machine.classes = target
  entered {key : String} : shells.contains key → key ∈ keys
  shell {key : String} {value : Value} : shells.get? key = some value →
    ∃ ref, value.ref? = some ref ∧ ref.id.text = key ∧ machine.heap.outline.Names value

/-- The shells and the entities that there were are still there. -/
structure Later (shells : Shells) (machine : Machine) (shells' : Shells) (after : Machine) : Prop where
  shell {key : String} {value : Value} : shells.get? key = some value →
    shells'.get? key = some value
  entity {ref : Ref} {stored : Entity} : machine.heap.entity? ref = some stored →
    after.heap.entity? ref = some stored

theorem Later.refl (shells : Shells) (machine : Machine) : Later shells machine shells machine :=
  ⟨fun h => h, fun h => h⟩

theorem Later.trans {shells'' : Shells} {last : Machine} (h : Later shells machine shells' after)
    (h' : Later shells' after shells'' last) : Later shells machine shells'' last :=
  ⟨fun hshell => h'.shell (h.shell hshell), fun hentity => h'.entity (h.entity hentity)⟩

namespace Housed

theorem empty (hclasses : machine.classes = target) : Housed target [] ∅ machine :=
  ⟨hclasses, nofun, nofun⟩

theorem add (h : Housed target keys shells machine) (hclasses : after.classes = machine.classes)
    (hheap : after.heap = (machine.heap.alloc id entity).2) :
    Housed target (keys ++ [id.text])
      (shells.insert id.text (entity.kind.value (machine.heap.alloc id entity).1)) after := by
  constructor
  case classes => exact hclasses.trans h.classes
  case entered =>
    intro key hkey
    rw [Table.contains, Table.get?_insert] at hkey
    split at hkey
    case isTrue heq => exact List.mem_append_right _ (List.mem_singleton.mpr heq)
    case isFalse => exact List.mem_append_left _ (h.entered hkey)
  case shell =>
    intro key value hvalue
    rw [Table.get?_insert] at hvalue
    split at hvalue
    case isTrue heq =>
      obtain rfl := Option.some.inj hvalue
      refine ⟨_, EntityKind.ref?_value, heq.symm, EntityKind.names_value.mpr ?_⟩
      rw [hheap, Heap.outline_alloc]
      simp [Heap.alloc, Heap.size, Heap.outline]
    case isFalse =>
      obtain ⟨ref, href, hid, hnames⟩ := h.shell hvalue
      exact ⟨ref, href, hid, hnames.mono (hheap ▸ Heap.outline_le_alloc)⟩

theorem later_add (h : Housed target keys shells machine) (hfresh : id.text ∉ keys) {value : Value}
    (hheap : after.heap = (machine.heap.alloc id entity).2) :
    Later shells machine (shells.insert id.text value) after where
  shell {key} _ hshell := by
    rw [Table.get?_insert_of_ne, hshell]
    rintro rfl
    exact hfresh (h.entered (by rw [Table.contains, hshell]; rfl))
  entity hentity := hheap ▸ Heap.entity?_alloc_of_some hentity

theorem addShell_succeeds (h : Housed target keys shells machine) (hfresh : id.text ∉ keys)
    {value : Value} : Machine.Succeeds (addShell shells id.text value) after fun shells' last =>
      shells' = shells.insert id.text value ∧ last = after := by
  unfold addShell
  rw [if_neg fun hcontains => hfresh (h.entered hcontains)]
  exact ⟨rfl, rfl⟩

theorem key_eq (h : Housed target keys shells machine) {key key' : String} {value value' : Value}
    (hvalue : shells.get? key = some value) (hvalue' : shells.get? key' = some value')
    (haddress : (placeOf shells key).address = (placeOf shells key').address) : key = key' := by
  have hcell : ∀ {key : String} {value : Value}, shells.get? key = some value →
      (placeOf shells key).id.text = key ∧ machine.heap.outline.Has (placeOf shells key) := by
    intro key value hvalue
    obtain ⟨ref, href, hid, hnames⟩ := h.shell hvalue
    rw [placeOf_eq hvalue href]
    exact ⟨hid, hnames.has href⟩
  obtain ⟨hid, hhas⟩ := hcell hvalue
  obtain ⟨hid', hhas'⟩ := hcell hvalue'
  rw [← hid, ← hid', hhas.eq_of_address hhas' haddress]

end Housed

theorem parseId_succeeds (id : Id) :
    Machine.Succeeds (parseId id.text) machine fun answer after => answer = id ∧ after = machine := by
  unfold parseId
  rw [Id.ofText?_text]
  exact ⟨rfl, rfl⟩

theorem alloc_succeeds (id : Id) (entity : Entity) (machine : Machine) :
    Machine.Succeeds (Machine.alloc id entity) machine fun ref after =>
      ref = (machine.heap.alloc id entity).1 ∧
        after = { machine with heap := (machine.heap.alloc id entity).2 } :=
  ⟨rfl, rfl⟩

/-! Objects. -/

theorem installManifest_succeeds (hclasses : machine.classes = target) (id : Id)
    (worn : List ClassId) :
    Machine.Succeeds (Machine.installManifest (machine.heap.alloc id (.object { worn })).1)
      { machine with heap := (machine.heap.alloc id (.object { worn })).2 } fun _ after =>
        ∃ table, after.classes = machine.classes ∧ after.heap = (machine.heap.alloc id
          (.object (Object.fitted (target.manifest worn) table { worn }))).2 := by
  refine (Machine.yields_installManifest Heap.object?_alloc).mpr ?_
  dsimp only
  rw [Heap.modifyObject_alloc, hclasses]
  exact ⟨_, rfl, rfl⟩

/-- The object wears the classes that a snapshot names, and embodies them and their ancestors. -/
structure Dressed (target : ClassRegistry) (shown : SnapObject) (copy : Object) : Prop where
  worn : List.Forall₂ (fun name cls => target.find? name = some cls) shown.classes copy.worn
  manifest : copy.manifest = target.manifest copy.worn
  types (cls : ClassId) : cls ∈ copy.types ↔ cls ∈ copy.manifest

/-- The snapshot's object has a shell that is dressed like it. -/
def DressedIn (target : ClassRegistry) (shells : Shells) (machine : Machine)
    (entry : String × SnapObject) : Prop :=
  ∃ ref copy, shells.get? entry.1 = some (.object ref) ∧
    machine.heap.entity? ref = some (.object copy) ∧ Dressed target entry.2 copy

theorem DressedIn.later {entry : String × SnapObject} (hlater : Later shells machine shells' after)
    (h : DressedIn target shells machine entry) : DressedIn target shells' after entry := by
  obtain ⟨ref, copy, hshell, hcopy, hdressed⟩ := h
  exact ⟨ref, copy, hlater.shell hshell, hlater.entity hcopy, hdressed⟩

theorem objectShell_succeeds (h : Housed target keys shells machine) (hfresh : id.text ∉ keys)
    {shown : SnapObject} (hshown : ∀ name ∈ shown.classes, ∃ cls, target.find? name = some cls) :
    Machine.Succeeds (objectShell id.text shown) machine fun ref after =>
      Housed target (keys ++ [id.text]) (shells.insert id.text (.object ref)) after ∧
        Later shells machine (shells.insert id.text (.object ref)) after ∧
        ∃ copy, after.heap.entity? ref = some (.object copy) ∧ Dressed target shown copy := by
  unfold objectShell
  refine (parseId_succeeds id).bind fun id machine hid => ?_
  obtain ⟨rfl, rfl⟩ := hid
  refine (Machine.Succeeds.mapM (fun current => current = machine)
    (fun name cls => target.find? name = some cls) rfl ?_).bind fun worn machine hworn => ?_
  · rintro name hmem _ rfl
    obtain ⟨cls, hcls⟩ := hshown name hmem
    refine (findClass_succeeds h.classes hcls).imp fun answer after hanswer => ?_
    obtain ⟨rfl, rfl⟩ := hanswer
    exact ⟨hcls, rfl⟩
  obtain ⟨hworn, rfl⟩ := hworn
  refine (alloc_succeeds id (.object { worn }) machine).bind fun ref after href => ?_
  obtain ⟨rfl, rfl⟩ := href
  refine (installManifest_succeeds h.classes id worn).bind fun _ after hafter => ?_
  obtain ⟨table, hclasses, hheap⟩ := hafter
  have hhoused := h.add hclasses hheap
  have hcopy : after.heap.entity? (machine.heap.alloc id (.object { worn })).1 =
      some (.object (Object.fitted (target.manifest worn) table { worn })) :=
    hheap ▸ Heap.entity?_alloc
  exact ⟨hhoused, h.later_add hfresh hheap, _, hcopy, hworn, rfl, fun cls => List.mem_eraseDups⟩

theorem objectShells_succeeds {objects : Ordered String SnapObject}
    (hclasses : machine.classes = target) (hkeys : objects.keys.Nodup)
    (hids : ∀ key ∈ objects.keys, ∃ id : Id, id.text = key)
    (hshown : ∀ entry ∈ objects.entries, ∀ name ∈ entry.2.classes,
      ∃ cls, target.find? name = some cls) :
    Machine.Succeeds (objectShells objects) machine fun answer after =>
      Housed target objects.keys answer.1 after ∧
        answer.2 = objects.entries.map (fun entry => (placeOf answer.1 entry.1, entry.2)) ∧
        ∀ entry ∈ objects.entries, DressedIn target answer.1 after entry := by
  refine Machine.Succeeds.foldlM (motive := fun done (answer : Shells × List (Ref × SnapObject)) after =>
    Housed target (done.map Prod.fst) answer.1 after ∧
      answer.2 = done.map (fun entry => (placeOf answer.1 entry.1, entry.2)) ∧
      ∀ entry ∈ done, DressedIn target answer.1 after entry) ⟨.empty hclasses, rfl, nofun⟩ ?_
  rintro done ⟨key, shown⟩ rest ⟨shells, refs⟩ machine heq ⟨hhoused, hrefs, hdressed⟩
  have hmem : (key, shown) ∈ objects.entries := heq ▸ by simp
  obtain ⟨id, rfl⟩ := hids key (List.mem_map.mpr ⟨_, hmem, rfl⟩)
  have hfresh : id.text ∉ done.map Prod.fst := by
    unfold Ordered.keys at hkeys
    rw [heq, List.map_append, List.map_cons, List.nodup_append] at hkeys
    exact fun hdone => hkeys.2.2 _ hdone _ (List.mem_cons_self ..) rfl
  refine (objectShell_succeeds hhoused hfresh (hshown _ hmem)).bind fun ref after href => ?_
  obtain ⟨hhoused', hlater, copy, hcopy, hcopyDressed⟩ := href
  refine (hhoused.addShell_succeeds hfresh).bind fun shells' _ hshells' => ?_
  obtain ⟨rfl, rfl⟩ := hshells'
  have hshell : (shells.insert id.text (.object ref)).get? id.text = some (.object ref) :=
    Table.get?_insert_self ..
  refine ⟨by rwa [List.map_append], ?_, ?_⟩
  · dsimp only at hrefs ⊢
    rw [List.map_append, hrefs]
    refine congrArg₂ (· ++ ·) (List.map_congr_left fun entry hentry => ?_) ?_
    · obtain ⟨place, _, hplace, -⟩ := hdressed entry hentry
      rw [placeOf_eq hplace rfl, placeOf_eq (hlater.shell hplace) rfl]
    · rw [List.map_singleton, placeOf_eq hshell rfl]
  · intro entry hentry
    rcases List.mem_append.mp hentry with hentry | hentry
    · exact (hdressed entry hentry).later hlater
    · obtain rfl := List.mem_singleton.mp hentry
      exact ⟨ref, copy, hshell, hcopy, hcopyDressed⟩

/-! Containers. -/

theorem containerShells_succeeds {α : Type} {empty : Entity} {make : Ref → Value}
    (hmake : make = empty.kind.value) {table : Ordered String α} (hhoused : Housed target keys shells machine)
    (hkeys : (keys ++ table.keys).Nodup) (hids : ∀ key ∈ table.keys, ∃ id : Id, id.text = key) :
    Machine.Succeeds (containerShells empty make table shells) machine fun shells' after =>
      Housed target (keys ++ table.keys) shells' after ∧ Later shells machine shells' after ∧
        ∀ key ∈ table.keys, ∃ ref, shells'.get? key = some (make ref) := by
  subst hmake
  refine Machine.Succeeds.foldlM (motive := fun done shells' after =>
    Housed target (keys ++ done) shells' after ∧ Later shells machine shells' after ∧
      ∀ key ∈ done, ∃ ref, shells'.get? key = some (empty.kind.value ref))
    ⟨(List.append_nil keys).symm ▸ hhoused, .refl _ _, nofun⟩ ?_
  rintro done key rest current machine' heq ⟨hhoused', hlater, hshells⟩
  obtain ⟨id, rfl⟩ := hids key (heq ▸ by simp)
  have hfresh : id.text ∉ keys ++ done := by
    rw [heq, ← List.append_assoc, List.nodup_append] at hkeys
    exact fun hdone => hkeys.2.2 _ hdone _ (List.mem_cons_self ..) rfl
  refine (parseId_succeeds id).bind fun id machine' hid => ?_
  obtain ⟨rfl, rfl⟩ := hid
  refine (alloc_succeeds id empty machine').bind fun ref after href => ?_
  obtain ⟨rfl, rfl⟩ := href
  refine (hhoused'.addShell_succeeds hfresh).imp fun shells' _ hshells' => ?_
  obtain ⟨rfl, rfl⟩ := hshells'
  have hlater' : Later current machine' (current.insert id.text
      (empty.kind.value (machine'.heap.alloc id empty).1))
      { machine' with heap := (machine'.heap.alloc id empty).2 } :=
    hhoused'.later_add hfresh rfl
  refine ⟨?_, hlater.trans hlater', ?_⟩
  · rw [← List.append_assoc]
    exact hhoused'.add rfl rfl
  · intro key hkey
    rcases List.mem_append.mp hkey with hkey | hkey
    · obtain ⟨ref, href⟩ := hshells key hkey
      exact ⟨ref, hlater'.shell href⟩
    · obtain rfl := List.mem_singleton.mp hkey
      exact ⟨_, Table.get?_insert_self ..⟩

end Restore

end Attire
