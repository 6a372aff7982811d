import Attire.Proofs.Machine.Operations

namespace Attire

open Machine

/-! The discipline of sound machines.  Programs with little permission leave the entities below a
floor as they are; programs with full permission have the floor at the bottom. -/

namespace ClassRegistry

/-- Some class has the routine for an initializer. -/
def Initializes (classes : ClassRegistry) (routine : Routine) : Prop :=
  ∃ cls found name, classes.get? cls = some found ∧ (name, routine) ∈ found.initializers.entries

/-- Some class above has a body for the slot. -/
def Answers (classes : ClassRegistry) (cls : ClassId) (slot : MethodSlot) : Prop :=
  ∃ owner found, classes.Inherits cls owner ∧ classes.get? owner = some found ∧
    found.bodies.contains slot

end ClassRegistry

/-- What is permitted is there, and permitted routines keep to the permit. -/
structure Permit.Backed (permit : Permit) (classes : ClassRegistry) (outline : Outline) :
    Prop where
  composed : classes.Composed
  new {cls : ClassId} : permit.new cls → classes.contains cls
  wear {cls : ClassId} : permit.wear cls ↔ classes.contains cls
  store {key : FieldKey} : permit.store key ↔ classes.HasField key
  const {value : Value} : permit.const value → value.Known classes outline
  superCall {cls : ClassId} {slot : MethodSlot} : permit.superCall cls slot →
    permit.call slot ∧ classes.contains cls ∧ classes.Answers cls slot
  body {slot : MethodSlot} {routine : Routine} : permit.call slot →
    classes.Installed slot routine → routine.Within permit
  initializer {routine : Routine} : classes.Initializes routine → routine.Within permit
  call_of_write {slot : MethodSlot} : permit.write → permit.call slot

/-- A run that starts from a machine. -/
structure Footing where
  classes : ClassRegistry
  before : Machine
  floor : Nat
  permit : Permit
  backed : permit.Backed classes before.heap.outline
  floor_le : floor ≤ before.heap.size
  floor_of_write : permit.write → floor = 0

namespace Footing

structure Fits (footing : Footing) (stage : Stage) (machine : Machine) : Prop where
  sound : machine.Sound footing.classes stage.outline
  depth : machine.depth = stage.depth
  later : footing.before.heap.outline ≤ stage.outline
  retains : footing.before.Retains footing.floor machine
  served : ∃ asked, footing.before.tables.Serves footing.classes asked machine.tables

def regime (footing : Footing) : Regime Stage where
  fits := footing.Fits
  fault error := ∃ limit, error = .callDepthExceeded limit

variable {footing : Footing} {stage next : Stage} {machine : Machine} {ref : Ref} {value : Value}

/-- Values that runs may handle are those whose entities and classes there are. -/
theorem admits_iff : value.Within stage.outline.Names footing.permit.wear ↔
    value.Known footing.classes stage.outline :=
  ⟨fun h => h.imp (fun _ h => h) fun _ => footing.backed.wear.mp,
    fun h => h.imp (fun _ h => h) fun _ => footing.backed.wear.mpr⟩

theorem contains_iff (hfits : footing.Fits stage machine) {cls : ClassId} :
    machine.classes.contains cls = footing.classes.contains cls := by
  rw [hfits.sound.registry]

theorem Fits.floor_le (hfits : footing.Fits stage machine) :
    footing.floor ≤ machine.heap.size := by
  have hsize : ∀ heap : Heap, heap.outline.cells.length = heap.size := by
    intro heap
    simp [Heap.outline, Heap.size]
  have hle : footing.before.heap.outline.cells <+: stage.outline.cells := hfits.later
  have hlength := hle.length_le
  rw [← hfits.sound.layout, hsize, hsize] at hlength
  exact footing.floor_le.trans hlength

/-- Only classes, method tables, the heap, the tick and how deep calls are nested count. -/
theorem Fits.congr (hfits : footing.Fits stage machine) {other : Machine}
    (hclasses : other.classes = machine.classes) (htables : other.tables = machine.tables)
    (hheap : other.heap = machine.heap) (hdepth : other.depth = machine.depth)
    (htick : other.tick = machine.tick) (hlimit : other.callLimit = machine.callLimit) :
    footing.Fits stage other where
  sound := hfits.sound.congr hclasses htables hheap
  depth := hdepth.trans hfits.depth
  later := hfits.later
  retains := hfits.retains.congr hheap htick hlimit
  served := htables ▸ hfits.served

/-- The tables that a request leaves behind are sound, and so is its answer. -/
theorem Fits.request (hfits : footing.Fits stage machine) {manifest : List ClassId}
    (hmanifest : ∀ cls ∈ manifest, footing.classes.contains cls) :
    (machine.tables.request machine.classes manifest).1.methods =
        footing.classes.methodsOf manifest ∧
      footing.Fits stage { machine with
        tables := (machine.tables.request machine.classes manifest).2 } := by
  obtain ⟨hmethods, htables⟩ := TableCache.request_transparent hfits.sound.tables hmanifest
  obtain ⟨asked, hasked⟩ := hfits.served
  have hrequest : machine.tables.request machine.classes manifest =
      machine.tables.request footing.classes manifest := by rw [hfits.sound.registry]
  rw [hrequest]
  exact ⟨hmethods, ⟨hfits.sound.registry, hfits.sound.layout, htables, hfits.sound.entities⟩,
    hfits.depth, hfits.later, hfits.retains.congr rfl rfl rfl, _, hasked.request hmethods⟩

theorem Fits.alloc (hfits : footing.Fits stage machine) (id : Id) {stored : Entity}
    (hstored : stored.Sound footing.classes stage.outline) :
    let next : Stage := { stage with outline := (machine.heap.alloc id stored).2.outline }
    stage ≤ next ∧
      footing.Fits next { machine with heap := (machine.heap.alloc id stored).2 } ∧
      next.outline.cells[(machine.heap.alloc id stored).1.address]? = some (id, stored.kind) := by
  obtain ⟨hle, hsound⟩ := hfits.sound.alloc id hstored
  refine ⟨⟨rfl, hle⟩, ⟨hsound, hfits.depth, hfits.later.trans hle,
    hfits.retains.alloc hfits.floor_le id stored, hfits.served⟩, ?_⟩
  simp [Heap.outline, Heap.alloc, Heap.size]

theorem Fits.modify (hfits : footing.Fits stage machine) (hfloor : footing.floor ≤ ref.address)
    {change : Entity → Entity}
    (hsound : Machine.Sound footing.classes stage.outline
      { machine with heap := machine.heap.modify ref change }) :
    footing.Fits stage { machine with heap := machine.heap.modify ref change } where
  sound := hsound
  depth := hfits.depth
  later := hfits.later
  retains := hfits.retains.modify hfloor change
  served := hfits.served

theorem safe_onHeap {change : Heap → Heap}
    (hfits : footing.Fits stage { machine with heap := change machine.heap }) :
    footing.regime.Safe stage (onHeap change) machine fun _ _ _ => True :=
  ⟨stage, le_refl stage, hfits, trivial⟩

theorem safe_create {stored : Entity} (hfits : footing.Fits stage machine)
    (hstored : stored.Sound footing.classes stage.outline) :
    footing.regime.Safe stage (create stored) machine fun next _ ref =>
      next.outline.cells[ref.address]? = some (ref.id, stored.kind) := by
  have hminted : footing.Fits stage { machine with odometer := machine.odometer.next.2 } :=
    hfits.congr rfl rfl rfl rfl rfl rfl
  obtain ⟨hle, hnext, hcell⟩ := hminted.alloc machine.odometer.peek hstored
  exact yields_create.mpr ⟨_, hle, hnext, hcell⟩

theorem safe_fresh {stored : Entity} {make : Ref → Value} (hfits : footing.Fits stage machine)
    (hstored : stored.Sound footing.classes stage.outline)
    (hmake : ∀ (next : Stage) (ref : Ref),
      next.outline.cells[ref.address]? = some (ref.id, stored.kind) →
      (make ref).Within next.outline.Names footing.permit.wear) :
    footing.regime.Safe stage (create stored >>= fun ref => pure (make ref)) machine
      fun next _ answer => answer.Within next.outline.Names footing.permit.wear :=
  Regime.Safe.bind (safe_create hfits hstored) fun next _ ref _ hfits' hcell =>
    Regime.Safe.pure hfits' (hmake next ref hcell)

theorem safe_newArray {items : Array Value} (hfits : footing.Fits stage machine)
    (hitems : ∀ item ∈ items.toList, item.Within stage.outline.Names footing.permit.wear) :
    footing.regime.Safe stage (newArray items) machine fun next _ answer =>
      answer.Within next.outline.Names footing.permit.wear :=
  safe_fresh hfits (Entity.sound_array fun item hmem => admits_iff.mp (hitems item hmem))
    fun _ _ h => h

theorem sound_empty_map : (Entity.map ∅).Sound footing.classes stage.outline :=
  Entity.sound_map .nil nofun nofun

theorem sound_empty_set : (Entity.set ∅).Sound footing.classes stage.outline :=
  Entity.sound_set .nil nofun nofun

theorem safe_clone (hfits : footing.Fits stage machine)
    (hvalue : value.Within stage.outline.Names footing.permit.wear) :
    footing.regime.Safe stage (cloneValue value) machine fun next _ answer =>
      answer.Within next.outline.Names footing.permit.wear := by
  unfold cloneValue
  refine Regime.Safe.bind_get ?_
  cases value with
  | object ref =>
    dsimp only
    split
    case h_1 object hobject =>
      have hsound := hfits.sound.object_sound hobject
      exact safe_fresh hfits
        (Entity.sound_object ((hsound.object rfl).redraw {}) hsound.contents) fun _ _ h => h
    case h_2 => exact Regime.Safe.pure hfits hvalue
  | array ref =>
    dsimp only
    split
    case h_1 items hitems =>
      exact safe_fresh hfits (hfits.sound.stored_sound (Heap.array?_eq_some.mp hitems))
        fun _ _ h => h
    case h_2 => exact Regime.Safe.pure hfits hvalue
  | map ref =>
    dsimp only
    split
    case h_1 entries hentries =>
      exact safe_fresh hfits (hfits.sound.stored_sound (Heap.map?_eq_some.mp hentries))
        fun _ _ h => h
    case h_2 => exact Regime.Safe.pure hfits hvalue
  | set ref =>
    dsimp only
    split
    case h_1 entries hentries =>
      exact safe_fresh hfits (hfits.sound.stored_sound (Heap.set?_eq_some.mp hentries))
        fun _ _ h => h
    case h_2 => exact Regime.Safe.pure hfits hvalue
  | _ => exact Regime.Safe.pure hfits hvalue

theorem safe_random (hfits : footing.Fits stage machine) :
    footing.regime.Safe stage (drawRandom ref) machine fun _ _ _ => True := by
  refine Regime.Safe.modifyGet (le_refl stage) ?_ trivial
  cases hobject : machine.heap.object? ref with
  | none => exact hfits
  | some object =>
    refine ⟨?_, hfits.depth, hfits.later, hfits.retains.redraw _, hfits.served⟩
    refine hfits.sound.modifyObject fun object _ hsound => ?_
    exact Entity.sound_object ((hsound.object rfl).redraw _) hsound.contents

theorem Fits.store (hfits : footing.Fits stage machine) (hfloor : footing.floor ≤ ref.address)
    {key : FieldKey} (hkey : footing.permit.store key)
    (hvalue : value.Within stage.outline.Names footing.permit.wear)
    {change : Object → Object} (hchange : ∀ object, change object = object ∨
      object.embodies key.owner ∧
        change object = { object with fields := object.fields.insert key value }) :
    footing.Fits stage { machine with heap := machine.heap.modifyObject ref change } := by
  refine hfits.modify hfloor (hfits.sound.modifyObject fun object _ hsound => ?_)
  rcases hchange object with heq | ⟨hembodies, heq⟩
  · rw [heq]
    exact hsound
  · rw [heq]
    have hcoherent := hsound.object rfl
    refine Entity.sound_object (hcoherent.insert (hcoherent.mem_manifest hembodies)
      (footing.backed.store.mp hkey)) fun stored hmem => ?_
    obtain ⟨entry, hentry, rfl⟩ := List.mem_map.mp hmem
    rcases Table.mem_insert hentry with rfl | hentry
    · exact admits_iff.mp hvalue
    · exact hsound.contents _ (List.mem_map.mpr ⟨entry, hentry, rfl⟩)

theorem safe_initialize (hfits : footing.Fits stage machine)
    (hfloor : footing.floor ≤ ref.address) {key : FieldKey} (hkey : footing.permit.store key)
    (hvalue : value.Within stage.outline.Names footing.permit.wear) :
    footing.regime.Safe stage (initializeField ref key value) machine fun _ _ _ => True := by
  refine safe_onHeap (hfits.store hfloor hkey hvalue fun object => ?_)
  unfold Table.insertIfNew
  split
  case isTrue hembodies =>
    split
    · exact .inl rfl
    · exact .inr ⟨hembodies, rfl⟩
  case isFalse => exact .inl rfl

theorem safe_writeField (hfits : footing.Fits stage machine) (hwrite : footing.permit.write)
    {target : Value} {key : FieldKey} (hkey : footing.permit.store key)
    (hvalue : value.Within stage.outline.Names footing.permit.wear) :
    footing.regime.Safe stage (onHeap (writeField target key value)) machine
      fun _ _ _ => True := by
  refine safe_onHeap ?_
  unfold writeField
  split
  case h_1 ref =>
    refine hfits.store (by rw [footing.floor_of_write hwrite]; omega) hkey hvalue fun object => ?_
    split
    case isTrue hembodies => exact .inr ⟨hembodies, rfl⟩
    case isFalse => exact .inl rfl
  case h_2 => exact hfits

theorem contains_manifest {worn : List ClassId} (hworn : ∀ cls ∈ worn, footing.classes.contains cls) :
    ∀ cls ∈ footing.classes.manifest worn, footing.classes.contains cls :=
  fun _ => ClassRegistry.contains_of_mem_manifest footing.backed.composed.parents hworn

/-- The object is an entity only once its manifest is installed. -/
theorem safe_allocObject (hfits : footing.Fits stage machine) (id : Id) {worn : List ClassId}
    (hworn : ∀ cls ∈ worn, footing.classes.contains cls) :
    footing.regime.Safe stage
      (Machine.alloc id (.object { worn }) >>= fun ref => installManifest ref >>= fun _ => pure ref)
      machine fun next _ ref =>
        next.outline.Names (.object ref) ∧ ref.id = id ∧ footing.floor ≤ ref.address := by
  obtain ⟨hmethods, hrequest⟩ := hfits.request (contains_manifest hworn)
  have hcoherent : Object.Coherent footing.classes (Object.fitted (footing.classes.manifest worn)
      (machine.tables.request machine.classes (footing.classes.manifest worn)).1 { worn }) :=
    .fitted hworn hmethods nofun
  obtain ⟨hle, hnext, hcell⟩ := hrequest.alloc id (Entity.sound_object hcoherent nofun)
  have hfloor := hfits.floor_le
  refine yields_bind.mpr (yields_modifyGet.mpr (yields_bind.mpr ?_))
  refine (yields_installManifest Heap.object?_alloc).mpr
    (yields_pure.mpr ⟨_, hle, ?_, hcell, rfl, hfloor⟩)
  rw [Heap.modifyObject_alloc, hfits.sound.registry]
  exact hfits.sound.registry ▸ hnext

theorem safe_createObject (hfits : footing.Fits stage machine) {cls : ClassId}
    (hcls : footing.classes.contains cls) :
    footing.regime.Safe stage
      (create (.object { worn := [cls] }) >>= fun ref => installManifest ref >>= fun _ => pure ref)
      machine fun next _ ref => next.outline.Names (.object ref) ∧ footing.floor ≤ ref.address := by
  have hminted : footing.Fits stage { machine with odometer := machine.odometer.next.2 } :=
    hfits.congr rfl rfl rfl rfl rfl rfl
  have hworn : ∀ other ∈ [cls], footing.classes.contains other := by simpa using hcls
  refine Regime.Safe.mono (safe_allocObject hminted machine.odometer.peek hworn) ?_
  exact fun _ _ _ _ _ ⟨hnames, _, hfloor⟩ => ⟨hnames, hfloor⟩

/-- Changing what an object wears and installing its new manifest. -/
theorem safe_reshape (hfits : footing.Fits stage machine) (hfloor : footing.floor ≤ ref.address)
    {change : Object → List ClassId}
    (hchange : ∀ object, machine.heap.object? ref = some object →
      ∀ cls ∈ change object, footing.classes.contains cls) :
    footing.regime.Safe stage
      ((onHeap fun heap => heap.modifyObject ref fun object =>
        { object with worn := change object }) >>= fun _ => installManifest ref)
      machine fun _ _ _ => True := by
  refine yields_bind.mpr (yields_modify.mpr ?_)
  cases hobject : machine.heap.object? ref with
  | none =>
    have hnone : (machine.heap.modifyObject ref fun object =>
        { object with worn := change object }).object? ref = none := by
      rw [Option.eq_none_iff_forall_ne_some]
      intro object hafter
      obtain ⟨cell, hcell, hentity⟩ := Heap.entity?_eq_some.mp (Heap.object?_eq_some.mp hafter)
      rw [Heap.modifyObject, Heap.cell_modify, if_pos rfl] at hcell
      obtain ⟨old, hold, rfl⟩ := Option.map_eq_some_iff.mp hcell
      have hbefore := Heap.entity?_eq_some.mpr ⟨old, hold, rfl⟩
      cases hkind : old.entity with
      | object object =>
        rw [hkind] at hbefore
        rw [Heap.object?_eq_some.mpr hbefore] at hobject
        cases hobject
      | _ => simp [hkind] at hentity
    refine (yields_installManifest_none hnone).mpr ⟨stage, le_refl stage, ?_, trivial⟩
    refine hfits.modify hfloor (hfits.sound.modifyObject fun object hsome _ => ?_)
    rw [hsome] at hobject
    cases hobject
  | some object =>
    refine (yields_installManifest (Heap.object?_modifyObject hobject)).mpr
      ⟨stage, le_refl stage, ?_, trivial⟩
    have hworn := hchange object hobject
    obtain ⟨hmethods, hrequest⟩ := hfits.request (contains_manifest hworn)
    rw [Heap.modifyObject_modifyObject, hfits.sound.registry]
    rw [hfits.sound.registry] at hmethods hrequest
    refine hrequest.modify hfloor (hrequest.sound.modifyObject fun other hother hsound => ?_)
    obtain rfl := Option.some.inj (hobject.symm.trans hother)
    refine Entity.sound_object (.fitted hworn hmethods fun key hmem =>
      ((hsound.object rfl).fields key hmem).2) fun value hmem => ?_
    obtain ⟨entry, hentry, rfl⟩ := List.mem_map.mp hmem
    exact hsound.contents _ (List.mem_map.mpr ⟨entry, (Table.mem_restrict.mp hentry).1, rfl⟩)

/-- A class that is implied already changes nothing but what is worn. -/
theorem safe_imply (hfits : footing.Fits stage machine) (hfloor : footing.floor ≤ ref.address)
    {cls : ClassId} {object : Object} (hcls : footing.classes.contains cls)
    (hobject : machine.heap.object? ref = some object) (hembodies : object.embodies cls = true) :
    footing.regime.Safe stage
      (onHeap fun heap => heap.modifyObject ref fun object =>
        { object with worn := object.worn ++ [cls] })
      machine fun _ _ _ => True := by
  refine safe_onHeap (hfits.modify hfloor (hfits.sound.modifyObject fun other hother hsound => ?_))
  obtain rfl := Option.some.inj (hobject.symm.trans hother)
  have hcoherent := hsound.object rfl
  have himplied : cls ∈ footing.classes.manifest object.worn := by
    rw [← hcoherent.manifest]
    exact hcoherent.mem_manifest hembodies
  refine Entity.sound_object
    ⟨fun other hmem => ?_, ?_, hcoherent.types, hcoherent.table, hcoherent.fields⟩ hsound.contents
  · rcases List.mem_append.mp hmem with hmem | hmem
    · exact hcoherent.worn other hmem
    · obtain rfl := List.mem_singleton.mp hmem
      exact hcls
  · exact hcoherent.manifest.trans (ClassRegistry.manifest_append himplied).symm

theorem mem_putAt {index : Float} {items : Array Value} {item : Value}
    (h : item ∈ (Heap.putAt index value items).toList) : item = value ∨ item ∈ items.toList := by
  unfold Heap.putAt at h
  split at h
  case h_1 position =>
    split at h
    case isTrue =>
      rcases Array.mem_or_eq_of_mem_setIfInBounds (Array.mem_toList_iff.mp h) with h | h
      · exact .inr (Array.mem_toList_iff.mpr h)
      · exact .inl h
    case isFalse =>
      split at h
      · rcases Array.mem_push.mp (Array.mem_toList_iff.mp h) with h | h
        · exact .inr (Array.mem_toList_iff.mpr h)
        · exact .inl h
      · exact .inr h
  case h_2 => exact .inr h

theorem safe_putElement (hfits : footing.Fits stage machine) (hwrite : footing.permit.write)
    {container index : Value} {kind : IndexKind}
    (hindex : index.Within stage.outline.Names footing.permit.wear)
    (hvalue : value.Within stage.outline.Names footing.permit.wear) :
    footing.regime.Safe stage (onHeap fun heap => heap.putElement container kind index value)
      machine fun _ _ _ => True := by
  have hfloor (ref : Ref) : footing.floor ≤ ref.address := by
    rw [footing.floor_of_write hwrite]
    omega
  refine safe_onHeap ?_
  unfold Heap.putElement
  split
  case h_1 ref =>
    refine hfits.modify (hfloor ref) (hfits.sound.modifyArray fun items hitems item hmem => ?_)
    rcases mem_putAt hmem with rfl | hmem
    · exact admits_iff.mp hvalue
    · exact hitems item hmem
  case h_2 ref =>
    refine hfits.modify (hfloor ref) (hfits.sound.modifyMap fun entries hsound => ?_)
    obtain ⟨hsorted, hkeys⟩ := hsound.map rfl
    refine Entity.sound_map hsorted.insert (fun entry hmem => ?_) fun entry hmem => ?_
    · rcases Ordered.mem_insert hmem with rfl | hmem
      · rfl
      · exact hkeys entry hmem
    · rcases Ordered.mem_insert hmem with rfl | hmem
      · exact ⟨admits_iff.mp hindex, admits_iff.mp hvalue⟩
      · exact hsound.map_contents entry hmem
  case h_3 => exact hfits

theorem safe_addElement (hfits : footing.Fits stage machine) (hwrite : footing.permit.write)
    {container : Value} (hvalue : value.Within stage.outline.Names footing.permit.wear) :
    footing.regime.Safe stage (onHeap fun heap => heap.addElement container value) machine
      fun _ _ _ => True := by
  have hfloor (ref : Ref) : footing.floor ≤ ref.address := by
    rw [footing.floor_of_write hwrite]
    omega
  refine safe_onHeap ?_
  unfold Heap.addElement
  split
  case h_1 ref =>
    refine hfits.modify (hfloor ref) (hfits.sound.modifyArray fun items hitems item hmem => ?_)
    rcases Array.mem_push.mp (Array.mem_toList_iff.mp hmem) with hmem | rfl
    · exact hitems item (Array.mem_toList_iff.mpr hmem)
    · exact admits_iff.mp hvalue
  case h_2 ref =>
    refine hfits.modify (hfloor ref) (hfits.sound.modifySet fun entries hsound => ?_)
    obtain ⟨hsorted, hkeys⟩ := hsound.set rfl
    refine Entity.sound_set hsorted.insert (fun entry hmem => ?_) fun entry hmem => ?_
    · rcases Ordered.mem_insert hmem with rfl | hmem
      · rfl
      · exact hkeys entry hmem
    · rcases Ordered.mem_insert hmem with rfl | hmem
      · exact admits_iff.mp hvalue
      · exact hsound.set_contents entry hmem
  case h_3 => exact hfits

theorem safe_removeElement (hfits : footing.Fits stage machine) (hwrite : footing.permit.write)
    {container : Value} {key : MapKey} :
    footing.regime.Safe stage (onHeap fun heap => heap.removeElement container key) machine
      fun _ _ _ => True := by
  have hfloor (ref : Ref) : footing.floor ≤ ref.address := by
    rw [footing.floor_of_write hwrite]
    omega
  refine safe_onHeap ?_
  unfold Heap.removeElement
  split
  case h_1 ref =>
    refine hfits.modify (hfloor ref) (hfits.sound.modifyMap fun entries hsound => ?_)
    obtain ⟨hsorted, hkeys⟩ := hsound.map rfl
    have hsub : (Ordered.drop key entries.entries) ⊆ entries.entries :=
      (Ordered.drop_sublist _).subset
    exact Entity.sound_map hsorted.erase (fun entry hmem => hkeys entry (hsub hmem))
      fun entry hmem => hsound.map_contents entry (hsub hmem)
  case h_2 ref =>
    refine hfits.modify (hfloor ref) (hfits.sound.modifySet fun entries hsound => ?_)
    obtain ⟨hsorted, hkeys⟩ := hsound.set rfl
    have hsub : (Ordered.drop key entries.entries) ⊆ entries.entries :=
      (Ordered.drop_sublist _).subset
    exact Entity.sound_set hsorted.erase (fun entry hmem => hkeys entry (hsub hmem))
      fun entry hmem => hsound.set_contents entry (hsub hmem)
  case h_3 => exact hfits

/-- A parent that answers a slot has a routine for it. -/
theorem safe_super (hfits : footing.Fits stage machine) {parent : ClassId} {slot : MethodSlot}
    (hpermit : footing.permit.superCall parent slot) :
    footing.regime.Safe stage (classRoutine? parent slot) machine fun _ _ answer =>
      ∃ routine, answer = some routine ∧ routine.Within footing.permit := by
  obtain ⟨hslot, hparent, owner, found, hpath, hfound, hbody⟩ := footing.backed.superCall hpermit
  have hworn : ∀ other ∈ [parent], footing.classes.contains other := by simpa using hparent
  obtain ⟨hmethods, hrequest⟩ := hfits.request (contains_manifest hworn)
  unfold classRoutine?
  have htable : footing.regime.Safe stage (methodTable (footing.classes.manifest [parent])) machine
      fun _ _ table => table.methods =
        footing.classes.methodsOf (footing.classes.manifest [parent]) :=
    Regime.Safe.modifyGet (le_refl stage) hrequest hmethods
  refine Regime.Safe.bind_get ?_
  rw [hfits.sound.registry]
  refine Regime.Safe.bind htable ?_
  · intro next machine' table _ hfits' htable
    have hsome : (table.methods.get? slot).isSome := by
      rw [htable]
      exact ClassRegistry.methodsOf_contains
        (ClassRegistry.mem_manifest.mpr ⟨parent, by simp, hpath⟩) hfound hbody
    obtain ⟨routine, hroutine⟩ := Option.isSome_iff_exists.mp hsome
    refine Regime.Safe.pure hfits' ⟨routine, hroutine, footing.backed.body hslot ?_⟩
    exact ClassRegistry.installed_of_mem_methodsOf (htable ▸ Table.mem_of_get? hroutine)

theorem mem_pendingFields (hfits : footing.Fits stage machine) {object : Object}
    {field : PendingField} (h : field ∈ machine.pendingFields object) :
    footing.classes.HasField field.key ∧
      ∀ routine, field.initializer = some routine → footing.classes.Initializes routine := by
  obtain ⟨found, hfound, h⟩ := List.mem_flatMap.mp h
  obtain ⟨cls, -, hget⟩ := List.mem_filterMap.mp hfound
  obtain ⟨⟨key, own⟩, hown, rfl⟩ := List.mem_map.mp h
  obtain ⟨index, hindex, heq⟩ := List.mem_mapIdx.mp (List.mem_filter.mp hown).1
  cases heq
  rw [hfits.sound.registry] at hget
  refine ⟨⟨found, ?_, hindex⟩, fun routine hroutine => ?_⟩
  · rw [footing.backed.composed.id hget, hget]
  · exact ⟨cls, found, _, hget, Table.mem_of_get? hroutine⟩

def discipline (footing : Footing) : Discipline Stage where
  toRegime := footing.regime
  permit := footing.permit
  entity stage := stage.outline.Names
  writable _ ref := footing.floor ≤ ref.address
  enter stage := { stage with depth := stage.depth + 1 }
  leave stage := { stage with depth := stage.depth - 1 }
  entity_mono hle := Outline.Names.mono hle.2
  writable_mono _ h := h
  writable_of_write hwrite := by rw [footing.floor_of_write hwrite]; omega
  call_of_write := footing.backed.call_of_write
  depth_fault := ⟨_, rfl⟩
  new_fault hfits hnew hmissing := by
    rw [contains_iff hfits, footing.backed.new hnew] at hmissing
    cases hmissing
  wear_fault hfits hwear hmissing := by
    rw [contains_iff hfits, footing.backed.wear.mp hwear] at hmissing
    cases hmissing
  enter_fits hfits _ := ⟨hfits.sound.congr rfl rfl rfl, by rw [hfits.depth], hfits.later,
    hfits.retains.congr rfl rfl rfl, hfits.served⟩
  leave_fits {stage next machine} hle hfits := by
    refine ⟨⟨?_, hle.2⟩, hfits.sound.congr rfl rfl rfl, by rw [hfits.depth], hfits.later,
      hfits.retains.congr rfl rfl rfl, hfits.served⟩
    have hdepth : stage.depth + 1 = next.depth := hle.1
    show stage.depth = next.depth - 1
    omega
  enter_entity h := h
  leave_entity h := h
  const_within hfits hconst := admits_iff.mpr ((footing.backed.const hconst).mono hfits.later)
  contents_within hfits hentity value hmem :=
    admits_iff.mpr ((hfits.sound.stored_sound hentity).contents value hmem)
  bound_within {_ machine target slot routine} hfits hslot hbound := by
    unfold boundRoutine? at hbound
    split at hbound
    case h_1 ref =>
      obtain ⟨object, hobject, htable⟩ := Option.bind_eq_some_iff.mp hbound
      exact footing.backed.body hslot
        (((hfits.sound.object_sound hobject).object rfl).installed htable)
    case h_2 => cases hbound
  initializer_within hfits _ hmem hroutine :=
    footing.backed.initializer ((mem_pendingFields hfits hmem).2 _ hroutine)
  pending_store hfits _ hmem := footing.backed.store.mpr (mem_pendingFields hfits hmem).1
  super_safe hfits hpermit := (safe_super hfits hpermit).mono (by
    rintro _ _ _ _ _ ⟨routine, rfl, hroutine⟩
    exact hroutine)
  newArray_safe := safe_newArray
  newMap_safe hfits := safe_fresh hfits sound_empty_map fun _ _ h => h
  newSet_safe hfits := safe_fresh hfits sound_empty_set fun _ _ h => h
  newSuggestion_fits hfits := hfits.congr rfl rfl rfl rfl rfl rfl
  clone_safe := safe_clone
  random_safe := safe_random
  initialize_safe hfits hfloor hkey hvalue := safe_initialize hfits hfloor hkey hvalue
  create_safe hfits hnew _ := safe_createObject hfits (footing.backed.new hnew)
  imply_safe hfits hwrite hwear _ := safe_imply hfits
    (by rw [footing.floor_of_write hwrite]; omega) (footing.backed.wear.mp hwear)
  extend_safe {_ _ _ cls _} hfits hwrite hwear _ _ _ := by
    refine safe_reshape hfits (by rw [footing.floor_of_write hwrite]; omega)
      fun object hobject other hmem => ?_
    rcases List.mem_append.mp hmem with hmem | hmem
    · exact ((hfits.sound.object_sound hobject).object rfl).worn other hmem
    · obtain rfl := List.mem_singleton.mp hmem
      exact footing.backed.wear.mp hwear
  retract_safe hfits hwrite := safe_reshape hfits
    (by rw [footing.floor_of_write hwrite]; omega) fun object hobject other hmem =>
      ((hfits.sound.object_sound hobject).object rfl).worn other (List.mem_filter.mp hmem).1
  writeField_safe hfits hwrite hkey hvalue := safe_writeField hfits hwrite hkey hvalue
  putElement_safe hfits hwrite hindex hvalue := safe_putElement hfits hwrite hindex hvalue
  addElement_safe hfits hwrite hvalue := safe_addElement hfits hwrite hvalue
  removeElement_safe hfits hwrite := safe_removeElement hfits hwrite

end Footing

end Attire
