import Attire.Proofs.Identifiers
import Attire.Proofs.Machine.Minting
import Attire.Proofs.Snapshot.Graphs

namespace Attire

open Machine

/-! The identifiers of what a restore makes: those of the snapshot, and those of what initializers
make for fields that the snapshot lacks. -/

namespace Restore

variable {start machine after : Machine} {keys : List String} {shells : Shells} {id : Id}
variable {value : Value}

/-- The entities that were made have the identifiers of the keys, and nothing was minted. -/
structure Numbered (start : Machine) (keys : List String) (shells : Shells) (machine : Machine) :
    Prop where
  odometer : machine.odometer = start.odometer
  ids : ∃ given, machine.heap.ids = start.heap.ids ++ given ∧ given.map Id.text = keys
  nodup : keys.Nodup
  entered {key : String} : shells.contains key ↔ key ∈ keys
  shell {key : String} {value : Value} : shells.get? key = some value →
    ∃ ref, value.ref? = some ref ∧ ref.id.text = key

namespace Numbered

theorem empty (start : Machine) : Numbered start [] ∅ start where
  odometer := rfl
  ids := ⟨[], (List.append_nil _).symm, rfl⟩
  nodup := .nil
  entered := ⟨nofun, nofun⟩
  shell := nofun

theorem add (h : Numbered start keys shells machine) (hnew : ¬shells.contains id.text)
    (hodometer : after.odometer = machine.odometer) (hids : after.heap.ids = machine.heap.ids ++ [id])
    {ref : Ref} (href : value.ref? = some ref) (hid : ref.id = id) :
    Numbered start (keys ++ [id.text]) (shells.insert id.text value) after where
  odometer := hodometer.trans h.odometer
  ids := by
    obtain ⟨given, hgiven, rfl⟩ := h.ids
    exact ⟨given ++ [id], by rw [hids, hgiven, List.append_assoc], List.map_append⟩
  nodup := by
    refine List.nodup_append.mpr ⟨h.nodup, List.nodup_singleton _, fun key hkey other hother => ?_⟩
    obtain rfl := List.mem_singleton.mp hother
    rintro rfl
    exact hnew (h.entered.mpr hkey)
  entered {key} := by
    rw [Table.contains, Table.get?_insert, List.mem_append, List.mem_singleton, ← h.entered]
    split <;> simp_all [Table.contains]
  shell {key _} hshell := by
    rw [Table.get?_insert] at hshell
    split at hshell
    case isTrue heq =>
      obtain rfl := Option.some.inj hshell
      exact ⟨ref, href, hid ▸ heq.symm⟩
    case isFalse => exact h.shell hshell

end Numbered

theorem parseId_yields (text : String) (machine : Machine) :
    Yields (parseId text) machine (fun id after => id.text = text ∧ after = machine)
      fun _ after => after = machine := by
  unfold parseId
  split
  case h_1 id hid => exact ⟨Id.text_of_ofText? hid, rfl⟩
  case h_2 => exact rfl

theorem findClass_yields (name : String) (machine : Machine) :
    Yields (findClass name) machine (fun _ after => after = machine) fun _ after => after = machine := by
  refine yields_bind.mpr (yields_get.mpr ?_)
  split <;> exact rfl

theorem addShell_yields (h : Numbered start keys shells machine) {key : String} {ref : Ref}
    (hkey : id.text = key) (href : value.ref? = some ref) (hid : ref.id = id)
    (hodometer : after.odometer = machine.odometer)
    (hids : after.heap.ids = machine.heap.ids ++ [id]) :
    Yields (addShell shells key value) after
      (fun shells next => Numbered start (keys ++ [key]) shells next)
      fun _ next => next.odometer = start.odometer := by
  subst hkey
  unfold addShell
  split
  case isTrue => exact hodometer.trans h.odometer
  case isFalse hnew => exact h.add hnew hodometer hids href hid

theorem objectShell_yields (key : String) (object : SnapObject) (machine : Machine) :
    Yields (objectShell key object) machine
      (fun ref after => ref.id.text = key ∧ after.odometer = machine.odometer ∧
        after.heap.ids = machine.heap.ids ++ [ref.id])
      fun _ after => after.odometer = machine.odometer := by
  have hsame : ∀ (halt : Halt) (after : Machine), after = machine →
      after.odometer = machine.odometer := by
    rintro _ _ rfl
    rfl
  refine yields_bind.mpr ((parseId_yields key machine).imp ?_ hsame)
  rintro id machine ⟨hid, rfl⟩
  refine yields_bind.mpr ((Yields.mapM (motive := (· = machine)) rfl ?_).imp ?_ hsame)
  · rintro name - _ rfl
    exact findClass_yields name _
  rintro worn _ rfl
  refine yields_bind.mpr (yields_modifyGet.mpr (yields_bind.mpr
    ((installManifest_tallies _ _).imp ?_ fun _ _ hfalse => hfalse.elim)))
  intro _ after htallies
  exact ⟨hid, htallies.odometer, htallies.ids.trans Heap.ids_alloc⟩

theorem objectShells_yields (objects : Ordered String SnapObject) (start : Machine) :
    Yields (objectShells objects) start (fun made after => Numbered start objects.keys made.1 after)
      fun _ after => after.odometer = start.odometer := by
  refine Yields.foldlM_done (motive := fun done (made : Shells × List (Ref × SnapObject)) after =>
    Numbered start (done.map Prod.fst) made.1 after) (.empty start) ?_
  rintro done ⟨key, object⟩ rest ⟨shells, objects⟩ machine - h
  refine yields_bind.mpr ((objectShell_yields key object machine).imp ?_
    fun _ _ hodometer => hodometer.trans h.odometer)
  rintro ref after ⟨hid, hodometer, hids⟩
  refine yields_bind.mpr ((addShell_yields h hid rfl rfl hodometer hids).imp ?_ fun _ _ h => h)
  intro shells next hnext
  rw [List.map_append]
  exact hnext

theorem containerShells_yields {α : Type} {empty : Entity} {make : Ref → Value}
    (hmake : ∀ ref, (make ref).ref? = some ref) (table : Ordered String α)
    (h : Numbered start keys shells machine) :
    Yields (containerShells empty make table shells) machine
      (fun shells after => Numbered start (keys ++ table.keys) shells after)
      fun _ after => after.odometer = start.odometer := by
  refine Yields.foldlM_done (motive := fun done shells after =>
    Numbered start (keys ++ done) shells after) ((List.append_nil keys).symm ▸ h) ?_
  rintro done key rest shells machine - h
  refine yields_bind.mpr ((parseId_yields key machine).imp ?_ ?_)
  · rintro id _ ⟨hid, rfl⟩
    refine yields_bind.mpr (yields_modifyGet.mpr ?_)
    rw [← List.append_assoc]
    exact addShell_yields h hid (hmake _) rfl rfl Heap.ids_alloc
  · rintro _ _ rfl
    exact h.odometer

theorem stock_yields (snapshot : Snapshot) (start : Machine) :
    Yields (stock snapshot) start (fun made after => Numbered start snapshot.keys made.1 after)
      fun _ after => after.odometer = start.odometer := by
  unfold stock
  refine yields_bind.mpr ((objectShells_yields snapshot.objects start).imp ?_ fun _ _ h => h)
  rintro ⟨shells₁, objects⟩ machine₁ h₁
  refine yields_bind.mpr ((containerShells_yields (fun _ => rfl) snapshot.arrays h₁).imp ?_
    fun _ _ h => h)
  intro shells₂ machine₂ h₂
  refine yields_bind.mpr ((containerShells_yields (fun _ => rfl) snapshot.maps h₂).imp ?_
    fun _ _ h => h)
  intro shells₃ machine₃ h₃
  exact yields_bind.mpr ((containerShells_yields (fun _ => rfl) snapshot.sets h₃).imp
    (fun _ _ h₄ => h₄) fun _ _ h => h)

end Restore

/-! Restores in an account. -/

namespace Account

variable {World : Type} [Preorder World] {account : Account World} {world : World}
variable {machine : Machine} {shells : Restore.Shells}

theorem safe_fault {α : Type} (h : account.fits world machine) {fault : SnapshotFault}
    {post : World → Machine → α → Prop} :
    account.Safe world (Restore.fault fault) machine post :=
  Regime.Safe.fail h (account.faulty _)

theorem safe_findClass (h : account.fits world machine) (name : String) :
    account.Safe world (Restore.findClass name) machine fun _ _ _ => True := by
  refine Regime.Safe.bind_get ?_
  split
  · exact Regime.Safe.pure h trivial
  · exact safe_fault h

/-! Shells are made under identifiers of the snapshot. -/

section

variable (hshell : ∀ {world : World} {machine : Machine} (id : Id) (entity : Entity),
  account.fits world machine →
    account.fits world { machine with heap := (machine.heap.alloc id entity).2 })

theorem safe_parseId (h : account.fits world machine) (text : String) :
    account.Safe world (Restore.parseId text) machine fun _ _ _ => True := by
  unfold Restore.parseId
  split
  · exact Regime.Safe.pure h trivial
  · exact safe_fault h

theorem safe_addShell (h : account.fits world machine) (shells : Restore.Shells) (id : String)
    (value : Value) :
    account.Safe world (Restore.addShell shells id value) machine fun _ _ _ => True := by
  unfold Restore.addShell
  split
  · exact safe_fault h
  · exact Regime.Safe.pure h trivial

include hshell

theorem safe_alloc (h : account.fits world machine) (id : Id) (entity : Entity) :
    account.Safe world (alloc id entity) machine fun _ _ _ => True :=
  Regime.Safe.modifyGet (le_refl world) (hshell id entity h) trivial

theorem safe_objectShell (h : account.fits world machine) (id : String) (object : SnapObject) :
    account.Safe world (Restore.objectShell id object) machine fun _ _ _ => True := by
  unfold Restore.objectShell
  refine Regime.Safe.bind (safe_parseId h id) fun _ _ fresh _ h _ => ?_
  refine Regime.Safe.bind (Regime.Safe.mapM (fun _ _ => True) (fun _ _ => trivial) h
    fun name _ _ _ _ h => safe_findClass h name) fun _ _ worn _ h _ => ?_
  refine Regime.Safe.bind (safe_alloc hshell h fresh _) fun _ _ ref _ h _ => ?_
  exact Regime.Safe.bind (safe_installManifest h ref) fun _ _ _ _ h _ => Regime.Safe.pure h trivial

theorem safe_containerShells {α : Type} (h : account.fits world machine) (empty : Entity)
    (make : Ref → Value) (table : Ordered String α) (shells : Restore.Shells) :
    account.Safe world (Restore.containerShells empty make table shells) machine
      fun _ _ _ => True := by
  refine Regime.Safe.foldlM h trivial fun id _ shells _ _ _ h _ => ?_
  refine Regime.Safe.bind (safe_parseId h id) fun _ _ fresh _ h _ => ?_
  exact Regime.Safe.bind (safe_alloc hshell h fresh empty) fun _ _ _ _ h _ =>
    safe_addShell h shells id _

theorem safe_stock (h : account.fits world machine) (snapshot : Snapshot) :
    account.Safe world (Restore.stock snapshot) machine fun _ _ _ => True := by
  unfold Restore.stock
  refine Regime.Safe.bind (Regime.Safe.foldlM (motive := fun _ _ => True) h trivial
    fun item _ current _ _ _ h _ => ?_) fun _ _ _ _ h _ => ?_
  · refine Regime.Safe.bind (safe_objectShell hshell h item.1 item.2) fun _ _ ref _ h _ => ?_
    exact Regime.Safe.bind (safe_addShell h current.1 item.1 (.object ref)) fun _ _ _ _ h _ =>
      Regime.Safe.pure h trivial
  · refine Regime.Safe.bind (safe_containerShells hshell h ..) fun _ _ _ _ h _ => ?_
    refine Regime.Safe.bind (safe_containerShells hshell h ..) fun _ _ _ _ h _ => ?_
    exact Regime.Safe.bind (safe_containerShells hshell h ..) fun _ _ _ _ h _ =>
      Regime.Safe.pure h trivial

end

/-! What is stored in the shells brings nothing about. -/

mutual

theorem safe_value : ∀ (content : SnapValue) {world : World} {machine : Machine},
    account.fits world machine →
    account.Safe world (Restore.value shells content) machine fun _ _ _ => True
  | .null, _, _, h | .num _, _, _, h | .bool _, _, _, h | .text _, _, _, h =>
    Regime.Safe.pure h trivial
  | .ref id, _, _, h => by
    unfold Restore.value
    split
    · exact Regime.Safe.pure h trivial
    · exact safe_fault h
  | .tuple items, _, _, h => Regime.Safe.map ((safe_values items h).mono fun _ _ _ _ _ h => h)
  | .suggestion steps, _, _, h => Regime.Safe.bind (safe_stepsOf steps h) fun world _ _ _ h _ =>
    Regime.Safe.modifyGet (le_refl world) (account.congr h ⟨rfl, rfl, rfl, rfl⟩) trivial

theorem safe_values : ∀ (contents : List SnapValue) {world : World} {machine : Machine},
    account.fits world machine →
    account.Safe world (Restore.values shells contents) machine fun _ _ _ => True
  | [], _, _, h => Regime.Safe.pure h trivial
  | content :: rest, _, _, h => Regime.Safe.bind (safe_value content h) fun _ _ _ _ h _ =>
    Regime.Safe.bind (safe_values rest h) fun _ _ _ _ h _ => Regime.Safe.pure h trivial

theorem safe_step : ∀ (content : SnapStep) {world : World} {machine : Machine},
    account.fits world machine →
    account.Safe world (Restore.step shells content) machine fun _ _ _ => True
  | .extend target cls, _, _, h | .retract target cls, _, _, h =>
    Regime.Safe.bind (safe_value target h) fun _ _ _ _ h _ =>
      Regime.Safe.map ((safe_findClass h cls).mono fun _ _ _ _ _ h => h)
  | .call target caller origin _ args, _, _, h =>
    Regime.Safe.bind (safe_value target h) fun _ _ _ _ h _ =>
      Regime.Safe.bind (safe_value caller h) fun _ _ _ _ h _ =>
        Regime.Safe.bind (safe_findClass h origin) fun _ _ _ _ h _ =>
          Regime.Safe.map ((safe_values args h).mono fun _ _ _ _ _ h => h)

theorem safe_stepsOf : ∀ (contents : List SnapStep) {world : World} {machine : Machine},
    account.fits world machine →
    account.Safe world (Restore.stepsOf shells contents) machine fun _ _ _ => True
  | [], _, _, h => Regime.Safe.pure h trivial
  | content :: rest, _, _, h => Regime.Safe.bind (safe_step content h) fun _ _ _ _ h _ =>
    Regime.Safe.bind (safe_stepsOf rest h) fun _ _ _ _ h _ => Regime.Safe.pure h trivial

end

/-- Contents are stored in the shell of an entity, if there is one. -/
theorem safe_replace (h : account.fits world machine) (ref? : Option Ref)
    {change : Ref → Heap → Heap}
    (hids : ∀ ref, (change ref machine.heap).ids = machine.heap.ids) :
    account.Safe world
      (match ref? with
      | some ref => onHeap (change ref)
      | none => pure ⟨⟩) machine fun _ _ _ => True := by
  split
  · exact safe_onHeap h (hids _)
  · exact Regime.Safe.pure h trivial

theorem safe_fillField (h : account.fits world machine) (ref : Ref) (key : String)
    (content : SnapValue) :
    account.Safe world (Restore.fillField shells ref key content) machine
      fun _ _ _ => True := by
  unfold Restore.fillField
  split
  case h_2 => exact safe_fault h
  case h_1 name _ _ =>
    refine Regime.Safe.bind (safe_findClass h name) fun _ _ _ _ h _ => Regime.Safe.bind_get ?_
    split
    case h_2 => exact safe_fault h
    case h_1 =>
      exact Regime.Safe.bind (safe_value content h) fun _ _ _ _ h _ =>
        safe_onHeap h (Heap.ids_modifyObject ..)

theorem safe_fill (h : account.fits world machine) (objects : List (Ref × SnapObject))
    (snapshot : Snapshot) :
    account.Safe world (Restore.fill shells objects snapshot) machine
      fun _ _ _ => True := by
  unfold Restore.fill
  refine Regime.Safe.bind (Regime.Safe.forM h fun _ _ _ _ _ h => Regime.Safe.forM h
    fun _ _ _ _ _ h => safe_fillField h _ _ _) fun _ _ _ _ h _ => ?_
  refine Regime.Safe.bind (Regime.Safe.forM h fun _ _ _ _ _ h => ?_) fun _ _ _ _ h _ => ?_
  · exact Regime.Safe.bind (safe_values _ h) fun _ _ _ _ h _ =>
      safe_replace h _ fun ref => Heap.ids_modifyArray ..
  refine Regime.Safe.bind (Regime.Safe.forM h fun _ _ _ _ _ h => ?_) fun _ _ _ _ h _ => ?_
  · refine Regime.Safe.bind (Regime.Safe.mapM (fun _ _ => True) (fun _ _ => trivial) h
      fun _ _ _ _ _ h => ?_) fun _ _ _ _ h _ => safe_replace h _ fun ref => Heap.ids_modifyMap ..
    exact Regime.Safe.bind (safe_value _ h) fun _ _ _ _ h _ =>
      Regime.Safe.bind (safe_value _ h) fun _ _ _ _ h _ => Regime.Safe.pure h trivial
  · exact Regime.Safe.forM h fun _ _ _ _ _ h => Regime.Safe.bind (safe_values _ h)
      fun _ _ _ _ h _ => safe_replace h _ fun ref => Heap.ids_modifySet ..

end Account

theorem Tally.safe_missing {World : Type} [Preorder World] {tally : Tally World} {world : World}
    {machine : Machine} (h : tally.fits world machine) (steps : Nat)
    (objects : List (Ref × SnapObject)) :
    tally.Safe world (objects.forM fun entry => initializeMissing steps entry.1) machine
      fun _ _ _ => True :=
  Regime.Safe.forM h fun _ _ _ _ _ h =>
    (tally.discipline.keeps steps).initializeMissing h trivial trivial

/-! The end of a restore. -/

namespace Odometer

/-- The identifier was minted before the odometer moved on to the second state.  Only minting
counts, also when the odometer was advanced in the end. -/
def Spends (before after : Odometer) (id : Id) : Prop :=
  before.peek ≤ id ∧ id.number + before.minted < before.upcoming + after.minted

end Odometer

/-- The odometer is past the identifiers of the places. -/
structure Machine.Advances (places : List Ref) (before after : Machine) : Prop where
  heap : after.heap = before.heap
  minted : after.odometer.minted = before.odometer.minted
  upcoming : before.odometer.upcoming ≤ after.odometer.upcoming
  past : ∀ ref ∈ places, ref.id < after.odometer.peek

theorem Machine.advance_yields (places : List Ref) (before : Machine) :
    Yields (places.forM fun ref =>
      (modify fun machine => { machine with odometer := machine.odometer.advancePast ref.id } :
        Run PUnit)) before (fun _ after => before.Advances places after) fun _ _ => False := by
  refine (Yields.forM (motive := fun rest after => ∃ done, places = done ++ rest ∧
    before.Advances done after) ⟨[], rfl, rfl, rfl, le_refl _, nofun⟩ ?_).imp ?_ fun _ _ h => h
  · rintro ref rest machine ⟨done, rfl, h⟩
    have hupcoming : machine.odometer.upcoming ≤ (machine.odometer.advancePast ref.id).upcoming :=
      Odometer.upcoming_le_advancePast
    refine ⟨done ++ [ref], by simp, h.heap, Odometer.minted_advancePast.trans h.minted,
      h.upcoming.trans hupcoming, fun other hmem => ?_⟩
    rcases List.mem_append.mp hmem with hmem | hmem
    · exact lt_of_lt_of_le (Id.lt_iff.mp (h.past other hmem)) hupcoming
    · obtain rfl := List.mem_singleton.mp hmem
      exact Odometer.lt_peek_advancePast
  · rintro _ after ⟨done, heq, h⟩
    rw [List.append_nil] at heq
    exact heq ▸ h

/-- The identifiers that a restore brings back and those that were minted meanwhile. -/
structure Machine.Renumbers (snapshot : Snapshot) (before after : Machine) : Prop where
  upcoming : before.odometer.upcoming ≤ after.odometer.upcoming
  nodup : snapshot.keys.Nodup
  past {id : Id} : id.text ∈ snapshot.keys → id < after.odometer.peek
  ids : ∃ given fresh, after.heap.ids = before.heap.ids ++ (given ++ fresh) ∧
    given.map Id.text = snapshot.keys ∧ fresh.Pairwise (· < ·) ∧
    ∀ id ∈ fresh, id < after.odometer.peek ∧ before.odometer.Spends after.odometer id

theorem Restore.Numbered.renumbers {before stocked machine after : Machine}
    {shells : Restore.Shells} {snapshot : Snapshot}
    (h : Restore.Numbered before snapshot.keys shells stocked) (hmints : stocked.Mints machine)
    (hadvances : machine.Advances (shells.values.filterMap Value.ref?) after) :
    before.Renumbers snapshot after where
  upcoming := by
    rw [← h.odometer]
    exact hmints.upcoming.trans hadvances.upcoming
  nodup := h.nodup
  past {id} hid := by
    obtain ⟨value, hvalue⟩ := Option.isSome_iff_exists.mp (h.entered.mpr hid)
    obtain ⟨ref, href, htext⟩ := h.shell hvalue
    have hmem : ref ∈ shells.values.filterMap Value.ref? :=
      List.mem_filterMap.mpr ⟨value, List.mem_map.mpr ⟨_, Table.mem_of_get? hvalue, rfl⟩, href⟩
    exact Id.text_injective htext ▸ hadvances.past ref hmem
  ids := by
    obtain ⟨given, hgiven, htexts⟩ := h.ids
    obtain ⟨fresh, hids, hsorted, hfresh⟩ := hmints.ids
    refine ⟨given, fresh, ?_, htexts, hsorted, fun id hmem => ?_⟩
    · rw [hadvances.heap, hids, hgiven, List.append_assoc]
    · obtain ⟨hlow, hhigh⟩ := hfresh id hmem
      have hcount := hmints.minted
      rw [h.odometer] at hlow hcount
      rw [← hadvances.minted] at hcount
      rw [Id.lt_iff] at hhigh
      have hhigh' : id.number < machine.odometer.upcoming := hhigh
      exact ⟨lt_of_lt_of_le hhigh' hadvances.upcoming, hlow, by omega⟩

theorem Machine.restore_renumbers (steps : Nat) (snapshot : Snapshot) (before : Machine) :
    Yields (restore steps snapshot) before (fun _ after => before.Renumbers snapshot after)
      fun halt after => ∀ error, halt = .error error →
        before.odometer.upcoming ≤ after.odometer.upcoming := by
  rw [restore_eq]
  refine yields_bind.mpr ((Restore.stock_yields snapshot before).imp ?_
    fun _ _ hodometer _ _ => hodometer ▸ le_refl _)
  rintro ⟨shells, objects⟩ stocked h
  have hstocked : (Ledger.tally stocked).fits .only stocked := .refl stocked
  have hfails : ∀ (halt : Halt) (after : Machine), (∀ error, halt = .error error →
      True ∧ ∃ world, Ledger.World.only ≤ world ∧ stocked.Mints after) → ∀ error, halt = .error error →
      before.odometer.upcoming ≤ after.odometer.upcoming := by
    intro halt after herror error heq
    obtain ⟨-, -, -, hmints⟩ := herror error heq
    exact h.odometer ▸ hmints.upcoming
  refine yields_bind.mpr ((Account.safe_fill hstocked objects snapshot).imp ?_ hfails)
  rintro _ filled ⟨_, -, hfilled, -⟩
  refine yields_bind.mpr ((Account.safe_value snapshot.root hfilled).imp ?_ hfails)
  rintro root machine ⟨_, -, hmachine, -⟩
  refine yields_bind.mpr ((Tally.safe_missing hmachine steps objects).imp ?_ hfails)
  rintro _ complete ⟨_, -, hcomplete, -⟩
  exact yields_bind.mpr ((advance_yields _ complete).imp
    (fun _ _ hadvances => yields_pure.mpr (h.renumbers hcomplete hadvances))
    fun _ _ hfalse => hfalse.elim)

end Attire
