import Attire.Proofs.Host.Effects
import Attire.Proofs.Import.Moves
import Attire.Proofs.Snapshot.Numbering

namespace Attire

open Machine

/-! Entities that are in use at the same time have different identifiers. -/

/-- What a host may do with a machine, apart from restoring.  It may pass any values. -/
inductive Machine.Ordinary : {α : Type} → Run α → Prop
  | advanceTick : Ordinary advanceTick
  | mint : Ordinary mint
  | drawRandom (ref : Ref) : Ordinary (drawRandom ref)
  | defaultValue (constructed : Bool) (ty : Ty) : Ordinary (defaultValue constructed ty)
  | newArray (items : Array Value) : Ordinary (newArray items)
  | newMap : Ordinary newMap
  | newSet : Ordinary newSet
  | newSuggestion (steps : List Step) : Ordinary (newSuggestion steps)
  | cloneValue (value : Value) : Ordinary (cloneValue value)
  | replaceItems (ref : Ref) (items : Array Value) :
      Ordinary (onHeap fun heap => heap.modifyArray ref fun _ => items)
  | putElement (container index value : Value) (kind : IndexKind) :
      Ordinary (onHeap fun heap => heap.putElement container kind index value)
  | addElement (container value : Value) : Ordinary (onHeap fun heap => heap.addElement container value)
  | removeElement (container : Value) (key : MapKey) :
      Ordinary (onHeap fun heap => heap.removeElement container key)
  | instantiate (steps : Nat) (cls : ClassId) : Ordinary (instantiate steps cls)
  | extend (steps : Nat) (ref : Ref) (cls : ClassId) : Ordinary (extend steps ref cls)
  | retract (steps : Nat) (ref : Ref) (cls : ClassId) : Ordinary (retract steps ref cls)
  | enforce (steps : Nat) (batch : List Step) : Ordinary (enforce steps batch)
  | invoke (steps : Nat) (routine : Routine) (this caller : Value) (args : List Value) :
      Ordinary (invoke steps routine this caller args)
  | dispatch (steps : Nat) (target caller : Value) (args : List Value) (slot : MethodSlot) (ret : Ty) :
      Ordinary (dispatch steps target slot caller args ret)
  | call (steps : Nat) (ref : Ref) (caller : Value) (args : List Value) (name : String) :
      Ordinary (call steps ref name caller args)

/-- Nothing is made without an identifier that is minted for it. -/
theorem Machine.Ordinary.mints {α : Type} {action : Run α} (h : Ordinary action) (machine : Machine) :
    Yields action machine (fun _ after => machine.Mints after)
      fun halt after => ∀ error, halt = .error error → machine.Mints after := by
  have hrefl : machine.Mints machine := .refl machine
  have hfits : (Ledger.tally machine).fits .only machine := hrefl
  have hkeeps := (Ledger.tally machine).discipline.keeps
  have hsafe : ∀ {β : Type} {run : Run β} {post : Ledger.World → Machine → β → Prop},
      (Ledger.tally machine).Safe .only run machine post →
      Yields run machine (fun _ after => machine.Mints after)
        fun halt after => ∀ error, halt = .error error → machine.Mints after := by
    intro β run post hrun
    refine Yields.imp hrun ?_ ?_
    · exact fun _ _ ⟨_, _, hmints, _⟩ => hmints
    · exact fun _ _ herror error heq => let ⟨_, _, _, hmints⟩ := herror error heq; hmints
  cases h with
  | advanceTick | newSuggestion => exact yields_modifyGet.mpr (hrefl.congr rfl rfl)
  | mint => exact yields_modifyGet.mpr hrefl.mint
  | drawRandom ref => exact hsafe (Account.safe_random hfits ref)
  | defaultValue constructed ty =>
    exact hsafe ((Ledger.tally machine).discipline.safe_defaultValue constructed ty hfits)
  | newArray items => exact hsafe (Tally.safe_fresh hfits _ _)
  | newMap => exact hsafe (Tally.safe_fresh hfits _ _)
  | newSet => exact hsafe (Tally.safe_fresh hfits _ _)
  | cloneValue value => exact hsafe (Tally.safe_clone hfits value)
  | replaceItems => exact yields_modify.mpr (hrefl.congr rfl (Heap.ids_modifyArray ..))
  | putElement => exact yields_modify.mpr (hrefl.congr rfl Heap.ids_putElement)
  | addElement => exact yields_modify.mpr (hrefl.congr rfl Heap.ids_addElement)
  | removeElement => exact yields_modify.mpr (hrefl.congr rfl Heap.ids_removeElement)
  | instantiate steps cls => exact hsafe ((hkeeps steps).instantiate hfits trivial)
  | extend steps ref cls => exact hsafe ((hkeeps steps).extend hfits trivial trivial trivial)
  | retract steps ref cls => exact hsafe ((hkeeps steps).retract hfits trivial trivial)
  | enforce steps batch =>
    exact hsafe ((hkeeps steps).enforce hfits trivial fun step _ => step.within_all)
  | invoke steps routine this caller args =>
    exact hsafe ((hkeeps steps).invoke hfits (Instr.allWithin_all _) this.within_all
      caller.within_all fun arg _ => arg.within_all)
  | dispatch steps target caller args slot ret =>
    exact hsafe ((hkeeps steps).dispatch hfits trivial target.within_all caller.within_all
      fun arg _ => arg.within_all)
  | call steps ref caller args name =>
    exact hsafe (Tally.safe_call hfits steps ref name caller args)

/-- The identifiers of what was made in between. -/
def Machine.made (before after : Machine) : List Id :=
  after.heap.ids.drop before.heap.ids.length

namespace Workspace

/-- A workspace with the identifiers of the entities in use, and of all that ever were in use.
Entities go out of use at any time; those that a failed restore made never come into use. -/
inductive Lives (options : Options) (sources : Sources) : Workspace → List Id → List Id → Prop
  | start : Lives options sources (ofSources options sources) [] []
  | imported {workspace next : Workspace} {live past : List Id} {url : String} {id : ModuleId} :
      Lives options sources workspace live past → importModule url workspace = .ok id next →
      Lives options sources next (live ++ workspace.machine.made next.machine)
        (past ++ workspace.machine.made next.machine)
  | refused {workspace next : Workspace} {live past : List Id} {url : String}
      {error : ImportError} :
      Lives options sources workspace live past → importModule url workspace = .error error next →
      Lives options sources next (live ++ workspace.machine.made next.machine)
        (past ++ workspace.machine.made next.machine)
  | answered {workspace : Workspace} {live past : List Id} {α : Type} {action : Run α} {answer : α}
      {machine : Machine} :
      Lives options sources workspace live past → Machine.Ordinary action →
      action workspace.machine = .ok answer machine →
      Lives options sources { workspace with machine } (live ++ workspace.machine.made machine)
        (past ++ workspace.machine.made machine)
  | failed {workspace : Workspace} {live past : List Id} {α : Type} {action : Run α}
      {error : RuntimeError} {machine : Machine} :
      Lives options sources workspace live past → Machine.Ordinary action →
      action workspace.machine = .error (.error error) machine →
      Lives options sources { workspace with machine } (live ++ workspace.machine.made machine)
        (past ++ workspace.machine.made machine)
  | restored {workspace : Workspace} {live past : List Id} {steps : Nat} {snapshot : Snapshot}
      {root : Value} {machine : Machine} :
      Lives options sources workspace live past →
      Machine.restore steps snapshot workspace.machine = .ok root machine →
      (∀ id : Id, id.text ∈ snapshot.keys →
        id ∉ live ∧ ¬workspace.machine.odometer.Spends machine.odometer id) →
      Lives options sources { workspace with machine } (live ++ workspace.machine.made machine)
        (past ++ workspace.machine.made machine)
  | unrestored {workspace : Workspace} {live past : List Id} {steps : Nat} {snapshot : Snapshot}
      {error : RuntimeError} {machine : Machine} :
      Lives options sources workspace live past →
      Machine.restore steps snapshot workspace.machine = .error (.error error) machine →
      Lives options sources { workspace with machine } live past
  | dropped {workspace : Workspace} {live past kept : List Id} :
      Lives options sources workspace live past → kept.Sublist live →
      Lives options sources workspace kept past

end Workspace

/-- No two entities in use share an identifier, and no identifier that ever was in use will be
minted. -/
structure Odometer.Tells (odometer : Odometer) (live past : List Id) : Prop where
  nodup : live.Nodup
  recalled : live ⊆ past
  below : ∀ id ∈ past, id < odometer.peek

theorem Odometer.Tells.grow {odometer next : Odometer} {live past made : List Id}
    (h : odometer.Tells live past) (hupcoming : odometer.upcoming ≤ next.upcoming)
    (hmade : made.Nodup) (hfresh : ∀ id ∈ made, id ∉ live) (hbelow : ∀ id ∈ made, id < next.peek) :
    next.Tells (live ++ made) (past ++ made) where
  nodup := List.nodup_append.mpr ⟨h.nodup, hmade, fun a ha b hb heq => hfresh b hb (heq ▸ ha)⟩
  recalled := List.append_subset.mpr ⟨List.Subset.trans h.recalled (List.subset_append_left _ _),
    List.subset_append_right _ _⟩
  below id hmem := by
    rcases List.mem_append.mp hmem with hmem | hmem
    · exact lt_of_lt_of_le (Id.lt_iff.mp (h.below id hmem)) hupcoming
    · exact hbelow id hmem

theorem Machine.Mints.tells {before after : Machine} {live past : List Id}
    (h : before.Mints after) (htells : before.odometer.Tells live past) :
    after.odometer.Tells (live ++ before.made after) (past ++ before.made after) := by
  obtain ⟨fresh, hids, hsorted, hfresh⟩ := h.ids
  have hmade : before.made after = fresh := by rw [made, hids, List.drop_left]
  rw [hmade]
  refine htells.grow h.upcoming (hsorted.imp fun hlt heq => ?_) (fun id hmem hlive => ?_)
    fun id hmem => (hfresh id hmem).2
  · exact absurd (heq ▸ hlt) (Nat.lt_irrefl _)
  · have hpast := htells.below id (htells.recalled hlive)
    exact absurd (hfresh id hmem).1 (Nat.not_le_of_lt hpast)

theorem Machine.Renumbers.tells {snapshot : Snapshot} {before after : Machine}
    {live past : List Id} (h : before.Renumbers snapshot after)
    (htells : before.odometer.Tells live past)
    (hapart : ∀ id : Id, id.text ∈ snapshot.keys →
      id ∉ live ∧ ¬before.odometer.Spends after.odometer id) :
    after.odometer.Tells (live ++ before.made after) (past ++ before.made after) := by
  obtain ⟨given, fresh, hids, htexts, hsorted, hfresh⟩ := h.ids
  have hmade : before.made after = given ++ fresh := by rw [made, hids, List.drop_left]
  have hgiven : ∀ id ∈ given, id.text ∈ snapshot.keys := fun id hmem =>
    htexts ▸ List.mem_map.mpr ⟨id, hmem, rfl⟩
  rw [hmade]
  refine htells.grow h.upcoming ?_ (fun id hmem => ?_) fun id hmem => ?_
  · refine List.nodup_append.mpr ⟨?_, hsorted.imp fun hlt heq => ?_, fun a ha b hb heq => ?_⟩
    · exact List.Nodup.of_map Id.text (htexts ▸ h.nodup)
    · exact absurd (heq ▸ hlt) (Nat.lt_irrefl _)
    · exact (hapart a (hgiven a ha)).2 (heq ▸ (hfresh b hb).2)
  · rcases List.mem_append.mp hmem with hmem | hmem
    · exact (hapart id (hgiven id hmem)).1
    · intro hlive
      exact absurd (hfresh id hmem).2.1 (Nat.not_le_of_lt (htells.below id (htells.recalled hlive)))
  · rcases List.mem_append.mp hmem with hmem | hmem
    · exact h.past (hgiven id hmem)
    · exact (hfresh id hmem).1

namespace Workspace

variable {options : Options} {sources : Sources} {workspace : Workspace} {live past : List Id}

/-- Entities in use have different identifiers, and what ever was in use is never minted again, as
long as restores only bring back identifiers that are not in use and that are not minted meanwhile
for fields which the snapshot lacks. -/
theorem ids_distinct (h : Lives options sources workspace live past) :
    live.Nodup ∧ live ⊆ past ∧ ∀ id ∈ past, id < workspace.machine.odometer.peek := by
  have htells : workspace.machine.odometer.Tells live past := by
    induction h with
    | start => exact ⟨.nil, List.nil_subset _, nofun⟩
    | imported _ himport ih => exact ((Minting.importModule _ _).of_ok himport).tells ih
    | refused _ himport ih => exact ((Minting.importModule _ _).of_error himport).tells ih
    | answered _ hordinary hrun ih => exact ((hordinary.mints _).of_ok hrun).tells ih
    | failed _ hordinary hrun ih => exact ((hordinary.mints _).of_error hrun _ rfl).tells ih
    | restored _ hrun hapart ih => exact ((restore_renumbers _ _ _).of_ok hrun).tells ih hapart
    | unrestored _ hrun ih =>
      have hupcoming := (restore_renumbers _ _ _).of_error hrun _ rfl
      exact ⟨ih.nodup, ih.recalled, fun id hmem =>
        lt_of_lt_of_le (Id.lt_iff.mp (ih.below id hmem)) hupcoming⟩
    | dropped _ hkept ih =>
      exact ⟨ih.nodup.sublist hkept, List.Subset.trans hkept.subset ih.recalled, ih.below⟩
  exact ⟨htells.nodup, htells.recalled, htells.below⟩

/-- A die whose field is missing. -/
def spareDie : Snapshot where
  root := .ref "5"
  objects := ⟨[("5", { classes := ["weft:core#Object"] })]⟩

set_option maxRecDepth 100000 in
theorem spare_die_numbered :
    ((firstObject? diceSources diceTree 9 ⟨0⟩).bind fun (_, after) =>
      (reached? (Machine.restore 9 spareDie) after).map fun (_, last) =>
        (after.heap.ids, after.odometer, last.heap.ids, last.odometer)) =
    some ([⟨0⟩], ⟨1, 1⟩, [⟨0⟩, ⟨5⟩], ⟨6, 1⟩) := by
  cbv

theorem spare_die_distinct : ∃ workspace live past, Lives {} diceSources workspace live past ∧
    ⟨5⟩ ∈ live ∧ live.Nodup ∧ live ⊆ past ∧ ∀ id ∈ past, id < workspace.machine.odometer.peek := by
  obtain ⟨⟨ref, after⟩, hdie, hrest⟩ := Option.bind_eq_some_iff.mp spare_die_numbered
  obtain ⟨⟨root, last⟩, hrestore, hnumbers⟩ := Option.map_eq_some_iff.mp hrest
  simp only [Prod.mk.injEq] at hnumbers
  obtain ⟨hids, hodometer, hids', hodometer'⟩ := hnumbers
  obtain ⟨_, next, himport, hrun⟩ := imported_of_firstObject rfl dice_tree rfl hdie
  obtain ⟨live, past, hlives⟩ : ∃ live past,
      Lives {} diceSources { next with machine := after } live past :=
    ⟨_, _, .answered (.imported .start himport) (.instantiate 9 ⟨0⟩) hrun⟩
  obtain ⟨-, hrecalled, hpast⟩ := ids_distinct hlives
  have hapart : ∀ id : Id, id.text ∈ spareDie.keys →
      id ∉ live ∧ ¬after.odometer.Spends last.odometer id := by
    intro id hid
    obtain rfl : id = ⟨5⟩ := Id.text_injective (List.mem_singleton.mp hid)
    refine ⟨fun hlive => ?_, fun hspends => ?_⟩
    · have hbelow := hpast _ (hrecalled hlive)
      rw [hodometer] at hbelow
      exact absurd hbelow (by decide)
    · have hminted := hspends.2
      rw [hodometer, hodometer'] at hminted
      exact absurd hminted (by decide)
  have hspare := hlives.restored (reached?_eq_some.mp hrestore) hapart
  refine ⟨_, _, _, hspare, List.mem_append_right _ ?_, ids_distinct hspare⟩
  rw [made, hids, hids']
  exact List.mem_singleton_self _

end Workspace

end Attire
