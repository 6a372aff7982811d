import Attire.Proofs.Host.Reshaping

namespace Attire

open Machine Workspace

/-! What objects are like after their turns in putting classes on, or in taking them off. -/

/-- The object wears the classes, and stores what it stored of the classes that it still is. -/
structure Object.Becomes (classes : ClassRegistry) (worn : List ClassId) (object after : Object) :
    Prop where
  wears : after.worn = worn
  keeps {key : FieldKey} {value : Value} : object.fields.get? key = some value →
    key.owner ∈ classes.manifest worn → after.fields.get? key = some value

section

variable {classes : ClassRegistry} {worn worn' : List ClassId} {object after last : Object}

theorem Object.Rewears.becomes (h : object.Rewears classes worn after) :
    object.Becomes classes worn after where
  wears := h.wears
  keeps {key value} hvalue howner := by
    obtain ⟨gained, hstores, -⟩ := h.stores
    have hkept : (object.retained classes worn).get? key = some value := by
      rw [Object.retained, Table.get?_restrict, if_pos (decide_eq_true howner)]
      exact hvalue
    rw [Table.get?, hstores]
    exact Table.find_append hkept

/-- What is stored in the end was stored in between: nothing was taken off before, or nothing is put
on after. -/
theorem Object.Becomes.trans (h : object.Becomes classes worn after)
    (h' : after.Becomes classes worn' last) (hcoherent : object.Coherent classes)
    (hsteady : object.worn ⊆ worn ∨ worn' ⊆ worn) : object.Becomes classes worn' last where
  wears := h'.wears
  keeps {key value} hvalue howner := by
    refine h'.keeps (h.keeps hvalue ?_) howner
    rcases hsteady with hgrown | hshrunk
    · have hkey : key ∈ object.fields.keys :=
        List.mem_map.mpr ⟨(key, value), Table.mem_of_get? hvalue, rfl⟩
      exact ClassRegistry.manifest_mono hgrown (hcoherent.manifest ▸ (hcoherent.fields key hkey).1)
    · exact ClassRegistry.manifest_mono hshrunk howner

end

/-! A pass over a batch puts on or takes off one class after the other. -/

/-- The classes that are put on the object or taken off it, in that order. -/
def turnsOf (turns : List (Ref × ClassId)) (ref : Ref) : List ClassId :=
  (turns.filter fun turn => turn.1 = ref).map Prod.snd

/-- What the object wears after its turns. -/
def dressed (change : List ClassId → ClassId → List ClassId) (turns : List (Ref × ClassId))
    (ref : Ref) (worn : List ClassId) : List ClassId :=
  (turnsOf turns ref).foldl change worn

section

variable {change : List ClassId → ClassId → List ClassId} {ref : Ref} {cls : ClassId}
variable {turns more : List (Ref × ClassId)} {worn : List ClassId}

theorem mem_turnsOf : cls ∈ turnsOf turns ref ↔ (ref, cls) ∈ turns := by
  simp [turnsOf]

theorem dressed_append : dressed change (turns ++ more) ref worn =
    dressed change more ref (dressed change turns ref worn) := by
  rw [dressed, turnsOf, List.filter_append, List.map_append, List.foldl_append]
  rfl

theorem dressed_single (turn : Ref × ClassId) :
    dressed change [turn] ref worn = if turn.1 = ref then change worn turn.2 else worn := by
  rw [dressed, turnsOf, List.filter_cons]
  by_cases h : turn.1 = ref <;> simp [h]

theorem dressed_donned : dressed donned turns ref worn =
    worn ++ ((turnsOf turns ref).filter (· ∉ worn)).eraseDups := by
  unfold dressed
  induction turnsOf turns ref generalizing worn with
  | nil => simp
  | cons cls rest ih =>
    rw [List.foldl_cons, ih, donned]
    split
    case isTrue hworn => simp [hworn]
    case isFalse hnew =>
      have hrest : rest.filter (· ∉ worn ++ [cls]) =
          (rest.filter (· ∉ worn)).filter fun other => !other == cls := by
        rw [List.filter_filter]
        refine List.filter_congr fun other _ => ?_
        by_cases h : other = cls <;> simp [h]
      rw [List.filter_cons_of_pos (by simpa using hnew), List.eraseDups_cons, hrest,
        List.append_assoc, List.singleton_append]

theorem dressed_doffed : dressed doffed turns ref worn = worn.filter (· ∉ turnsOf turns ref) := by
  unfold dressed
  induction turnsOf turns ref generalizing worn with
  | nil => simp
  | cons cls rest ih =>
    rw [List.foldl_cons, ih, doffed, List.filter_filter]
    refine List.filter_congr fun other _ => ?_
    by_cases h : other = cls <;> simp [h]

end

/-- Objects store what they stored of the classes that they still are. -/
def Machine.KeepsFields (before after : Machine) : Prop :=
  ∀ ref object, before.Knows (.object ref) → before.heap.object? ref = some object →
    ∃ object', after.heap.object? ref = some object' ∧
      ∀ key value, object.fields.get? key = some value → key.owner ∈ object'.manifest →
        object'.fields.get? key = some value

theorem Machine.Undisturbed.keepsFields {before after : Machine} (h : before.Undisturbed after) :
    before.KeepsFields after := by
  intro ref object _ hobject
  obtain ⟨random, hafter⟩ := h.object hobject
  exact ⟨_, hafter, fun key value hvalue _ => hvalue⟩

namespace Workspace

variable {workspace : Workspace} {machine next last : Machine} {ref : Ref} {cls : ClassId}
variable {touched touched' : Nat → Prop} {dress dress' : Ref → List ClassId → List ClassId}

/-- Some turn is that of the object at the address. -/
def TouchedBy (turns : List (Ref × ClassId)) (address : Nat) : Prop :=
  ∃ turn ∈ turns, turn.1.address = address

/-- Objects wear other classes, and nothing else changes. -/
structure Dresses (workspace : Workspace) (touched : Nat → Prop)
    (dress : Ref → List ClassId → List ClassId) (machine next : Machine) : Prop where
  sound : Sound { workspace with machine := next }
  knows {value : Value} : machine.Knows value → next.Knows value
  spares : machine.Spares touched next
  object {ref : Ref} {object : Object} : machine.Knows (.object ref) →
    machine.heap.object? ref = some object → ∃ object', next.heap.object? ref = some object' ∧
      object.Becomes machine.classes (dress ref object.worn) object'

namespace Dresses

theorem refl (h : Sound { workspace with machine }) (touched : Nat → Prop) :
    workspace.Dresses touched (fun _ worn => worn) machine machine where
  sound := h
  knows := id
  spares := .refl _ _
  object {_ object} _ hobject := ⟨object, hobject, rfl, fun hvalue _ => hvalue⟩

theorem mono (h : workspace.Dresses touched dress machine next)
    (hle : ∀ address, touched address → touched' address) :
    workspace.Dresses touched' dress machine next :=
  { h with spares := h.spares.mono hle }

theorem trans (h : workspace.Dresses touched dress machine next)
    (h' : workspace.Dresses touched dress' next last) (hsound : Sound { workspace with machine })
    (hsteady : (∀ ref worn, worn ⊆ dress ref worn) ∨ ∀ ref worn, dress' ref worn ⊆ worn) :
    workspace.Dresses touched (fun ref worn => dress' ref (dress ref worn)) machine last where
  sound := h'.sound
  knows hknows := h'.knows (h.knows hknows)
  spares := h.spares.trans h'.spares
  object {ref object} hknows hobject := by
    obtain ⟨object', hobject', hbecomes⟩ := h.object hknows hobject
    obtain ⟨object'', hobject'', hbecomes'⟩ := h'.object (h.knows hknows) hobject'
    have hclasses : next.classes = machine.classes := h.spares.classes
    rw [hclasses, hbecomes.wears] at hbecomes'
    refine ⟨object'', hobject'', hbecomes.trans hbecomes' ?_ ?_⟩
    · exact (hsound.running.object_sound hobject).object rfl
    · exact hsteady.imp (fun hgrows => hgrows ref object.worn) fun hshrinks => hshrinks ref _

theorem manifest (h : workspace.Dresses touched dress machine next) {object : Object}
    (hobject : next.heap.object? ref = some object) :
    object.manifest = machine.classes.manifest object.worn := by
  have hclasses : next.classes = machine.classes := h.spares.classes
  exact hclasses ▸ ((h.sound.running.object_sound hobject).object rfl).manifest

theorem keepsFields (h : workspace.Dresses touched dress machine next) :
    machine.KeepsFields next := by
  intro ref object hknows hobject
  obtain ⟨object', hobject', hbecomes⟩ := h.object hknows hobject
  refine ⟨object', hobject', fun key value hvalue howner => hbecomes.keeps hvalue ?_⟩
  rwa [h.manifest hobject', hbecomes.wears] at howner

/-- One object has its turn. -/
theorem of_reshapes (hsound : Sound { workspace with machine })
    (hreplaces : Replaces { workspace with machine } next)
    (href : machine.Knows (.object ref)) {change : List ClassId → ClassId → List ClassId}
    (h : machine.Reshapes ref (change · cls) next) :
    workspace.Dresses (TouchedBy [(ref, cls)]) (dressed change [(ref, cls)]) machine next where
  sound := hreplaces.sound_workspace hsound
  knows := hreplaces.knows
  spares := h.spares.mono fun _ heq => ⟨(ref, cls), List.mem_cons_self, heq.symm⟩
  object {other object} hknows hobject := by
    rw [dressed_single]
    split
    case isTrue hsame =>
      obtain rfl : ref = other := hsame
      obtain ⟨object', hobject', hrewears⟩ := h.object hobject
      exact ⟨object', hobject', hrewears.becomes⟩
    case isFalse hne =>
      -- Of what there is, no two have the same address.
      have haddress : other.address ≠ ref.address := by
        intro heq
        have hcell : machine.heap.outline.cells[other.address]? = some (other.id, .object) := hknows
        have hcell' : machine.heap.outline.cells[ref.address]? = some (ref.id, .object) := href
        rw [heq, hcell'] at hcell
        obtain ⟨hid, -⟩ := Prod.mk.inj (Option.some.inj hcell)
        exact hne (by cases ref; cases other; cases heq; cases hid; rfl)
      obtain ⟨random, hobject'⟩ := h.spares.object haddress hobject
      exact ⟨_, hobject', rfl, fun hvalue _ => hvalue⟩

end Dresses

/-- Classes are put on, or they are taken off. -/
def OneWay (change : List ClassId → ClassId → List ClassId) : Prop :=
  (∀ worn cls, worn ⊆ change worn cls) ∨ ∀ worn cls, change worn cls ⊆ worn

section

variable {action : Ref → ClassId → Run PUnit} {change : List ClassId → ClassId → List ClassId}
variable {turns more : List (Ref × ClassId)}

theorem subset_dressed (hgrows : ∀ worn cls, worn ⊆ change worn cls) (ref : Ref)
    (worn : List ClassId) : worn ⊆ dressed change turns ref worn := by
  unfold dressed
  induction turnsOf turns ref generalizing worn with
  | nil => exact List.Subset.refl worn
  | cons cls rest ih => exact List.Subset.trans (hgrows worn cls) (ih (change worn cls))

theorem dressed_subset (hshrinks : ∀ worn cls, change worn cls ⊆ worn) (ref : Ref)
    (worn : List ClassId) : dressed change turns ref worn ⊆ worn := by
  unfold dressed
  induction turnsOf turns ref generalizing worn with
  | nil => exact List.Subset.refl worn
  | cons cls rest ih => exact List.Subset.trans (ih (change worn cls)) (hshrinks worn cls)

theorem oneWay_donned : OneWay donned := .inl subset_donned

theorem doffed_subset (worn : List ClassId) (cls : ClassId) : doffed worn cls ⊆ worn :=
  List.filter_subset_self _

theorem oneWay_doffed : OneWay doffed := .inr doffed_subset

theorem Dresses.append (h : workspace.Dresses touched (dressed change turns) machine next)
    (h' : workspace.Dresses touched (dressed change more) next last) (hsteady : OneWay change)
    (hsound : Sound { workspace with machine }) :
    workspace.Dresses touched (dressed change (turns ++ more)) machine last := by
  have heq : dressed change (turns ++ more) =
      fun ref worn => dressed change more ref (dressed change turns ref worn) :=
    funext fun _ => funext fun _ => dressed_append
  exact heq ▸ h.trans h' hsound (hsteady.imp subset_dressed dressed_subset)

/-- A pass gives every object its turns in order, or those before an error. -/
theorem yields_pass (hsteady : OneWay change)
    (haction : ∀ {machine : Machine} {ref : Ref} {cls : ClassId},
      Sound { workspace with machine } → machine.Knows (.object ref) →
      Yields (action ref cls) machine
        (fun _ next =>
          workspace.Dresses (TouchedBy [(ref, cls)]) (dressed change [(ref, cls)]) machine next)
        fun halt next => ∀ error, halt = .error error → ∃ done, done <+: [(ref, cls)] ∧
          workspace.Dresses (TouchedBy [(ref, cls)]) (dressed change done) machine next)
    (hsound : Sound { workspace with machine })
    (hknows : ∀ turn ∈ turns, machine.Knows (.object turn.1)) :
    Yields (turns.forM fun turn => action turn.1 turn.2) machine
      (fun _ next => workspace.Dresses (TouchedBy turns) (dressed change turns) machine next)
      fun halt next => ∀ error, halt = .error error → ∃ done, done <+: turns ∧
        workspace.Dresses (TouchedBy turns) (dressed change done) machine next := by
  induction turns generalizing machine with
  | nil => exact .refl hsound _
  | cons turn rest ih =>
    have hfirst : ∀ address, TouchedBy [turn] address → TouchedBy (turn :: rest) address := by
      rintro address ⟨other, hmem, haddress⟩
      exact ⟨other, List.mem_cons.mpr (.inl (List.mem_singleton.mp hmem)), haddress⟩
    have hlater : ∀ address, TouchedBy rest address → TouchedBy (turn :: rest) address := by
      rintro address ⟨other, hmem, haddress⟩
      exact ⟨other, List.mem_cons_of_mem _ hmem, haddress⟩
    refine yields_bind.mpr ((haction hsound (hknows turn List.mem_cons_self)).imp ?_ ?_)
    · intro _ next hturn
      replace hturn := hturn.mono hfirst
      refine (ih hturn.sound fun other hmem =>
        hturn.knows (hknows other (List.mem_cons_of_mem _ hmem))).imp ?_ ?_
      · exact fun _ last hrest => hturn.append (hrest.mono hlater) hsteady hsound
      · intro halt last herror error heq
        obtain ⟨done, hdone, hrest⟩ := herror error heq
        exact ⟨turn :: done, List.cons_prefix_cons.mpr ⟨rfl, hdone⟩,
          hturn.append (hrest.mono hlater) hsteady hsound⟩
    · intro halt next herror error heq
      obtain ⟨done, hdone, hturn⟩ := herror error heq
      exact ⟨done, hdone.trans (List.prefix_append [turn] rest), hturn.mono hfirst⟩

end

theorem Sound.extend_dresses (h : Sound { workspace with machine })
    (href : machine.Knows (.object ref)) (steps : Nat) (cls : ClassId) :
    Yields (extend steps ref cls) machine
      (fun _ next =>
        workspace.Dresses (TouchedBy [(ref, cls)]) (dressed donned [(ref, cls)]) machine next)
      fun halt next => ∀ error, halt = .error error → ∃ done, done <+: [(ref, cls)] ∧
        workspace.Dresses (TouchedBy [(ref, cls)]) (dressed donned done) machine next := by
  have hkeeps := h.keeps_offers (.extend steps cls href)
  refine (h.extend_reshapes href steps cls).result.imp ?_ ?_
  · exact fun _ next ⟨hreshapes, hrun⟩ => .of_reshapes h (hkeeps.of_ok hrun) href hreshapes
  · rintro halt next ⟨herror, hrun⟩ error heq
    rcases herror error heq with rfl | hreshapes
    · exact ⟨[], List.nil_prefix, .refl h _⟩
    · exact ⟨_, List.prefix_rfl,
        .of_reshapes h (hkeeps.of_error hrun error heq) href hreshapes⟩

theorem Sound.retract_dresses (h : Sound { workspace with machine })
    (href : machine.Knows (.object ref)) (steps : Nat) (cls : ClassId) :
    Yields (retract steps ref cls) machine
      (fun _ next =>
        workspace.Dresses (TouchedBy [(ref, cls)]) (dressed doffed [(ref, cls)]) machine next)
      fun halt next => ∀ error, halt = .error error →
        workspace.Dresses (TouchedBy [(ref, cls)]) (dressed doffed [(ref, cls)]) machine next := by
  have hkeeps := h.keeps_offers (.retract steps cls href)
  refine (h.retract_reshapes href steps cls).result.imp ?_ ?_
  · exact fun _ next ⟨hreshapes, hrun⟩ => .of_reshapes h (hkeeps.of_ok hrun) href hreshapes
  · exact fun halt next ⟨herror, hrun⟩ error heq =>
      .of_reshapes h (hkeeps.of_error hrun error heq) href (herror error heq)

end Workspace

end Attire
