import Attire.Proofs.Machine.Tally

namespace Attire

open Machine

/-! Whatever programs do, what they make gets identifiers from the odometer, one after the other. -/

namespace Id

theorem le_iff {a b : Id} : a ≤ b ↔ a.number ≤ b.number := Iff.rfl

theorem lt_iff {a b : Id} : a < b ↔ a.number < b.number := Iff.rfl

end Id

/-- All that was made since then has identifiers that were minted since then. -/
structure Machine.Mints (before after : Machine) : Prop where
  upcoming : before.odometer.upcoming ≤ after.odometer.upcoming
  minted : after.odometer.upcoming + before.odometer.minted =
    before.odometer.upcoming + after.odometer.minted
  ids : ∃ fresh, after.heap.ids = before.heap.ids ++ fresh ∧ fresh.Pairwise (· < ·) ∧
    ∀ id ∈ fresh, before.odometer.peek ≤ id ∧ id < after.odometer.peek

namespace Machine.Mints

variable {before after last : Machine} {entity : Entity}

theorem refl (machine : Machine) : machine.Mints machine where
  upcoming := le_refl _
  minted := rfl
  ids := ⟨[], (List.append_nil _).symm, .nil, nofun⟩

theorem trans (h : before.Mints after) (h' : after.Mints last) : before.Mints last where
  upcoming := h.upcoming.trans h'.upcoming
  minted := by
    have hfirst := h.minted
    have hsecond := h'.minted
    omega
  ids := by
    obtain ⟨fresh, hids, hsorted, hfresh⟩ := h.ids
    obtain ⟨fresh', hids', hsorted', hfresh'⟩ := h'.ids
    have hbound : ∀ id ∈ fresh ++ fresh', before.odometer.peek ≤ id ∧ id < last.odometer.peek := by
      intro id hmem
      rcases List.mem_append.mp hmem with hmem | hmem
      · exact ⟨(hfresh id hmem).1, lt_of_lt_of_le (Id.lt_iff.mp (hfresh id hmem).2) h'.upcoming⟩
      · exact ⟨le_trans h.upcoming (Id.le_iff.mp (hfresh' id hmem).1), (hfresh' id hmem).2⟩
    have hapart : ∀ a ∈ fresh, ∀ b ∈ fresh', a < b := fun a ha b hb =>
      lt_of_lt_of_le (Id.lt_iff.mp (hfresh a ha).2) (hfresh' b hb).1
    exact ⟨fresh ++ fresh', by rw [hids', hids, List.append_assoc],
      List.pairwise_append.mpr ⟨hsorted, hsorted', hapart⟩, hbound⟩

/-- Only the odometer and the identifiers count. -/
theorem congr (h : before.Mints after) (hodometer : last.odometer = after.odometer)
    (hids : last.heap.ids = after.heap.ids) : before.Mints last where
  upcoming := hodometer ▸ h.upcoming
  minted := hodometer ▸ h.minted
  ids := by
    rw [hodometer, hids]
    exact h.ids

theorem mint (h : before.Mints after) :
    before.Mints { after with odometer := after.odometer.next.2 } where
  upcoming := Nat.le_succ_of_le h.upcoming
  minted := by
    have hminted := h.minted
    simp only [Odometer.next]
    omega
  ids := by
    obtain ⟨fresh, hids, hsorted, hfresh⟩ := h.ids
    exact ⟨fresh, hids, hsorted, fun id hmem =>
      ⟨(hfresh id hmem).1, Nat.lt_succ_of_lt (hfresh id hmem).2⟩⟩

theorem create (h : before.Mints after) (entity : Entity) :
    before.Mints { after with
      odometer := after.odometer.next.2
      heap := (after.heap.alloc after.odometer.peek entity).2 } := by
  refine h.trans ⟨Nat.le_succ _, ?_, [after.odometer.peek], Heap.ids_alloc,
    List.pairwise_singleton _ _, ?_⟩
  · simp only [Odometer.next]
    omega
  · intro id hmem
    obtain rfl := List.mem_singleton.mp hmem
    exact ⟨le_refl after.odometer.upcoming, Nat.lt_succ_self after.odometer.upcoming⟩

end Machine.Mints

/-! The account of what is made. -/

namespace Ledger

/-- There is nothing to keep account of but the machine. -/
inductive World
  | only

instance : Preorder World where
  le _ _ := True
  le_refl _ := trivial
  le_trans _ _ _ _ _ := trivial

def tally (before : Machine) : Tally World where
  fits _ machine := before.Mints machine
  fault _ := True
  enter world := world
  leave world := world
  faulty _ := trivial
  blames _ := trivial
  congr h htallies := h.congr htallies.odometer htallies.ids
  made entity h := h.create entity
  enter_fits h _ := h.congr rfl rfl
  leave_fits hle h := ⟨hle, h.congr rfl rfl⟩

end Ledger

end Attire
