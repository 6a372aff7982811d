import Attire.Proofs.Runs.Parts

namespace Attire

open Machine

/-! The draws of a run, in the order in which they are made, among the clones of objects. -/

inductive Event
  | drawn (ref : Ref) (tick : Nat) (number : Float)
  | cloned (source copy : Ref)

namespace Event

/-- A draw from the object in the tick. -/
def isDraw (ref : Ref) (tick : Nat) : Event → Bool
  | drawn other time _ => other = ref && time = tick
  | cloned .. => false

@[simp] theorem isDraw_drawn {ref other : Ref} {tick time : Nat} {number : Float} :
    (drawn other time number).isDraw ref tick = true ↔ other = ref ∧ time = tick := by
  simp [isDraw]

@[simp] theorem isDraw_cloned {ref source copy : Ref} {tick : Nat} :
    (cloned source copy).isDraw ref tick = false := rfl

end Event

namespace Machine

/-- A draw from an object, as an event. -/
def drawing (ref : Ref) (machine : Machine) : List Event :=
  onward (drawRandom ref) machine fun number _ => [.drawn ref machine.tick number]

/-- A clone of a value, as an event if the value is an object. -/
def cloning (value : Value) (machine : Machine) : List Event :=
  onward (cloneValue value) machine fun copy _ =>
    match value, copy with
    | .object source, .object copy => [.cloned source copy]
    | _, _ => []

end Machine

namespace Activity

variable {activity part : Activity} {machine start : Machine} {event : Event}

/-- The events that do not belong to a part.  They come after all parts. -/
def own : Activity → Machine → List Event
  | eval (_ + 1) .random frame, machine =>
    match frame.this with
    | .object ref => drawing ref machine
    | _ => []
  | eval (steps + 1) (.clone operand) frame, machine =>
    onward ((Machine.eval steps operand).run frame) machine fun answer machine =>
      cloning answer.1 machine
  | _, _ => []

def eventsWithin : Nat → Activity → Machine → List Event
  | 0, activity, machine => activity.own machine
  | room + 1, activity, machine =>
    ((activity.parts machine).flatMap fun onset => eventsWithin room onset.1 onset.2) ++
      activity.own machine

/-- All events in the course of the activity, in their order. -/
def events (activity : Activity) (machine : Machine) : List Event :=
  eventsWithin activity.room activity machine

theorem Begins.room_succ (h : activity.Begins machine part start) :
    part.room + 1 = activity.room := by
  cases h <;> rfl

theorem events_eq (activity : Activity) (machine : Machine) : activity.events machine =
    ((activity.parts machine).flatMap fun onset => onset.1.events onset.2) ++
      activity.own machine := by
  have hroom : ∀ onset ∈ activity.parts machine, onset.1.room + 1 = activity.room :=
    fun onset hmem => (begins_of_mem_parts hmem).room_succ
  unfold events
  cases hactivity : activity.room with
  | zero =>
    have hnone : activity.parts machine = [] := by
      refine List.eq_nil_iff_forall_not_mem.mpr fun onset hmem => ?_
      exact Nat.succ_ne_zero _ ((hroom onset hmem).trans hactivity)
    rw [hnone]
    rfl
  | succ room =>
    refine congrArg (· ++ activity.own machine) (List.flatMap_congr fun onset hmem => ?_)
    rw [Nat.succ.inj ((hroom onset hmem).trans hactivity)]

theorem Begins.events_subset (h : activity.Begins machine part start) :
    part.events start ⊆ activity.events machine := fun event hmem => by
  rw [events_eq]
  exact List.mem_append_left _ (List.mem_flatMap.mpr ⟨(part, start), h.mem_parts, hmem⟩)

/-- The events are what happens in the course of the activity. -/
theorem mem_events_iff : event ∈ activity.events machine ↔
    ∃ calls part start, activity.Comprises machine calls part start ∧ event ∈ part.own start := by
  constructor
  · intro hmem
    induction hroom : activity.room generalizing activity machine with
    | zero =>
      rw [events, hroom] at hmem
      exact ⟨0, activity, machine, .itself, hmem⟩
    | succ room ih =>
      rw [events_eq] at hmem
      rcases List.mem_append.mp hmem with hmem | hmem
      · obtain ⟨onset, honset, hmem⟩ := List.mem_flatMap.mp hmem
        have hbegins := begins_of_mem_parts honset
        obtain ⟨calls, part, start, hcomprises, hown⟩ :=
          ih hmem (Nat.succ.inj (hbegins.room_succ.trans hroom))
        exact ⟨_, part, start, hcomprises.of_part hbegins, hown⟩
      · exact ⟨0, activity, machine, .itself, hmem⟩
  · rintro ⟨calls, part, start, hcomprises, hown⟩
    have hpart : event ∈ part.events start := by
      rw [events_eq]
      exact List.mem_append_right _ hown
    clear hown
    induction hcomprises with
    | itself => exact hpart
    | begins _ hbegins ih => exact ih (hbegins.events_subset hpart)

/-- The draws among the events are those that take place in the course of the activity. -/
theorem drawn_mem_events_iff {ref : Ref} {tick : Nat} {number : Float} :
    .drawn ref tick number ∈ activity.events machine ↔
      ∃ calls steps frame start after,
        activity.Comprises machine calls (eval (steps + 1) .random frame) start ∧
        frame.this = .object ref ∧ start.tick = tick ∧ drawRandom ref start = .ok number after := by
  rw [mem_events_iff]
  constructor
  · rintro ⟨calls, part, start, hcomprises, hown⟩
    unfold own at hown
    split at hown
    case h_1 _ steps frame =>
      split at hown
      case h_2 => cases hown
      case h_1 hthis =>
        obtain ⟨answer, after, hrun, hmem⟩ := mem_onward.mp hown
        cases List.mem_singleton.mp hmem
        exact ⟨calls, steps, frame, start, after, hcomprises, hthis, rfl, hrun⟩
    case h_2 =>
      obtain ⟨answer, middle, -, hmem⟩ := mem_onward.mp hown
      obtain ⟨copy, after, -, hmem⟩ := mem_onward.mp hmem
      split at hmem
      · cases List.mem_singleton.mp hmem
      · cases hmem
    case h_3 => cases hown
  · rintro ⟨calls, steps, frame, start, after, hcomprises, hthis, rfl, hrun⟩
    refine ⟨calls, _, start, hcomprises, ?_⟩
    simp only [own, hthis]
    exact mem_onward.mpr ⟨number, after, hrun, List.mem_singleton_self _⟩

end Activity

end Attire
