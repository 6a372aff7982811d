import Attire.Proofs.Host.Effects
import Attire.Proofs.Machine.Streams
import Attire.Proofs.Runs.Draws

namespace Attire

open Machine

/-! What a log of draws and clones says about random streams. -/

/-- The event leads from one machine to the other. -/
inductive Event.Happens : Event → Machine → Machine → Prop
  | drawn {ref : Ref} {number : Float} {machine after : Machine} :
      machine.heap.outline.Names (.object ref) → drawRandom ref machine = .ok number after →
      Happens (.drawn ref machine.tick number) machine after
  | cloned {source copy : Ref} {machine after : Machine} :
      machine.heap.outline.Names (.object source) →
      cloneValue (.object source) machine = .ok (.object copy) after →
      Happens (.cloned source copy) machine after

/-- The events happen one after another on the way to the last machine. -/
inductive Machine.Logs : Machine → List Event → Machine → Prop
  | still {machine after : Machine} : machine.Still after → Logs machine [] after
  | event {machine start next after : Machine} {event : Event} {rest : List Event} :
      machine.Still start → event.Happens start next → Logs next rest after →
      Logs machine (event :: rest) after

namespace Machine.Logs

variable {machine start after last : Machine} {done rest : List Event} {event : Event}

theorem of_still (h : machine.Still start) (hrest : Logs start rest last) :
    Logs machine rest last := by
  cases hrest with
  | still hlast => exact .still (h.trans hlast)
  | event hstart hevent hrest => exact .event (h.trans hstart) hevent hrest

theorem append (h : Logs machine done after) (hrest : Logs after rest last) :
    Logs machine (done ++ rest) last := by
  induction h with
  | still hstill => exact .of_still hstill hrest
  | event hstart hevent _ ih => exact .event hstart hevent (ih hrest)

theorem then_still (h : Logs machine done after) (hstill : after.Still last) :
    Logs machine done last := by
  have hlast := h.append (.still hstill)
  rwa [List.append_nil] at hlast

theorem split (h : Logs machine (done ++ event :: rest) last) :
    ∃ start next, Logs machine done start ∧ event.Happens start next ∧ Logs next rest last := by
  induction done generalizing machine with
  | nil =>
    cases h with
    | event hstart hevent hrest => exact ⟨_, _, .still hstart, hevent, hrest⟩
  | cons first done ih =>
    cases h with
    | event hstart hfirst hrest =>
      obtain ⟨start, next, hdone, hevent, hrest⟩ := ih hrest
      exact ⟨start, next, .event hstart hfirst hdone, hevent, hrest⟩

end Machine.Logs

/-! What single events do. -/

theorem Heap.ids_of_names {heap : Heap} {ref : Ref} (h : heap.outline.Names (.object ref)) :
    heap.ids[ref.address]? = some ref.id := by
  simp only [Outline.Names, Heap.outline, List.getElem?_map, Array.getElem?_toList] at h
  obtain ⟨cell, hcell, hkind⟩ := Option.map_eq_some_iff.mp h
  simp only [Heap.ids, List.getElem?_map, Array.getElem?_toList, hcell, Option.map_some]
  exact congrArg some (congrArg Prod.fst hkind)

section

variable {machine after : Machine} {ref source copy : Ref} {tick : Nat} {number : Float}

theorem Machine.drawRandom_eq {object : Object} (h : machine.heap.object? ref = some object) :
    drawRandom ref machine = .ok (object.random.next ref.id machine.tick).1 { machine with
      heap := machine.heap.modifyObject ref fun found =>
        { found with random := (object.random.next ref.id machine.tick).2 } } := by
  simp only [drawRandom, modifyGet, MonadStateOf.modifyGet, EStateM.modifyGet, h]

theorem Machine.cloneValue_eq {object : Object} (h : machine.heap.object? ref = some object) :
    cloneValue (.object ref) machine =
      .ok (.object ⟨machine.heap.size, machine.odometer.peek⟩) { machine with
        odometer := machine.odometer.next.2
        heap := (machine.heap.alloc machine.odometer.peek
          (.object { object with random := {} })).2 } := by
  simp only [cloneValue, bind, EStateM.bind, get, getThe, MonadStateOf.get, EStateM.get, h]
  rfl

/-- A draw moves the stream of its object on, and no other one. -/
structure Machine.Draws (machine : Machine) (ref : Ref) (number : Float) (after : Machine) :
    Prop where
  tick : after.tick = machine.tick
  ids : after.heap.ids = machine.heap.ids
  stream : after.heap.stream = Function.update machine.heap.stream ref.address
    ((machine.heap.stream ref.address).next ref.id machine.tick).2
  number : number = ((machine.heap.stream ref.address).next ref.id machine.tick).1

theorem Machine.draws_of_names (hnames : machine.heap.outline.Names (.object ref))
    (hrun : drawRandom ref machine = .ok number after) : machine.Draws ref number after := by
  obtain ⟨object, hobject⟩ := Heap.object?_of_names hnames
  rw [drawRandom_eq hobject] at hrun
  cases hrun
  have hstream := Heap.stream_of_object? hobject
  refine ⟨rfl, Heap.ids_modifyObject .., ?_, ?_⟩
  · rw [hstream]
    exact Heap.stream_draw hobject _
  · rw [hstream]

theorem Event.Happens.draws (h : (Event.drawn ref tick number).Happens machine after) :
    tick = machine.tick ∧ machine.heap.ids[ref.address]? = some ref.id ∧
      machine.Draws ref number after := by
  cases h with
  | drawn hnames hrun => exact ⟨rfl, Heap.ids_of_names hnames, draws_of_names hnames hrun⟩

/-- A copy is a new entity. -/
theorem Event.Happens.fresh (h : (Event.cloned source copy).Happens machine after) :
    machine.Still after ∧ machine.heap.ids[source.address]? = some source.id ∧
      machine.heap.ids[copy.address]? = none := by
  cases h with
  | cloned hnames hrun =>
    obtain ⟨object, hobject⟩ := Heap.object?_of_names hnames
    refine ⟨(calm_cloneValue _).of_ok hrun, Heap.ids_of_names hnames, ?_⟩
    rw [cloneValue_eq hobject] at hrun
    cases hrun
    simp [Heap.ids, Heap.size]

end

/-- The streams of a machine are where the draws of its past have left them. -/
structure Machine.Accounts (machine : Machine) (past : List Event) : Prop where
  drawn {ref : Ref} {tick : Nat} {number : Float} : .drawn ref tick number ∈ past →
    machine.heap.ids[ref.address]? = some ref.id ∧ tick ≤ machine.tick
  stream {ref : Ref} {tick : Nat} : machine.tick ≤ tick →
    (∀ {other : Ref} {time : Nat} {number : Float}, .drawn other time number ∈ past →
      other.address = ref.address → other = ref) →
    (machine.heap.stream ref.address).Drew ref.id tick (past.countP (·.isDraw ref tick))

namespace Machine.Accounts

variable {machine after : Machine} {past done events : List Event} {ref source copy : Ref}
variable {tick : Nat} {number : Float}

theorem initial (h : ∀ address, machine.heap.stream address = {}) : machine.Accounts [] where
  drawn := nofun
  stream {ref tick} _ _ := by
    rw [h]
    exact nofun

theorem still (h : machine.Accounts past) (hstill : machine.Still after) : after.Accounts past where
  drawn hmem := ⟨hstill.keeps_id (h.drawn hmem).1, (h.drawn hmem).2.trans hstill.tick⟩
  stream htick hsame := by
    rw [hstill.stream]
    exact h.stream (hstill.tick.trans htick) hsame

/-- Nothing was drawn in ticks that are still to come. -/
theorem countP_of_lt (h : machine.Accounts past) (htick : machine.tick < tick) :
    past.countP (·.isDraw ref tick) = 0 := by
  refine List.countP_eq_zero.mpr fun event hmem => ?_
  cases event with
  | cloned => simp
  | drawn other time number =>
    rw [Event.isDraw_drawn]
    rintro ⟨-, rfl⟩
    exact Nat.not_le_of_lt htick (h.drawn hmem).2

/-- Earlier draws at the place of an entity are draws from it. -/
theorem eq_of_address (h : machine.Accounts past)
    (hid : machine.heap.ids[ref.address]? = some ref.id) {other : Ref} {time : Nat}
    (hmem : .drawn other time number ∈ past) (haddress : other.address = ref.address) :
    other = ref := by
  have hother := (h.drawn hmem).1
  rw [haddress, hid] at hother
  obtain ⟨address, id⟩ := other
  cases haddress
  cases hother
  rfl

/-- The stream of an entity has as many numbers behind it as were drawn from it in the tick. -/
theorem drew (h : machine.Accounts past) (hid : machine.heap.ids[ref.address]? = some ref.id) :
    (machine.heap.stream ref.address).Drew ref.id machine.tick
      (past.countP (·.isDraw ref machine.tick)) :=
  h.stream (le_refl _) fun hmem haddress => h.eq_of_address hid hmem haddress

theorem draw (h : machine.Accounts past) (hid : machine.heap.ids[ref.address]? = some ref.id)
    (hdraws : machine.Draws ref number after) :
    after.Accounts (past ++ [.drawn ref machine.tick number]) where
  drawn {other time answer} hmem := by
    rw [hdraws.ids, hdraws.tick]
    rcases List.mem_append.mp hmem with hmem | hmem
    · exact h.drawn hmem
    · cases List.mem_singleton.mp hmem
      exact ⟨hid, le_refl _⟩
  stream {other tick} htick hsame := by
    rw [hdraws.tick] at htick
    have hlast : ref.address = other.address → ref = other :=
      hsame (List.mem_append_right _ (List.mem_singleton_self _))
    rw [hdraws.stream, List.countP_append, List.countP_singleton]
    by_cases haddress : other.address = ref.address
    · obtain rfl := hlast haddress.symm
      rw [haddress, Function.update_self]
      rcases Nat.eq_or_lt_of_le htick with rfl | hlt
      · rw [if_pos (Event.isDraw_drawn.mpr ⟨rfl, rfl⟩)]
        exact (h.drew hid).next
      · rw [h.countP_of_lt hlt, if_neg fun hdraw => hlt.ne (Event.isDraw_drawn.mp hdraw).2,
          (h.drew hid).next_eq]
        exact fun heq => hlt.ne (Option.some.inj heq)
    · rw [Function.update_of_ne haddress, if_neg fun hdraw =>
        haddress (congrArg Ref.address (Event.isDraw_drawn.mp hdraw).1.symm), Nat.add_zero]
      exact h.stream htick fun hmem => hsame (List.mem_append_left _ hmem)

theorem clone (h : machine.Accounts past) (hstill : machine.Still after) :
    after.Accounts (past ++ [.cloned source copy]) where
  drawn hmem := by
    rcases List.mem_append.mp hmem with hmem | hmem
    · exact (h.still hstill).drawn hmem
    · cases List.mem_singleton.mp hmem
  stream htick hsame := by
    rw [List.countP_append, List.countP_singleton, Event.isDraw_cloned, if_neg Bool.false_ne_true]
    exact (h.still hstill).stream htick fun hmem => hsame (List.mem_append_left _ hmem)

theorem logs (h : machine.Accounts past) (hlogs : machine.Logs events after) :
    after.Accounts (past ++ events) := by
  induction hlogs generalizing past with
  | still hstill =>
    rw [List.append_nil]
    exact h.still hstill
  | @event _ start next _ event rest hstart hevent _ ih =>
    have hnext : next.Accounts (past ++ [event]) := by
      cases event with
      | drawn ref tick number =>
        obtain ⟨rfl, hid, hdraws⟩ := hevent.draws
        exact (h.still hstart).draw hid hdraws
      | cloned source copy => exact (h.still hstart).clone hevent.fresh.1
    have hrest := ih hnext
    rwa [List.append_assoc] at hrest

end Machine.Accounts

namespace Machine.Logs

variable {machine last : Machine} {before after : List Event} {ref source copy : Ref}
variable {tick : Nat} {number : Float}

/-- A number only depends on its place among those drawn from the object in the tick. -/
theorem number_eq (h : machine.Logs (before ++ .drawn ref tick number :: after) last)
    (hstart : machine.Accounts []) :
    number = RandomStream.number ref.id tick (before.countP (·.isDraw ref tick)) := by
  obtain ⟨start, next, hbefore, hevent, -⟩ := h.split
  obtain ⟨rfl, hid, hdraws⟩ := hevent.draws
  rw [hdraws.number, ((hstart.logs hbefore).drew hid).next_eq]
  rfl

/-- Nothing is drawn from a copy before it is made. -/
theorem copy_fresh (h : machine.Logs (before ++ .cloned source copy :: after) last)
    (hstart : machine.Accounts []) :
    copy ≠ source ∧ ∀ tick number, .drawn copy tick number ∉ before := by
  obtain ⟨start, next, hbefore, hevent, -⟩ := h.split
  obtain ⟨-, hsource, hcopy⟩ := hevent.fresh
  constructor
  · rintro rfl
    rw [hcopy] at hsource
    cases hsource
  · intro tick number hmem
    have hdrawn := ((hstart.logs hbefore).drawn hmem).1
    rw [hcopy] at hdrawn
    cases hdrawn

end Machine.Logs

end Attire
