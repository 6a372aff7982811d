import Attire.Proofs.Runs.Rules

namespace Attire

open Machine

/-! Rules for runs that end once they may take enough steps. -/

section

variable {α β : Type} {machine : Machine}

/-- From some number of steps on the run always ends alike: in an answer that meets `post`, or in an
error of the program. -/
def Halts (run : Nat → Run α) (machine : Machine) (post : α → Machine → Prop) : Prop :=
  ∃ least outcome, (∀ steps, least ≤ steps → run steps machine = outcome) ∧
    match outcome with
    | .ok answer after => post answer after
    | .error halt _ => halt ≠ .exhausted

namespace Halts

variable {run : Nat → Run α} {mid post : α → Machine → Prop}

theorem imp (h : Halts run machine mid)
    (hpost : ∀ answer after, mid answer after → post answer after) : Halts run machine post := by
  obtain ⟨least, outcome, hends, houtcome⟩ := h
  refine ⟨least, outcome, hends, ?_⟩
  cases outcome with
  | ok answer after => exact hpost answer after houtcome
  | error halt after => exact houtcome

/-- A run that counts no steps ends as it does. -/
theorem const {run : Run α} (h : Yields run machine post fun halt _ => halt ≠ .exhausted) :
    Halts (fun _ => run) machine post := by
  refine ⟨0, run machine, fun _ _ => rfl, ?_⟩
  cases hrun : run machine with
  | ok answer after => exact h.of_ok hrun
  | error halt after => exact h.of_error hrun

theorem succ (h : Halts (fun steps => run (steps + 1)) machine post) : Halts run machine post := by
  obtain ⟨least, outcome, hends, houtcome⟩ := h
  refine ⟨least + 1, outcome, fun steps hle => ?_, houtcome⟩
  obtain ⟨fewer, rfl⟩ : ∃ fewer, steps = fewer + 1 := ⟨steps - 1, by omega⟩
  exact hends fewer (by omega)

theorem bind {next : α → Nat → Run β} {post : β → Machine → Prop} (h : Halts run machine mid)
    (hnext : ∀ answer after, mid answer after → Halts (next answer) after post) :
    Halts (fun steps => run steps >>= fun answer => next answer steps) machine post := by
  obtain ⟨least, outcome, hends, houtcome⟩ := h
  cases outcome with
  | error halt after =>
    refine ⟨least, .error halt after, fun steps hle => ?_, houtcome⟩
    simp only [Bind.bind, EStateM.bind, hends steps hle]
  | ok answer after =>
    obtain ⟨least', outcome, hends', houtcome'⟩ := hnext answer after houtcome
    refine ⟨max least least', outcome, fun steps hle => ?_, houtcome'⟩
    have hfirst := hends steps (Nat.le_trans (Nat.le_max_left ..) hle)
    have hsecond := hends' steps (Nat.le_trans (Nat.le_max_right ..) hle)
    simp only [Bind.bind, EStateM.bind, hfirst, hsecond]

theorem map {change : α → β} {post : β → Machine → Prop}
    (h : Halts run machine fun answer after => post (change answer) after) :
    Halts (fun steps => change <$> run steps) machine post := by
  obtain ⟨least, outcome, hends, houtcome⟩ := h
  cases outcome with
  | ok answer after =>
    refine ⟨least, .ok (change answer) after, fun steps hle => ?_, houtcome⟩
    simp only [Functor.map, EStateM.map, hends steps hle]
  | error halt after =>
    refine ⟨least, .error halt after, fun steps hle => ?_, houtcome⟩
    simp only [Functor.map, EStateM.map, hends steps hle]

theorem bind_get {next : Machine → Nat → Run α} (h : Halts (next machine) machine post) :
    Halts (fun steps => get >>= fun machine => next machine steps) machine post := h

/-- One call deeper, from a machine that is one call deeper. -/
theorem nested (h : Halts run { machine with depth := machine.depth + 1 } fun answer after =>
      post answer { after with depth := after.depth - 1 }) :
    Halts (fun steps => Machine.nested (run steps)) machine post := by
  obtain ⟨least, outcome, hends, houtcome⟩ := h
  cases outcome with
  | ok answer after =>
    refine ⟨least, .ok answer { after with depth := after.depth - 1 }, fun steps hle => ?_, houtcome⟩
    simp only [Machine.nested, hends steps hle]
  | error halt after =>
    refine ⟨least, .error halt { after with depth := after.depth - 1 }, fun steps hle => ?_,
      houtcome⟩
    simp only [Machine.nested, hends steps hle]

end Halts

/-- The run ends from every machine that `keeps` holds of, and it holds again after an answer. -/
def Ends (keeps : Machine → Prop) (run : Nat → Run α) : Prop :=
  ∀ machine, keeps machine → Halts run machine fun _ after => keeps after

namespace Ends

variable {keeps : Machine → Prop} {run : Nat → Run α}

theorem pure {answer : α} : Ends keeps fun _ => Pure.pure answer :=
  fun _ hkeeps => .const hkeeps

theorem fail {error : RuntimeError} : Ends keeps fun _ => (Machine.fail error : Run α) :=
  fun _ _ => .const (by rintro ⟨⟩)

theorem succ (h : Ends keeps fun steps => run (steps + 1)) : Ends keeps run :=
  fun machine hkeeps => (h machine hkeeps).succ

theorem bind {next : α → Nat → Run β} (h : Ends keeps run)
    (hnext : ∀ answer, Ends keeps (next answer)) :
    Ends keeps fun steps => run steps >>= fun answer => next answer steps :=
  fun machine hkeeps => (h machine hkeeps).bind fun answer after => hnext answer after

theorem bind_get {next : Machine → Nat → Run α}
    (h : ∀ machine, keeps machine → Ends keeps (next machine)) :
    Ends keeps fun steps => get >>= fun machine => next machine steps :=
  fun machine hkeeps => h machine hkeeps machine hkeeps

theorem forM {γ : Type} {action : Nat → γ → Run PUnit} :
    ∀ {items : List γ}, (∀ item ∈ items, Ends keeps fun steps => action steps item) →
      Ends keeps fun steps => items.forM (action steps)
  | [], _ => pure
  | item :: _, h => by
    have hrest := forM fun other hmem => h other (List.mem_cons_of_mem _ hmem)
    exact (h item (List.mem_cons_self ..)).bind fun _ => hrest

end Ends

/-- The run ends in every frame. -/
def EndsIn (keeps : Machine → Prop) (run : Nat → Exec α) : Prop :=
  ∀ frame, Ends keeps fun steps => (run steps).run frame

namespace EndsIn

variable {keeps : Machine → Prop} {run : Nat → Exec α}

theorem pure {answer : α} : EndsIn keeps fun _ => Pure.pure answer :=
  fun _ => Ends.pure

theorem succ (h : EndsIn keeps fun steps => run (steps + 1)) : EndsIn keeps run :=
  fun frame => (h frame).succ

theorem bind {next : α → Nat → Exec β} (h : EndsIn keeps run)
    (hnext : ∀ answer, EndsIn keeps (next answer)) :
    EndsIn keeps fun steps => run steps >>= fun answer => next answer steps :=
  fun frame => (h frame).bind fun answer => hnext answer.1 answer.2

/-- Two operands, one after the other, and what is made of their values. -/
theorem bind_two {left right : Nat → Exec α} {next : α → α → Nat → Exec β}
    (hleft : EndsIn keeps left) (hright : EndsIn keeps right)
    (hnext : ∀ a b, EndsIn keeps (next a b)) :
    EndsIn keeps fun steps => left steps >>= fun a => right steps >>= fun b => next a b steps :=
  hleft.bind fun a => hright.bind (hnext a)

theorem lift {run : Nat → Run α} (h : Ends keeps run) : EndsIn keeps fun steps => liftM (run steps) :=
  fun _ => h.bind fun _ => Ends.pure

theorem bind_lift {run : Nat → Run α} {next : α → Nat → Exec β} {meets : α → Prop}
    (h : ∀ machine, keeps machine →
      Halts run machine fun answer after => meets answer ∧ keeps after)
    (hnext : ∀ answer, meets answer → EndsIn keeps (next answer)) :
    EndsIn keeps fun steps => liftM (run steps) >>= fun answer => next answer steps := by
  intro frame machine hkeeps
  have hlift : Halts (fun steps => (liftM (run steps) : Exec α).run frame) machine
      fun answer after => meets answer.1 ∧ keeps after :=
    (h machine hkeeps).bind fun _ _ hanswer => .const hanswer
  exact hlift.bind fun answer after hanswer => hnext answer.1 hanswer.1 answer.2 after hanswer.2

theorem bind_get {next : Frame → Nat → Exec α} (h : ∀ frame, EndsIn keeps (next frame)) :
    EndsIn keeps fun steps => get >>= fun frame => next frame steps :=
  fun frame => h frame frame

theorem bind_getMachine {next : Machine → Nat → Exec α}
    (h : ∀ machine, EndsIn keeps (next machine)) :
    EndsIn keeps fun steps => getThe Machine >>= fun machine => next machine steps :=
  fun frame machine hkeeps => h machine frame machine hkeeps

theorem bind_currentHeap {next : Heap → Nat → Exec α} (h : ∀ heap, EndsIn keeps (next heap)) :
    EndsIn keeps fun steps => currentHeap >>= fun heap => next heap steps :=
  fun frame machine hkeeps => h machine.heap frame machine hkeeps

theorem setSlot (slot : Nat) (value : Value) :
    EndsIn keeps fun _ => Machine.setSlot slot value :=
  fun _ => Ends.pure

theorem mapM {γ : Type} {action : Nat → γ → Exec α} :
    ∀ {items : List γ}, (∀ item ∈ items, EndsIn keeps fun steps => action steps item) →
      EndsIn keeps fun steps => items.mapM (action steps)
  | [], _ => by
    simp only [List.mapM_nil]
    exact pure
  | item :: _, h => by
    simp only [List.mapM_cons]
    exact bind (h item (List.mem_cons_self ..)) fun _ =>
      bind (mapM fun other hmem => h other (List.mem_cons_of_mem _ hmem)) fun _ => pure

theorem forM {γ : Type} {action : Nat → γ → Exec PUnit} :
    ∀ {items : List γ}, (∀ item ∈ items, EndsIn keeps fun steps => action steps item) →
      EndsIn keeps fun steps => items.forM (action steps)
  | [], _ => pure
  | item :: _, h => by
    have hrest := forM fun other hmem => h other (List.mem_cons_of_mem _ hmem)
    exact (h item (List.mem_cons_self ..)).bind fun _ => hrest

end EndsIn

end

end Attire
