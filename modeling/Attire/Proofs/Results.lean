import Mathlib.Data.List.Forall2
import Mathlib.Logic.Basic

namespace Attire

/-! Computations that succeed. -/

variable {ε ε' α β : Type}

theorem bind_eq_ok {result : Except ε α} {next : α → Except ε β} {answer : β} :
    (result >>= next) = .ok answer ↔ ∃ middle, result = .ok middle ∧ next middle = .ok answer := by
  cases result <;> simp [bind, Except.bind]

theorem pure_eq_ok {answer other : α} :
    (pure answer : Except ε α) = .ok other ↔ answer = other := by
  simp [pure, Except.pure]

theorem throw_ne_ok {error : ε} {answer : α} : (throw error : Except ε α) = .ok answer ↔ False := by
  simp [throw, throwThe, MonadExceptOf.throw]

theorem mapError_eq_ok {result : Except ε α} {change : ε → ε'} {answer : α} :
    result.mapError change = .ok answer ↔ result = .ok answer := by
  cases result <;> simp [Except.mapError]

theorem exists_eq_ok {result : Except ε α} (h : result.isOk) : ∃ answer, result = .ok answer := by
  cases result with
  | ok answer => exact ⟨answer, rfl⟩
  | error => cases h

theorem if_eq_ok {condition : Prop} [Decidable condition] {answer other : α} {error : ε} :
    (if condition then pure answer else throw error : Except ε α) = .ok other ↔
      condition ∧ answer = other := by
  split <;> simp_all [pure_eq_ok, throw_ne_ok]

theorem foldlM_induction {motive : β → Prop} {step : β → α → Except ε β} {items : List α}
    {start answer : β} (hstart : motive start)
    (hstep : ∀ state item next, item ∈ items → motive state → step state item = .ok next →
      motive next)
    (h : items.foldlM step start = .ok answer) : motive answer := by
  induction items generalizing start with
  | nil =>
    cases h
    exact hstart
  | cons item rest ih =>
    rw [List.foldlM_cons] at h
    obtain ⟨next, hnext, hrest⟩ := bind_eq_ok.mp h
    exact ih (hstep _ item _ (by simp) hstart hnext)
      (fun state other next hmem => hstep state other next (List.mem_cons_of_mem _ hmem)) hrest

theorem mapM_eq_ok {change : α → Except ε β} : ∀ {items : List α} {answers : List β},
    items.mapM change = .ok answers → List.Forall₂ (fun item answer => change item = .ok answer)
      items answers
  | [], _, h => by
    rw [List.mapM_nil] at h
    cases h
    exact .nil
  | item :: rest, _, h => by
    rw [List.mapM_cons] at h
    obtain ⟨answer, hanswer, h⟩ := bind_eq_ok.mp h
    obtain ⟨answers, hanswers, h⟩ := bind_eq_ok.mp h
    cases h
    exact .cons hanswer (mapM_eq_ok hanswers)

theorem mapM_ok {change : α → Except ε β} {items : List α}
    (h : ∀ item ∈ items, ∃ answer, change item = .ok answer) :
    ∃ answers, items.mapM change = .ok answers := by
  induction items with
  | nil => exact ⟨[], rfl⟩
  | cons item rest ih =>
    obtain ⟨answer, hanswer⟩ := h item (by simp)
    obtain ⟨answers, hanswers⟩ := ih fun other hmem => h other (List.mem_cons_of_mem _ hmem)
    refine ⟨answer :: answers, ?_⟩
    rw [List.mapM_cons, hanswer, hanswers]
    rfl

theorem mem_of_forall₂ {related : α → β → Prop} {items : List α} {others : List β}
    (h : List.Forall₂ related items others) :
    (∀ item ∈ items, ∃ other ∈ others, related item other) ∧
      ∀ other ∈ others, ∃ item ∈ items, related item other := by
  induction h with
  | nil => exact ⟨nofun, nofun⟩
  | @cons item other items others hrelated _ ih =>
    refine ⟨fun x hmem => ?_, fun x hmem => ?_⟩
    · rcases List.mem_cons.mp hmem with rfl | hmem
      · exact ⟨other, by simp, hrelated⟩
      · obtain ⟨y, hy, hrelated⟩ := ih.1 x hmem
        exact ⟨y, List.mem_cons_of_mem _ hy, hrelated⟩
    · rcases List.mem_cons.mp hmem with rfl | hmem
      · exact ⟨item, by simp, hrelated⟩
      · obtain ⟨y, hy, hrelated⟩ := ih.2 x hmem
        exact ⟨y, List.mem_cons_of_mem _ hy, hrelated⟩

end Attire
