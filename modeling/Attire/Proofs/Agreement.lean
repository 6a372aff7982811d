import Attire.Proofs.Runs.Rules
import Attire.Proofs.Results
import Attire.Proofs.Tables

namespace Attire

/-! Computations on related data that end alike. -/

section

variable {ε ε' : Type} {α β γ δ : Type}

/-- Both computations succeed with related answers, or both fail with one error. -/
inductive Agree (related : α → β → Prop) : Except ε α → Except ε β → Prop
  | ok {answer : α} {answer' : β} (h : related answer answer') :
      Agree related (.ok answer) (.ok answer')
  | error (error : ε) : Agree related (.error error) (.error error)

namespace Agree

variable {related : α → β → Prop} {next : γ → δ → Prop} {result : Except ε α} {result' : Except ε β}
variable {items : List α} {items' : List β}

theorem pure {answer : α} {answer' : β} (h : related answer answer') :
    Agree (ε := ε) related (Pure.pure answer) (Pure.pure answer') :=
  .ok h

theorem of_eq {result result' : Except ε α} (h : result = result') : Agree Eq result result' := by
  subst h
  cases result with
  | ok answer => exact .ok rfl
  | error error => exact .error error

theorem and_eq (h : Agree related result result') :
    Agree (fun answer answer' => related answer answer' ∧ result = .ok answer ∧
      result' = .ok answer') result result' := by
  cases h with
  | ok h => exact .ok ⟨h, rfl, rfl⟩
  | error error => exact .error error

theorem bind {step : α → Except ε γ} {step' : β → Except ε δ} (h : Agree related result result')
    (hstep : ∀ answer answer', related answer answer' → Agree next (step answer) (step' answer')) :
    Agree next (result >>= step) (result' >>= step') := by
  cases h with
  | ok h => exact hstep _ _ h
  | error error => exact .error error

theorem mapError {change : ε → ε'} (h : Agree related result result') :
    Agree related (result.mapError change) (result'.mapError change) := by
  cases h with
  | ok h => exact .ok h
  | error error => exact .error (change error)

theorem mapM {step : α → Except ε γ} {step' : β → Except ε δ}
    (h : List.Forall₂ related items items')
    (hstep : ∀ item item', related item item' → Agree next (step item) (step' item')) :
    Agree (List.Forall₂ next) (items.mapM step) (items'.mapM step') := by
  induction h with
  | nil => exact .pure .nil
  | cons hitem _ ih =>
    rw [List.mapM_cons, List.mapM_cons]
    refine (hstep _ _ hitem).bind fun answer answer' hanswer => ih.bind fun rest rest' hrest => ?_
    exact .pure (.cons hanswer hrest)

theorem mapM_same {step : α → Except ε γ} {step' : α → Except ε δ} {items : List α}
    (hstep : ∀ item, Agree next (step item) (step' item)) :
    Agree (List.Forall₂ next) (items.mapM step) (items.mapM step') := by
  refine mapM (List.forall₂_same.mpr fun _ _ => rfl) ?_
  rintro item _ rfl
  exact hstep item

theorem foldlM {step : γ → α → Except ε γ} {step' : δ → β → Except ε δ} {start : γ} {start' : δ}
    (hstart : next start start') (h : List.Forall₂ related items items')
    (hstep : ∀ state state' item item', next state state' → related item item' →
      Agree next (step state item) (step' state' item')) :
    Agree next (items.foldlM step start) (items'.foldlM step' start') := by
  induction h generalizing start start' with
  | nil => exact .pure hstart
  | cons hitem _ ih =>
    rw [List.foldlM_cons, List.foldlM_cons]
    exact (hstep _ _ _ _ hstart hitem).bind fun state state' hstate => ih hstate

theorem foldlM_same {step : γ → α → Except ε γ} {step' : δ → α → Except ε δ} {start : γ} {start' : δ}
    {items : List α} (hstart : next start start')
    (hstep : ∀ state state' item, next state state' →
      Agree next (step state item) (step' state' item)) :
    Agree next (items.foldlM step start) (items.foldlM step' start') := by
  refine foldlM hstart (List.forall₂_same.mpr fun _ _ => rfl) ?_
  rintro state state' item _ hstate rfl
  exact hstep state state' item hstate

end Agree

section

variable {related : α → β → Prop} {items : List α} {items' : List β} {test : α → Bool}
variable {test' : β → Bool}

theorem rel_cases {item : Option α} {item' : Option β} (h : Option.Rel related item item') :
    (item = none ∧ item' = none) ∨
      ∃ value value', item = some value ∧ item' = some value' ∧ related value value' := by
  cases h with
  | none => exact .inl ⟨rfl, rfl⟩
  | some h => exact .inr ⟨_, _, rfl, rfl, h⟩

theorem isSome_eq {item : Option α} {item' : Option β} (h : Option.Rel related item item') :
    item.isSome = item'.isSome := by
  cases h <;> rfl

theorem isNone_eq {item : Option α} {item' : Option β} (h : Option.Rel related item item') :
    item.isNone = item'.isNone := by
  cases h <;> rfl

theorem find?_rel (h : List.Forall₂ related items items')
    (htest : ∀ item item', related item item' → test item = test' item') :
    Option.Rel related (items.find? test) (items'.find? test') := by
  induction h with
  | nil => exact .none
  | cons hitem _ ih =>
    simp only [List.find?_cons, htest _ _ hitem]
    split
    · exact .some hitem
    · exact ih

theorem getElem?_rel (h : List.Forall₂ related items items') (position : Nat) :
    Option.Rel related items[position]? items'[position]? := by
  induction h generalizing position with
  | nil => exact .none
  | cons hitem _ ih =>
    cases position with
    | zero => exact .some hitem
    | succ position => exact ih position

theorem getD_rel (h : List.Forall₂ related items items') {default : α} {default' : β}
    (hdefault : related default default') (position : Nat) :
    related (items.getD position default) (items'.getD position default') := by
  simp only [List.getD_eq_getElem?_getD]
  obtain ⟨hnone, hnone'⟩ | ⟨item, item', hsome, hsome', hitem⟩ := rel_cases (getElem?_rel h position)
  · rw [hnone, hnone']
    exact hdefault
  · rw [hsome, hsome']
    exact hitem

theorem any_eq (h : List.Forall₂ related items items')
    (htest : ∀ item item', related item item' → test item = test' item') :
    items.any test = items'.any test' := by
  induction h with
  | nil => rfl
  | cons hitem _ ih => simp only [List.any_cons, htest _ _ hitem, ih]

end

end

section

variable {ε σ : Type} {α β γ δ : Type}

/-- Both runs end in related answers and states, or both fail with one error. -/
inductive Coincide (related : α → σ → β → σ → Prop) :
    EStateM.Result ε σ α → EStateM.Result ε σ β → Prop
  | ok {answer : α} {answer' : β} {state state' : σ} (h : related answer state answer' state') :
      Coincide related (.ok answer state) (.ok answer' state')
  | error (error : ε) (state state' : σ) :
      Coincide related (.error error state) (.error error state')

namespace Coincide

variable {related : α → σ → β → σ → Prop} {next : γ → σ → δ → σ → Prop}
variable {run : EStateM ε σ α} {run' : EStateM ε σ β} {state state' : σ}

theorem bind {step : α → EStateM ε σ γ} {step' : β → EStateM ε σ δ}
    (h : Coincide related (run state) (run' state'))
    (hstep : ∀ answer state answer' state', related answer state answer' state' →
      Coincide next (step answer state) (step' answer' state')) :
    Coincide next ((run >>= step) state) ((run' >>= step') state') := by
  simp only [Bind.bind, EStateM.bind]
  revert h
  generalize run state = result
  generalize run' state' = result'
  rintro ⟨⟩
  case ok h => exact hstep _ _ _ _ h
  case error error _ _ => exact .error error _ _

theorem bind_get {step : σ → EStateM ε σ γ} {step' : σ → EStateM ε σ δ}
    (h : Coincide next (step state state) (step' state' state')) :
    Coincide next ((get >>= step) state) ((get >>= step') state') := h

theorem imp {result : EStateM.Result ε σ α} {result' : EStateM.Result ε σ β}
    {other : α → σ → β → σ → Prop} (h : Coincide related result result')
    (himp : ∀ answer state answer' state', related answer state answer' state' →
      other answer state answer' state') : Coincide other result result' := by
  cases h with
  | ok h => exact .ok (himp _ _ _ _ h)
  | error error => exact .error error _ _

theorem tryCatch {run : EStateM ε σ α} {run' : EStateM ε σ β} {handler : ε → EStateM ε σ α}
    {handler' : ε → EStateM ε σ β} (h : Coincide related (run state) (run' state'))
    (hhandler : ∀ error state state',
      Coincide related (handler error state) (handler' error state')) :
    Coincide related ((MonadExcept.tryCatch run handler) state)
      ((MonadExcept.tryCatch run' handler') state') := by
  simp only [MonadExcept.tryCatch, tryCatchThe, MonadExceptOf.tryCatch, EStateM.tryCatch]
  revert h
  generalize run state = result
  generalize run' state' = result'
  rintro ⟨⟩
  case ok h => exact .ok h
  case error error state state' => exact hhandler error state state'

theorem and_yields {ok : α → σ → Prop} {err : ε → σ → Prop} {ok' : β → σ → Prop}
    {err' : ε → σ → Prop} (h : Coincide related (run state) (run' state'))
    (hyields : Yields run state ok err) (hyields' : Yields run' state' ok' err') :
    Coincide (fun answer state answer' state' => related answer state answer' state' ∧
      ok answer state ∧ ok' answer' state') (run state) (run' state') := by
  unfold Yields at hyields hyields'
  revert h hyields hyields'
  generalize run state = result
  generalize run' state' = result'
  rintro ⟨⟩ hok hok'
  case ok h => exact .ok ⟨h, hok, hok'⟩
  case error error _ _ => exact .error error _ _

theorem foldlM {item : α → β → Prop} {items : List α} {items' : List β}
    {step : γ → α → EStateM ε σ γ} {step' : δ → β → EStateM ε σ δ} {start : γ} {start' : δ}
    (hstart : next start state start' state') (h : List.Forall₂ item items items')
    (hstep : ∀ current state current' state' first first', next current state current' state' →
      first ∈ items → first' ∈ items' → item first first' →
      Coincide next (step current first state) (step' current' first' state')) :
    Coincide next (items.foldlM step start state) (items'.foldlM step' start' state') := by
  induction h generalizing start start' state state' with
  | nil => exact .ok hstart
  | cons hitem _ ih =>
    rw [List.foldlM_cons, List.foldlM_cons]
    refine (hstep _ _ _ _ _ _ hstart (by simp) (by simp) hitem).bind
      fun _ _ _ _ hnext => ih hnext fun _ _ _ _ _ _ hcurrent hmem hmem' => ?_
    exact hstep _ _ _ _ _ _ hcurrent (List.mem_cons_of_mem _ hmem) (List.mem_cons_of_mem _ hmem')

end Coincide

end

namespace Table

variable {κ κ' α β : Type} {keys : κ → κ' → Prop} {values : α → β → Prop}
variable {table : Table κ α} {table' : Table κ' β}

/-- Entry by entry, the keys and the values of the tables are related. -/
def Matches (keys : κ → κ' → Prop) (values : α → β → Prop) (table : Table κ α)
    (table' : Table κ' β) : Prop :=
  List.Forall₂ (fun entry entry' => keys entry.1 entry'.1 ∧ values entry.2 entry'.2) table.entries
    table'.entries

namespace Matches

theorem empty : Matches keys values ∅ ∅ := .nil

theorem imp {keys' : κ → κ' → Prop} {values' : α → β → Prop} (h : Matches keys values table table')
    (hkeys : ∀ key key', keys key key' → keys' key key')
    (hvalues : ∀ value value', values value value' → values' value value') :
    Matches keys' values' table table' :=
  List.Forall₂.imp (fun _ _ hentry => ⟨hkeys _ _ hentry.1, hvalues _ _ hentry.2⟩) h

variable [DecidableEq κ] [DecidableEq κ'] {key : κ} {key' : κ'} {value : α} {value' : β}
variable (hunique : Relator.BiUnique keys)
include hunique

theorem get? (h : Matches keys values table table') (hkey : keys key key') :
    Option.Rel values (table.get? key) (table'.get? key') := by
  obtain ⟨entries⟩ := table
  obtain ⟨entries'⟩ := table'
  simp only [Matches] at h
  simp only [Table.get?]
  induction h with
  | nil => exact .none
  | @cons entry entry' _ _ hentry _ ih =>
    simp only [find, Relator.rel_eq hunique hentry.1 hkey]
    split
    · exact .some hentry.2
    · exact ih

theorem contains (h : Matches keys values table table') (hkey : keys key key') :
    table.contains key = table'.contains key' :=
  isSome_eq (h.get? hunique hkey)

theorem insert (h : Matches keys values table table') (hkey : keys key key')
    (hvalue : values value value') :
    Matches keys values (table.insert key value) (table'.insert key' value') := by
  obtain ⟨entries⟩ := table
  obtain ⟨entries'⟩ := table'
  simp only [Matches] at h
  simp only [Matches, Table.insert]
  induction h with
  | nil => exact .cons ⟨hkey, hvalue⟩ .nil
  | @cons entry entry' _ _ hentry hrest ih =>
    simp only [put, Relator.rel_eq hunique hentry.1 hkey]
    split
    · exact .cons ⟨hkey, hvalue⟩ hrest
    · exact .cons hentry ih

theorem erase (h : Matches keys values table table') (hkey : keys key key') :
    Matches keys values (table.erase key) (table'.erase key') := by
  refine List.rel_filter ?_ h
  intro entry entry' hentry
  simp [Relator.rel_eq hunique hentry.1 hkey]

end Matches

/-- Tables with the same names and related values. -/
abbrev Pairs (values : α → β → Prop) : Table String α → Table String β → Prop := Matches Eq values

theorem biUnique_eq {κ : Type} : Relator.BiUnique (@Eq κ) :=
  ⟨fun _ _ _ h h' => h.trans h'.symm, fun _ _ _ h h' => h.symm.trans h'⟩

theorem Pairs.keys_eq {table : Table String α} {table' : Table String β}
    (h : Pairs values table table') : table.keys = table'.keys := by
  obtain ⟨entries⟩ := table
  obtain ⟨entries'⟩ := table'
  simp only [Matches] at h
  simp only [keys]
  induction h with
  | nil => rfl
  | cons hentry _ ih => simp only [List.map_cons, hentry.1, ih]

end Table

end Attire
