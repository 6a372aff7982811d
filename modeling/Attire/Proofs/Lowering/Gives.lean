import Attire.Lowering.Stmt

namespace Attire.Lower

/-! Rules for compilations.  A compilation always yields code and a new state. -/

section

variable {α β : Type} {state : LoweringState}

def Gives (run : Lower α) (state : LoweringState) (post : α → LoweringState → Prop) : Prop :=
  post (run.run state).1 (run.run state).2

variable {run : Lower α} {post post' : α → LoweringState → Prop}

@[simp] theorem gives_pure {answer : α} :
    Gives (pure answer) state post ↔ post answer state := Iff.rfl

@[simp] theorem gives_bind {next : α → Lower β} {post : β → LoweringState → Prop} :
    Gives (run >>= next) state post ↔
      Gives run state fun answer state => Gives (next answer) state post := Iff.rfl

@[simp] theorem gives_get {post : LoweringState → LoweringState → Prop} :
    Gives get state post ↔ post state state := Iff.rfl

@[simp] theorem gives_modify {change : LoweringState → LoweringState}
    {post : PUnit → LoweringState → Prop} :
    Gives (modify change) state post ↔ post ⟨⟩ (change state) := Iff.rfl

theorem Gives.imp (h : Gives run state post)
    (himp : ∀ answer state, post answer state → post' answer state) :
    Gives run state post' :=
  himp _ _ h

theorem Gives.bind {next : α → Lower β} {post' : β → LoweringState → Prop}
    (hrun : Gives run state post)
    (hnext : ∀ answer state, post answer state → Gives (next answer) state post') :
    Gives (run >>= next) state post' :=
  hnext _ _ hrun

/-- A compilation of which nothing needs to be known. -/
theorem Gives.seq {next : α → Lower β} {post : β → LoweringState → Prop}
    (hnext : ∀ answer state, Gives (next answer) state post) :
    Gives (run >>= next) state post :=
  hnext _ _

end

theorem finish_eq_ok {name : String} {arity : Nat} {ret : Ty} {run : Lower (List Instr)}
    {routine : Routine} (h : finish name arity ret run = .ok routine) :
    Gives run {} fun body state =>
      state.missing = none ∧ routine = { name, arity, slots := state.slots.count, ret, body } := by
  cases hrun : run.run {} with | mk body state =>
  unfold Gives
  simp only [finish, hrun] at h ⊢
  cases hmissing : state.missing with
  | some what => simp [hmissing] at h
  | none =>
    rw [hmissing] at h
    cases h
    exact ⟨rfl, rfl⟩

theorem inBlock_gives {α : Type} {run : Lower α} {post : α → Prop}
    (h : ∀ state, Gives run state fun answer _ => post answer) (state : LoweringState) :
    Gives (inBlock run) state fun answer _ => post answer :=
  h _

end Attire.Lower
