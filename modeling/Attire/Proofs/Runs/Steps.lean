import Attire.Machine.Eval

namespace Attire

open Machine

/-! A run that ends within the steps that it may take ends alike if it may take more. -/

variable {α β γ : Type}

/-- Where the run does not use up its steps, `more` ends as it does. -/
def Refines (run more : Run α) : Prop :=
  ∀ machine, (∃ after, run machine = .error .exhausted after) ∨ run machine = more machine

namespace Refines

variable {run more last : Run α}

theorem refl (run : Run α) : Refines run run := fun _ => .inr rfl

theorem exhausted : Refines Machine.exhausted more := fun machine => .inl ⟨machine, rfl⟩

theorem trans (h : Refines run more) (h' : Refines more last) : Refines run last := by
  intro machine
  rcases h machine with h | h
  · exact .inl h
  · rw [h]
    exact h' machine

theorem bind {next next' : α → Run β} (h : Refines run more)
    (hnext : ∀ answer, Refines (next answer) (next' answer)) :
    Refines (run >>= next) (more >>= next') := by
  intro machine
  simp only [Bind.bind, EStateM.bind]
  rcases h machine with ⟨after, h⟩ | h
  · exact .inl ⟨after, by rw [h]⟩
  · rw [h]
    cases more machine with
    | ok answer after => exact hnext answer after
    | error halt after => exact .inr rfl

theorem map {change : α → β} (h : Refines run more) :
    Refines (change <$> run) (change <$> more) := by
  rw [map_eq_pure_bind, map_eq_pure_bind]
  exact h.bind fun _ => refl _

theorem nested (h : Refines run more) : Refines (Machine.nested run) (Machine.nested more) := by
  intro machine
  simp only [Machine.nested]
  rcases h { machine with depth := machine.depth + 1 } with ⟨after, h⟩ | h
  · exact .inl ⟨_, by rw [h]⟩
  · exact .inr (by rw [h])

theorem forM {action action' : γ → Run PUnit} (h : ∀ item, Refines (action item) (action' item)) :
    ∀ items : List γ, Refines (items.forM action) (items.forM action')
  | [] => refl _
  | item :: rest => (h item).bind fun _ => forM h rest

end Refines

/-- The same of runs in a frame. -/
def RefinesIn (run more : Exec α) : Prop := ∀ frame, Refines (run.run frame) (more.run frame)

namespace RefinesIn

variable {run more : Exec α}

theorem refl (run : Exec α) : RefinesIn run run := fun _ => .refl _

theorem lift {run more : Run α} (h : Refines run more) :
    RefinesIn (liftM run : Exec α) (liftM more : Exec α) :=
  fun _ => h.bind fun _ => .refl _

theorem exhausted : RefinesIn (liftM (Machine.exhausted : Run α)) more :=
  fun _ machine => .inl ⟨machine, rfl⟩

theorem bind {next next' : α → Exec β} (h : RefinesIn run more)
    (hnext : ∀ answer, RefinesIn (next answer) (next' answer)) :
    RefinesIn (run >>= next) (more >>= next') :=
  fun frame => (h frame).bind fun answer => hnext answer.1 answer.2

theorem mapM {action action' : γ → Exec α} (h : ∀ item, RefinesIn (action item) (action' item)) :
    ∀ items : List γ, RefinesIn (items.mapM action) (items.mapM action')
  | [] => refl _
  | item :: rest => by
    rw [List.mapM_cons, List.mapM_cons]
    exact (h item).bind fun _ => (mapM h rest).bind fun _ => refl _

end RefinesIn

/-- One step more changes nothing but runs that use up theirs. -/
structure Machine.Refining (steps : Nat) : Prop where
  eval (code : Code) : RefinesIn (eval steps code) (eval (steps + 1) code)
  evalStep (code : StepCode) : RefinesIn (evalStep steps code) (evalStep (steps + 1) code)
  exec (instr : Instr) : RefinesIn (exec steps instr) (exec (steps + 1) instr)
  execBlock (body : List Instr) : RefinesIn (execBlock steps body) (execBlock (steps + 1) body)
  repeatWhile (cond : Code) (body : List Instr) :
    RefinesIn (repeatWhile steps cond body) (repeatWhile (steps + 1) cond body)
  repeatFor (first : Nat) (second : Option Nat) (body : List Instr)
    (rounds : List (Value × Option Value)) :
    RefinesIn (repeatFor steps first second body rounds)
      (repeatFor (steps + 1) first second body rounds)
  invoke (routine : Routine) (this caller : Value) (args : List Value) :
    Refines (invoke steps routine this caller args) (invoke (steps + 1) routine this caller args)
  dispatch (target : Value) (slot : MethodSlot) (caller : Value) (args : List Value) (ret : Ty) :
    Refines (dispatch steps target slot caller args ret)
      (dispatch (steps + 1) target slot caller args ret)
  initializeMissing (ref : Ref) :
    Refines (initializeMissing steps ref) (initializeMissing (steps + 1) ref)
  remanifest (ref : Ref) : Refines (remanifest steps ref) (remanifest (steps + 1) ref)
  instantiate (cls : ClassId) : Refines (instantiate steps cls) (instantiate (steps + 1) cls)
  extend (ref : Ref) (cls : ClassId) : Refines (extend steps ref cls) (extend (steps + 1) ref cls)
  retract (ref : Ref) (cls : ClassId) :
    Refines (retract steps ref cls) (retract (steps + 1) ref cls)
  enforce (batch : List Step) : Refines (enforce steps batch) (enforce (steps + 1) batch)

namespace Machine.Refining

variable {steps : Nat}

theorem eval_succ (h : Refining steps) (code : Code) :
    RefinesIn (Machine.eval (steps + 1) code) (Machine.eval (steps + 2) code) := by
  cases code <;> unfold Machine.eval
  case num | text | bool | null | «default» | «local» | this | caller | const | newArray | newMap
    | newSet | random => exact .refl _
  case tee slot value => exact (h.eval value).bind fun _ => .refl _
  case getField object _ _ => exact (h.eval object).bind fun _ => .refl _
  case index object _ index _ =>
    exact (h.eval object).bind fun _ => (h.eval index).bind fun _ => .refl _
  case tupleGet tuple _ => exact (h.eval tuple).bind fun _ => .refl _
  case call object slot args ret =>
    refine (h.eval object).bind fun target => (RefinesIn.mapM h.eval args).bind fun values => ?_
    exact (RefinesIn.refl _).bind fun frame => .lift (h.dispatch target slot _ values ret)
  case superCall parent slot args =>
    refine (RefinesIn.mapM h.eval args).bind fun values => (RefinesIn.refl _).bind fun routine => ?_
    cases routine with
    | none => exact .refl _
    | some routine =>
      exact (RefinesIn.refl _).bind fun _ => (RefinesIn.refl _).bind fun _ =>
        .lift (h.invoke routine _ _ values)
  case new cls => exact (RefinesIn.lift (h.instantiate cls)).bind fun _ => .refl _
  case array elements | tuple elements =>
    exact (RefinesIn.mapM h.eval elements).bind fun _ => .refl _
  case arith _ left right | concat left right | compare _ left right | equal _ left right
    | merge left right | has left right =>
    exact (h.eval left).bind fun _ => (h.eval right).bind fun _ => .refl _
  case logic conjunction left right =>
    refine (h.eval left).bind fun answer => ?_
    split
    · exact (h.eval right).bind fun _ => .refl _
    · exact .refl _
  case not value | neg value | cast value _ | clone value | len value | is value _ =>
    exact (h.eval value).bind fun _ => .refl _
  case suggest parts => exact (RefinesIn.mapM h.evalStep parts).bind fun _ => .refl _

theorem evalStep_succ (h : Refining steps) (code : StepCode) :
    RefinesIn (Machine.evalStep (steps + 1) code) (Machine.evalStep (steps + 2) code) := by
  cases code <;> unfold Machine.evalStep
  case extend target _ | retract target _ => exact (h.eval target).bind fun _ => .refl _
  case call target _ args =>
    exact (h.eval target).bind fun _ => (RefinesIn.refl _).bind fun _ =>
      (RefinesIn.mapM h.eval args).bind fun _ => .refl _

theorem exec_succ (h : Refining steps) (instr : Instr) :
    RefinesIn (Machine.exec (steps + 1) instr) (Machine.exec (steps + 2) instr) := by
  cases instr <;> unfold Machine.exec
  case eval code | store _ code | «return» code => exact (h.eval code).bind fun _ => .refl _
  case setField target _ value | append target value | remove target value =>
    exact (h.eval target).bind fun _ => (h.eval value).bind fun _ => .refl _
  case setIndex target _ index value =>
    exact (h.eval target).bind fun _ => (h.eval index).bind fun _ =>
      (h.eval value).bind fun _ => .refl _
  case branch cond yes no =>
    refine (h.eval cond).bind fun answer => ?_
    split
    · exact h.execBlock yes
    · exact h.execBlock no
  case «while» cond body => exact h.repeatWhile cond body
  case forEach source kind first second body =>
    exact (h.eval source).bind fun _ => (RefinesIn.refl _).bind fun _ =>
      h.repeatFor first second body _
  case «break» | «continue» | release => exact .refl _
  case extend target cls =>
    refine (h.eval target).bind fun value => ?_
    split
    · exact (RefinesIn.lift (h.extend _ cls)).bind fun _ => .refl _
    · exact .refl _
  case retract target cls =>
    refine (h.eval target).bind fun value => ?_
    split
    · exact (RefinesIn.lift (h.retract _ cls)).bind fun _ => .refl _
    · exact .refl _
  case enforce code =>
    refine (h.eval code).bind fun value => ?_
    split
    · exact (RefinesIn.lift (h.enforce _)).bind fun _ => .refl _
    · exact .refl _

theorem execBlock_succ (h : Refining steps) (body : List Instr) :
    RefinesIn (Machine.execBlock (steps + 1) body) (Machine.execBlock (steps + 2) body) := by
  cases body with
  | nil => exact .refl _
  | cons instr rest =>
    unfold Machine.execBlock
    refine (h.exec instr).bind fun flow => ?_
    split
    · exact h.execBlock rest
    · exact .refl _

theorem repeatWhile_succ (h : Refining steps) (cond : Code) (body : List Instr) :
    RefinesIn (Machine.repeatWhile (steps + 1) cond body)
      (Machine.repeatWhile (steps + 2) cond body) := by
  unfold Machine.repeatWhile
  refine (h.eval cond).bind fun answer => ?_
  split
  · refine (h.execBlock body).bind fun flow => ?_
    split
    · exact .refl _
    · exact .refl _
    · exact h.repeatWhile cond body
    · exact h.repeatWhile cond body
  · exact .refl _

theorem repeatFor_succ (h : Refining steps) (first : Nat) (second : Option Nat) (body : List Instr)
    (rounds : List (Value × Option Value)) :
    RefinesIn (Machine.repeatFor (steps + 1) first second body rounds)
      (Machine.repeatFor (steps + 2) first second body rounds) := by
  rcases rounds with _ | ⟨⟨a, b⟩, rest⟩
  · exact .refl _
  unfold Machine.repeatFor
  refine (RefinesIn.refl _).bind fun _ => ?_
  dsimp only
  split
  case' h_1 => refine (RefinesIn.refl _).bind fun _ => ?_
  all_goals
    refine (h.execBlock body).bind fun flow => ?_
    cases flow with
    | next | «continue» => exact h.repeatFor first _ body rest
    | «break» | «return» => exact .refl _

theorem invoke_succ (h : Refining steps) (routine : Routine) (this caller : Value)
    (args : List Value) :
    Refines (Machine.invoke (steps + 1) routine this caller args)
      (Machine.invoke (steps + 2) routine this caller args) := by
  unfold Machine.invoke
  refine (Refines.refl _).bind fun machine => ?_
  split
  · exact .refl _
  · exact (h.execBlock routine.body _).map.nested.bind fun _ => .refl _

theorem dispatch_succ (h : Refining steps) (target : Value) (slot : MethodSlot) (caller : Value)
    (args : List Value) (ret : Ty) :
    Refines (Machine.dispatch (steps + 1) target slot caller args ret)
      (Machine.dispatch (steps + 2) target slot caller args ret) := by
  unfold Machine.dispatch
  refine (Refines.refl _).bind fun machine => ?_
  split
  · exact h.invoke _ target caller args
  · exact .refl _

theorem initializeMissing_succ (h : Refining steps) (ref : Ref) :
    Refines (Machine.initializeMissing (steps + 1) ref)
      (Machine.initializeMissing (steps + 2) ref) := by
  unfold Machine.initializeMissing
  refine (Refines.refl _).bind fun machine => Refines.forM (fun field => ?_) _
  split
  · exact (h.invoke _ _ _ _).bind fun _ => .refl _
  · exact .refl _

theorem remanifest_succ (h : Refining steps) (ref : Ref) :
    Refines (Machine.remanifest (steps + 1) ref) (Machine.remanifest (steps + 2) ref) := by
  unfold Machine.remanifest
  exact (Refines.refl _).bind fun _ => h.initializeMissing ref

theorem instantiate_succ (h : Refining steps) (cls : ClassId) :
    Refines (Machine.instantiate (steps + 1) cls) (Machine.instantiate (steps + 2) cls) := by
  unfold Machine.instantiate
  refine (Refines.refl _).bind fun machine => ?_
  split
  · exact (Refines.refl _).bind fun ref => (h.remanifest ref).bind fun _ => .refl _
  · exact .refl _

theorem extend_succ (h : Refining steps) (ref : Ref) (cls : ClassId) :
    Refines (Machine.extend (steps + 1) ref cls) (Machine.extend (steps + 2) ref cls) := by
  unfold Machine.extend
  refine (Refines.refl _).bind fun machine => ?_
  split
  · split
    · exact .refl _
    · split
      · exact .refl _
      · refine (Refines.refl _).bind fun _ => ?_
        split
        · exact .refl _
        · exact h.remanifest ref
  · exact .refl _

theorem retract_succ (h : Refining steps) (ref : Ref) (cls : ClassId) :
    Refines (Machine.retract (steps + 1) ref cls) (Machine.retract (steps + 2) ref cls) := by
  unfold Machine.retract
  exact (Refines.refl _).bind fun _ => h.remanifest ref

theorem enforce_succ (h : Refining steps) (batch : List Step) :
    Refines (Machine.enforce (steps + 1) batch) (Machine.enforce (steps + 2) batch) := by
  unfold Machine.enforce
  refine (Refines.forM (fun step => ?_) batch).bind fun _ =>
    (Refines.forM (fun step => ?_) batch).bind fun _ => Refines.forM (fun step => ?_) batch
  · split
    · exact h.extend _ _
    · exact .refl _
  · split
    · refine (Refines.refl _).bind fun machine => ?_
      split
      · exact (h.invoke _ _ _ _).bind fun _ => .refl _
      · exact .refl _
    · exact .refl _
  · split
    · exact h.retract _ _
    · exact .refl _

theorem zero : Refining 0 where
  eval _ := by rw [Machine.eval]; exact .exhausted
  evalStep _ := by rw [Machine.evalStep]; exact .exhausted
  exec _ := by rw [Machine.exec]; exact .exhausted
  execBlock _ := by rw [Machine.execBlock]; exact .exhausted
  repeatWhile _ _ := by rw [Machine.repeatWhile]; exact .exhausted
  repeatFor _ _ _ _ := by rw [Machine.repeatFor]; exact .exhausted
  invoke _ _ _ _ := by rw [Machine.invoke]; exact .exhausted
  dispatch _ _ _ _ _ := by rw [Machine.dispatch]; exact .exhausted
  initializeMissing _ := by rw [Machine.initializeMissing]; exact .exhausted
  remanifest _ := by rw [Machine.remanifest]; exact .exhausted
  instantiate _ := by rw [Machine.instantiate]; exact .exhausted
  extend _ _ := by rw [Machine.extend]; exact .exhausted
  retract _ _ := by rw [Machine.retract]; exact .exhausted
  enforce _ := by rw [Machine.enforce]; exact .exhausted

theorem succ (h : Refining steps) : Refining (steps + 1) where
  eval := h.eval_succ
  evalStep := h.evalStep_succ
  exec := h.exec_succ
  execBlock := h.execBlock_succ
  repeatWhile := h.repeatWhile_succ
  repeatFor := h.repeatFor_succ
  invoke := h.invoke_succ
  dispatch := h.dispatch_succ
  initializeMissing := h.initializeMissing_succ
  remanifest := h.remanifest_succ
  instantiate := h.instantiate_succ
  extend := h.extend_succ
  retract := h.retract_succ
  enforce := h.enforce_succ

end Machine.Refining

theorem Machine.refining : ∀ steps, Refining steps
  | 0 => .zero
  | steps + 1 => (refining steps).succ

theorem Machine.eval_refines {fewer steps : Nat} (hle : fewer ≤ steps) (code : Code) :
    RefinesIn (eval fewer code) (eval steps code) := by
  induction hle with
  | refl => exact .refl _
  | step _ ih => exact fun frame => (ih frame).trans ((refining _).eval code frame)

theorem Machine.execBlock_refines {fewer steps : Nat} (hle : fewer ≤ steps) (body : List Instr) :
    RefinesIn (execBlock fewer body) (execBlock steps body) := by
  induction hle with
  | refl => exact .refl _
  | step _ ih => exact fun frame => (ih frame).trans ((refining _).execBlock body frame)

end Attire
