import Attire.Machine.Eval
import Attire.Proofs.Lowering.References

namespace Attire

open Machine

/-! Code that only reads its frame: it leaves the frame as it is, and depends on no slots but those
that it mentions. -/

variable {α β γ : Type}

/-- The frames have the same values in these slots. -/
structure Frame.Agrees (slots : List Nat) (frame other : Frame) : Prop where
  this : frame.this = other.this
  caller : frame.caller = other.caller
  get : ∀ slot ∈ slots, frame.get slot = other.get slot

theorem Frame.Agrees.refl (slots : List Nat) (frame : Frame) : frame.Agrees slots frame :=
  ⟨rfl, rfl, fun _ _ => rfl⟩

/-- The run leaves its frame as it is, and ends alike in all frames that agree on the slots. -/
def OnlyReads (slots : List Nat) (run : Exec α) : Prop :=
  ∀ frame other : Frame, frame.Agrees slots other →
    run.run other = (fun answer => (answer.1, other)) <$> run.run frame

namespace OnlyReads

variable {slots : List Nat} {run : Exec α}

theorem pure (answer : α) : OnlyReads slots (pure answer : Exec α) := fun _ _ _ => rfl

theorem bind {next : α → Exec β} (h : OnlyReads slots run)
    (hnext : ∀ answer, OnlyReads slots (next answer)) : OnlyReads slots (run >>= next) := by
  intro frame other hagrees
  have hself : run.run frame = (fun answer => (answer.1, frame)) <$> run.run frame :=
    h frame frame (.refl slots frame)
  rw [StateT.run_bind, h frame other hagrees, bind_map_left, StateT.run_bind, map_bind]
  conv_rhs => rw [hself, bind_map_left]
  exact congrArg (run.run frame >>= ·) (funext fun answer => hnext answer.1 frame other hagrees)

theorem lift (run : Run α) : OnlyReads slots (liftM run : Exec α) := by
  intro frame other _
  change (run >>= fun answer => Pure.pure (answer, other)) =
    _ <$> (run >>= fun answer => Pure.pure (answer, frame))
  simp only [map_bind, map_pure]

/-- What depends on the frame depends on the slots, the receiver and the caller only. -/
theorem bind_get {next : Frame → Exec β}
    (h : ∀ frame other, frame.Agrees slots other → next frame = next other)
    (hnext : ∀ frame, OnlyReads slots (next frame)) : OnlyReads slots (get >>= next) := by
  intro frame other hagrees
  have := hnext frame frame other hagrees
  rw [StateT.run_bind, StateT.run_bind]
  change (next other).run other = _ <$> (next frame).run frame
  rw [← h frame other hagrees, this]

theorem mapM {action : γ → Exec α} : ∀ {items : List γ},
    (∀ item ∈ items, OnlyReads slots (action item)) → OnlyReads slots (items.mapM action)
  | [], _ => pure []
  | item :: rest, h => by
    rw [List.mapM_cons]
    exact (h item List.mem_cons_self).bind fun _ =>
      (mapM fun other hmem => h other (List.mem_cons_of_mem _ hmem)).bind fun _ => pure _

end OnlyReads

/-- All of the mentions are readings of these slots. -/
def ReadingsOf (slots : List Nat) (mentions : List Mention) : Prop :=
  ∀ mention ∈ mentions, ∃ slot ∈ slots, mention = .read slot

theorem readingsOf_append {slots : List Nat} {left right : List Mention} :
    ReadingsOf slots (left ++ right) ↔ ReadingsOf slots left ∧ ReadingsOf slots right := by
  simp only [ReadingsOf, List.mem_append, or_imp, forall_and]

theorem readingsOf_all {slots : List Nat} {codes : List Code}
    (h : ReadingsOf slots (Code.allMentions codes)) :
    ∀ code ∈ codes, ReadingsOf slots code.mentions := by
  induction codes with
  | nil => nofun
  | cons code rest ih =>
    obtain ⟨hcode, hrest⟩ := readingsOf_append.mp h
    exact List.forall_mem_cons.mpr ⟨hcode, ih hrest⟩

theorem readingsOf_steps {slots : List Nat} {parts : List StepCode}
    (h : ReadingsOf slots (StepCode.allMentions parts)) :
    ∀ part ∈ parts, ReadingsOf slots part.mentions := by
  induction parts with
  | nil => nofun
  | cons part rest ih =>
    obtain ⟨hpart, hrest⟩ := readingsOf_append.mp h
    exact List.forall_mem_cons.mpr ⟨hpart, ih hrest⟩

theorem onlyReads_getThe {slots : List Nat} {next : Machine → Exec α}
    (h : ∀ machine, OnlyReads slots (next machine)) : OnlyReads slots (getThe Machine >>= next) :=
  (OnlyReads.lift get).bind h

theorem onlyReads_currentHeap {slots : List Nat} {next : Heap → Exec α}
    (h : ∀ heap, OnlyReads slots (next heap)) : OnlyReads slots (currentHeap >>= next) :=
  (onlyReads_getThe fun machine => .pure machine.heap).bind h

namespace Machine

/-- Expressions without stores only read their frame, if this holds with fewer steps. -/
structure Reading (slots : List Nat) (steps : Nat) : Prop where
  eval (code : Code) : ReadingsOf slots code.mentions → OnlyReads slots (eval steps code)
  evalStep (part : StepCode) :
    ReadingsOf slots part.mentions → OnlyReads slots (evalStep steps part)

namespace Reading

variable {slots : List Nat} {steps : Nat}

theorem evals (h : Reading slots steps) {codes : List Code}
    (hreads : ReadingsOf slots (Code.allMentions codes)) :
    OnlyReads slots (codes.mapM (Machine.eval steps)) :=
  .mapM fun code hmem => h.eval code (readingsOf_all hreads code hmem)

theorem eval_succ (h : Reading slots steps) (code : Code)
    (hreads : ReadingsOf slots code.mentions) :
    OnlyReads slots (Machine.eval (steps + 1) code) := by
  cases code <;> unfold Machine.eval
  case num | text | bool | null | const => exact .pure _
  case «default» | newArray | newMap | newSet => exact .lift _
  case «local» slot =>
    obtain ⟨found, hmem, hslot⟩ := hreads _ (List.mem_singleton_self _)
    cases hslot
    exact .bind_get (fun _ _ hagrees => congrArg Pure.pure (hagrees.get slot hmem)) fun _ => .pure _
  case tee slot value =>
    obtain ⟨found, -, hslot⟩ := hreads (.write slot) (List.mem_append_right _ List.mem_cons_self)
    cases hslot
  case this => exact .bind_get (fun _ _ hagrees => congrArg Pure.pure hagrees.this) fun _ => .pure _
  case caller =>
    exact .bind_get (fun _ _ hagrees => congrArg Pure.pure hagrees.caller) fun _ => .pure _
  case getField object key ty =>
    refine (h.eval object hreads).bind fun target => onlyReads_currentHeap fun heap => ?_
    split
    · exact .pure _
    · exact .lift _
  case index object kind index ty =>
    obtain ⟨hobject, hindex⟩ := readingsOf_append.mp hreads
    refine (h.eval object hobject).bind fun container => (h.eval index hindex).bind fun position =>
      onlyReads_currentHeap fun heap => ?_
    split
    · exact .pure _
    · exact .lift _
  case tupleGet tuple _ =>
    refine (h.eval tuple hreads).bind fun value => ?_
    split <;> exact .pure _
  case call object slot args ret =>
    obtain ⟨hobject, hargs⟩ := readingsOf_append.mp hreads
    refine (h.eval object hobject).bind fun target => (h.evals hargs).bind fun values => ?_
    exact .bind_get (fun _ _ hagrees => by rw [hagrees.this]) fun _ => .lift _
  case superCall parent slot args =>
    refine (h.evals hreads).bind fun values => (OnlyReads.lift _).bind fun routine => ?_
    cases routine with
    | none => exact onlyReads_getThe fun _ => .lift _
    | some routine =>
      refine .bind_get (fun _ _ hagrees => ?_) fun _ => ?_
      · rw [hagrees.this]
      · exact .bind_get (fun _ _ hagrees => by rw [hagrees.caller]) fun _ => .lift _
  case new cls => exact (OnlyReads.lift _).bind fun _ => .pure _
  case array elements => exact (h.evals hreads).bind fun _ => .lift _
  case tuple elements => exact (h.evals hreads).bind fun _ => .pure _
  case arith _ left right | concat left right | compare _ left right | equal _ left right =>
    obtain ⟨hleft, hright⟩ := readingsOf_append.mp hreads
    exact (h.eval left hleft).bind fun _ => (h.eval right hright).bind fun _ => .pure _
  case merge left right =>
    obtain ⟨hleft, hright⟩ := readingsOf_append.mp hreads
    exact (h.eval left hleft).bind fun _ => (h.eval right hright).bind fun _ => .lift _
  case has left right =>
    obtain ⟨hleft, hright⟩ := readingsOf_append.mp hreads
    exact (h.eval left hleft).bind fun _ => (h.eval right hright).bind fun _ =>
      onlyReads_currentHeap fun _ => .pure _
  case logic conjunction left right =>
    obtain ⟨hleft, hright⟩ := readingsOf_append.mp hreads
    refine (h.eval left hleft).bind fun answer => ?_
    split
    · exact (h.eval right hright).bind fun _ => .pure _
    · exact .pure _
  case not value | neg value => exact (h.eval value hreads).bind fun _ => .pure _
  case cast value _ | len value | is value _ =>
    exact (h.eval value hreads).bind fun _ => onlyReads_currentHeap fun _ => .pure _
  case clone value => exact (h.eval value hreads).bind fun _ => .lift _
  case random =>
    refine .bind_get (fun _ _ hagrees => by rw [hagrees.this]) fun frame => ?_
    split
    · exact (OnlyReads.lift _).bind fun _ => .pure _
    · exact .pure _
  case suggest parts =>
    exact (OnlyReads.mapM fun part hmem =>
      h.evalStep part (readingsOf_steps hreads part hmem)).bind fun _ => .lift _

theorem evalStep_succ (h : Reading slots steps) (part : StepCode)
    (hreads : ReadingsOf slots part.mentions) :
    OnlyReads slots (Machine.evalStep (steps + 1) part) := by
  cases part <;> unfold Machine.evalStep
  case extend target _ | retract target _ =>
    exact (h.eval target hreads).bind fun _ => .pure _
  case call target slot args =>
    obtain ⟨htarget, hargs⟩ := readingsOf_append.mp hreads
    refine (h.eval target htarget).bind fun value => ?_
    exact .bind_get (fun _ _ hagrees => by rw [hagrees.this]) fun _ =>
      (h.evals hargs).bind fun _ => .pure _

end Reading

theorem reading (slots : List Nat) : ∀ steps, Reading slots steps
  | 0 =>
    { eval := fun _ _ => by rw [eval]; exact .lift _
      evalStep := fun _ _ => by rw [evalStep]; exact .lift _ }
  | steps + 1 =>
    { eval := (reading slots steps).eval_succ
      evalStep := (reading slots steps).evalStep_succ }

end Machine

end Attire
