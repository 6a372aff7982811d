import Attire.Lowering.Stmt
import Attire.Proofs.Runs.Interchange

namespace Attire

open Machine Lower

/-! Updates of fields and elements: what they evaluate, and how often. -/

namespace Machine

variable {frame other : Frame} {reads : List Nat} {code operand : Code} {steps slot : Nat}
variable {op : CompoundOp} {ty : Ty}

/-- What the code of an expression evaluates to in a frame. -/
def valueOf (frame : Frame) (steps : Nat) (code : Code) : Run Value := (eval steps code).run' frame

theorem valueOf_refines {fewer : Nat} (hle : fewer ≤ steps) :
    Refines (valueOf frame fewer code) (valueOf frame steps code) :=
  (eval_refines hle code frame).map

theorem eval_run (hreads : ReadingsOf reads code.mentions) (hagrees : frame.Agrees reads other) :
    (eval steps code).run other =
      valueOf frame steps code >>= fun value => pure (value, other) := by
  rw [(reading reads steps).eval code hreads frame other hagrees]
  simp only [valueOf, StateT.run', map_eq_pure_bind, bind_assoc, pure_bind]
  rfl

theorem eval_tee (hreads : ReadingsOf reads code.mentions) (hagrees : frame.Agrees reads other) :
    (eval (steps + 1) (.tee slot code)).run other =
      valueOf frame steps code >>= fun value => pure (value, other.set slot value) := by
  rw [eval, StateT.run_bind, eval_run hreads hagrees, bind_assoc]
  rfl

theorem eval_local : (eval (steps + 1) (.local slot)).run frame = pure (frame.get slot, frame) := by
  rw [eval]
  rfl

/-- What was found, or the default of the type where nothing was. -/
def orDefault (ty : Ty) : Option Value → Run Value
  | some value => return value
  | none => defaultValue false ty

theorem run_lookup (find : Heap → Option Value) :
    (currentHeap >>= fun heap =>
        match find heap with
        | some value => (pure value : Exec Value)
        | none => liftM (defaultValue false ty)).run frame =
      (get >>= fun machine : Machine => orDefault ty (find machine.heap)) >>= fun value =>
        pure (value, frame) := by
  funext machine
  change (match find machine.heap with
      | some value => (pure value : Exec Value)
      | none => liftM (defaultValue false ty)).run frame machine =
    (orDefault ty (find machine.heap) >>= fun value => pure (value, frame)) machine
  cases find machine.heap <;> rfl

/-- The value of a field, or the default of its type where the object has none. -/
def fieldOf (target : Value) (key : FieldKey) (ty : Ty) : Run Value := do
  orDefault ty (readField? (← get).heap target key)

theorem eval_getField {key : FieldKey} :
    (eval (steps + 2) (.getField (.local slot) key ty)).run frame =
      fieldOf (frame.get slot) key ty >>= fun value => pure (value, frame) := by
  rw [eval, StateT.run_bind, eval_local, pure_bind]
  exact run_lookup fun heap => readField? heap (frame.get slot) key

/-- The element under a key, or the default of its type where the container has none. -/
def elementOf (container : Value) (kind : IndexKind) (key : Value) (ty : Ty) : Run Value := do
  orDefault ty ((← get).heap.element? container kind key)

theorem eval_index {kind : IndexKind} {position : Nat} :
    (eval (steps + 2) (.index (.local slot) kind (.local position) ty)).run frame =
      elementOf (frame.get slot) kind (frame.get position) ty >>= fun value =>
        pure (value, frame) := by
  rw [eval, StateT.run_bind, eval_local, pure_bind, StateT.run_bind, eval_local, pure_bind]
  exact run_lookup fun heap => heap.element? (frame.get slot) kind (frame.get position)

/-- The new value of a location. -/
def combined (op : CompoundOp) (ty : Ty) (current operand : Value) : Run Value :=
  match op, ty with
  | .add, .text => return .text (current.toText ++ operand.toText)
  | .add, .suggestion => newSuggestion (mergeSteps current operand)
  | .add, _ => return .num (ArithOp.add.apply current.asNum operand.asNum)
  | .sub, _ => return .num (ArithOp.sub.apply current.asNum operand.asNum)
  | .mul, _ => return .num (ArithOp.mul.apply current.asNum operand.asNum)
  | .div, _ => return .num (ArithOp.div.apply current.asNum operand.asNum)

/-- The current value, then the operand, then the new value. -/
def newValue (frame : Frame) (steps : Nat) (op : CompoundOp) (ty : Ty) (current : Run Value)
    (operand : Code) : Run Value := do
  let current ← current
  let operand ← valueOf frame steps operand
  combined op ty current operand

theorem eval_combine {place : Code} {current : Run Value}
    (hplace : (eval steps place).run other = current >>= fun value => pure (value, other))
    (hreads : ReadingsOf reads operand.mentions) (hagrees : frame.Agrees reads other) :
    (eval (steps + 1) (combine op ty place operand)).run other =
      newValue frame steps op ty current operand >>= fun value => pure (value, other) := by
  have hcombine : eval (steps + 1) (combine op ty place operand) =
      eval steps place >>= fun current => eval steps operand >>= fun operand =>
        liftM (combined op ty current operand) := by
    unfold combine combined
    cases op <;> cases ty <;> rw [eval] <;> rfl
  rw [hcombine, StateT.run_bind, hplace, bind_assoc, newValue, bind_assoc]
  refine congrArg (current >>= ·) (funext fun value => ?_)
  rw [pure_bind, StateT.run_bind, eval_run hreads hagrees, bind_assoc, bind_assoc]
  rfl

theorem newValue_refines {current : Run Value} {fewer : Nat} (hle : fewer ≤ steps) :
    Refines (newValue frame fewer op ty current operand)
      (newValue frame steps op ty current operand) :=
  (Refines.refl _).bind fun _ => (valueOf_refines hle).bind fun _ => .refl _

/-- The update of a field of an object that was found before. -/
def updateField (frame : Frame) (steps : Nat) (op : CompoundOp) (ty : Ty) (key : FieldKey)
    (fieldTy : Ty) (operand : Code) (target : Value) : Run Value := do
  let value ← newValue frame steps op ty (fieldOf target key fieldTy) operand
  onHeap (writeField target key value)
  return target

/-- The update of an element of a container that was found before, under a key that was, too. -/
def updateElement (frame : Frame) (steps : Nat) (op : CompoundOp) (ty : Ty) (kind : IndexKind)
    (operand : Code) (container key : Value) : Run (Value × Value) := do
  let value ← newValue frame steps op ty (elementOf container kind key ty) operand
  onHeap fun heap => heap.putElement container kind key value
  return (container, key)

/-- An object, and then the update of its field. -/
def runField (frame : Frame) (early steps : Nat) (op : CompoundOp) (ty : Ty) (key : FieldKey)
    (fieldTy : Ty) (object operand : Code) : Run Value :=
  valueOf frame early object >>= updateField frame steps op ty key fieldTy operand

/-- A container, then a key, and then the update of the element under it. -/
def runElement (frame : Frame) (early middle steps : Nat) (op : CompoundOp) (ty : Ty)
    (kind : IndexKind) (object index operand : Code) : Run (Value × Value) := do
  let container ← valueOf frame early object
  let key ← valueOf frame middle index
  updateElement frame steps op ty kind operand container key

theorem runField_refines {key : FieldKey} {fieldTy : Ty} {object : Code}
    {early early' steps' : Nat} (hearly : early ≤ early') (hsteps : steps ≤ steps') :
    Refines (runField frame early steps op ty key fieldTy object operand)
      (runField frame early' steps' op ty key fieldTy object operand) :=
  (valueOf_refines hearly).bind fun _ => (newValue_refines hsteps).bind fun _ => .refl _

theorem runElement_refines {kind : IndexKind} {object index : Code}
    {early early' middle middle' steps' : Nat} (hearly : early ≤ early')
    (hmiddle : middle ≤ middle') (hsteps : steps ≤ steps') :
    Refines (runElement frame early middle steps op ty kind object index operand)
      (runElement frame early' middle' steps' op ty kind object index operand) :=
  (valueOf_refines hearly).bind fun _ => (valueOf_refines hmiddle).bind fun _ =>
    (newValue_refines hsteps).bind fun _ => .refl _

section Instructions

variable {α : Type} {act act' : Run Value} {place keyPlace : Code} {instr : Instr}
variable {rest : List Instr} {run : Run α}

theorem exec_setField (steps : Nat) (op : CompoundOp) (ty : Ty) (key : FieldKey) (fieldTy : Ty)
    {after : Value → Frame}
    (hplace : (eval (steps + 3) place).run other =
      act >>= fun target => pure (target, after target))
    (hslot : ∀ target, (after target).get slot = target)
    (hreads : ReadingsOf reads operand.mentions)
    (hagrees : ∀ target, frame.Agrees reads (after target)) :
    (exec (steps + 4) (.setField place key
        (combine op ty (.getField (.local slot) key fieldTy) operand))).run other =
      (act >>= updateField frame (steps + 2) op ty key fieldTy operand) >>= fun target =>
        pure (.next, after target) := by
  rw [exec, StateT.run_bind, hplace, bind_assoc, bind_assoc]
  refine congrArg (act >>= ·) (funext fun target => ?_)
  rw [pure_bind, StateT.run_bind, eval_combine eval_getField hreads (hagrees target), hslot,
    bind_assoc, updateField, bind_assoc]
  rfl

theorem exec_setIndex (steps : Nat) (op : CompoundOp) (ty : Ty) (kind : IndexKind) {position : Nat}
    {after : Value → Frame} {after' : Value → Value → Frame}
    (hplace : (eval (steps + 3) place).run other =
      act >>= fun container => pure (container, after container))
    (hkey : ∀ container, (eval (steps + 3) keyPlace).run (after container) =
      act' >>= fun key => pure (key, after' container key))
    (hslot : ∀ container key, (after' container key).get slot = container)
    (hposition : ∀ container key, (after' container key).get position = key)
    (hreads : ReadingsOf reads operand.mentions)
    (hagrees : ∀ container key, frame.Agrees reads (after' container key)) :
    (exec (steps + 4) (.setIndex place kind keyPlace
        (combine op ty (.index (.local slot) kind (.local position) ty) operand))).run other =
      (act >>= fun container => act' >>=
        updateElement frame (steps + 2) op ty kind operand container) >>= fun parts =>
          pure (.next, after' parts.1 parts.2) := by
  rw [exec, StateT.run_bind, hplace, bind_assoc, bind_assoc]
  refine congrArg (act >>= ·) (funext fun container => ?_)
  rw [pure_bind, StateT.run_bind, hkey, bind_assoc, bind_assoc]
  refine congrArg (act' >>= ·) (funext fun key => ?_)
  rw [pure_bind, StateT.run_bind, eval_combine eval_index hreads (hagrees container key), hslot,
    hposition, bind_assoc, updateElement, bind_assoc]
  rfl

theorem execBlock_cons {after : α → Frame}
    (hinstr : (exec steps instr).run other = run >>= fun answer => pure (.next, after answer)) :
    (execBlock (steps + 1) (instr :: rest)).run other =
      run >>= fun answer => (execBlock steps rest).run (after answer) := by
  rw [execBlock, StateT.run_bind, hinstr, bind_assoc]
  rfl

theorem execBlock_store (hreads : ReadingsOf reads code.mentions)
    (hagrees : frame.Agrees reads other) :
    (execBlock (steps + 2) (.store slot code :: rest)).run other =
      valueOf frame steps code >>= fun value =>
        (execBlock (steps + 1) rest).run (other.set slot value) := by
  refine execBlock_cons ?_
  rw [exec, StateT.run_bind, eval_run hreads hagrees, bind_assoc]
  rfl

theorem execBlock_nil :
    (execBlock (steps + 1) []).run other = pure (.next, other) := by
  rw [execBlock]
  rfl

theorem execBlock_release {slots : List Nat} :
    (execBlock (steps + 2) [.release slots]).run other =
      pure (.next, slots.foldl (fun frame slot => frame.set slot .null) other) := by
  have hrelease : (exec (steps + 1) (.release slots)).run other =
      pure slots >>= fun slots => pure
        (.next, slots.foldl (fun frame slot => frame.set slot .null) other) := by
    rw [exec]
    induction slots generalizing other with
    | nil => rfl
    | cons slot rest ih => exact ih
  rw [execBlock_cons hrelease]
  simp only [pure_bind, execBlock_nil]

end Instructions

section Updates

variable {key : FieldKey} {fieldTy : Ty} {kind : IndexKind} {object index : Code}
variable {scratch scratch' slot' : Nat}

/-- The object is in the scratch slot from its evaluation on, until the slot is released. -/
theorem run_setField (hobject : ReadingsOf reads object.mentions)
    (hoperand : ReadingsOf reads operand.mentions) (hscratch : scratch ∉ reads)
    (hsize : scratch < frame.slots.size) :
    (execBlock (steps + 5) [.setField (.tee scratch object) key
        (combine op ty (.getField (.local scratch) key fieldTy) operand),
        .release [scratch]]).run frame =
      runField frame (steps + 2) (steps + 2) op ty key fieldTy object operand >>= fun target =>
        pure (.next, (frame.set scratch target).set scratch .null) := by
  have hself := Frame.Agrees.refl reads frame
  have hupdate := exec_setField steps op ty key fieldTy (eval_tee hobject hself)
    (fun target => Frame.get_set_self hsize) hoperand fun target => hself.set hscratch
  rw [execBlock_cons hupdate]
  exact congrArg _ (funext fun target => execBlock_release)

/-- The same with a variable that has the object. -/
theorem run_storeField (hobject : ReadingsOf reads object.mentions)
    (hoperand : ReadingsOf reads operand.mentions) (hslot : slot ∉ reads)
    (hsize : slot < other.slots.size) (hagrees : frame.Agrees reads other) :
    (execBlock (steps + 6) [.store slot object, .setField (.local slot) key
        (combine op ty (.getField (.local slot) key fieldTy) operand)]).run other =
      runField frame (steps + 4) (steps + 2) op ty key fieldTy object operand >>= fun target =>
        pure (.next, other.set slot target) := by
  rw [execBlock_store hobject hagrees, runField, bind_assoc]
  refine congrArg _ (funext fun target => ?_)
  have hplace : (eval (steps + 3) (.local slot)).run (other.set slot target) =
      pure target >>= fun target => pure (target, other.set slot target) := by
    rw [eval_local, Frame.get_set_self hsize, pure_bind]
  have hupdate := exec_setField steps op ty key fieldTy hplace
    (fun target => Frame.get_set_self hsize) hoperand fun target => hagrees.set hslot
  rw [pure_bind] at hupdate
  rw [execBlock_cons hupdate]
  exact congrArg _ (funext fun target => execBlock_nil)

/-- Container and key are in the scratch slots once they were evaluated. -/
theorem run_setIndex (hobject : ReadingsOf reads object.mentions)
    (hindex : ReadingsOf reads index.mentions) (hoperand : ReadingsOf reads operand.mentions)
    (hscratch : scratch ∉ reads) (hscratch' : scratch' ∉ reads) (hne : scratch ≠ scratch')
    (hsize : scratch < frame.slots.size) (hsize' : scratch' < frame.slots.size) :
    (execBlock (steps + 5) [.setIndex (.tee scratch object) kind (.tee scratch' index)
        (combine op ty (.index (.local scratch) kind (.local scratch') ty) operand),
        .release [scratch, scratch']]).run frame =
      runElement frame (steps + 2) (steps + 2) (steps + 2) op ty kind object index operand >>=
        fun parts => pure (.next, (((frame.set scratch parts.1).set scratch' parts.2).set scratch
          .null).set scratch' .null) := by
  have hself := Frame.Agrees.refl reads frame
  have hupdate := exec_setIndex steps op ty kind (eval_tee hobject hself)
    (fun container => eval_tee hindex (hself.set hscratch))
    (fun container key => (Frame.get_set_of_ne hne).trans (Frame.get_set_self hsize))
    (fun container key => Frame.get_set_self (by simpa using hsize')) hoperand
    fun container key => (hself.set hscratch).set hscratch'
  rw [execBlock_cons hupdate]
  exact congrArg _ (funext fun parts => execBlock_release)

/-- The same with variables that have the container and the key. -/
theorem run_storeIndex (hobject : ReadingsOf reads object.mentions)
    (hindex : ReadingsOf reads index.mentions) (hoperand : ReadingsOf reads operand.mentions)
    (hslot : slot ∉ reads) (hslot' : slot' ∉ reads) (hne : slot ≠ slot')
    (hsize : slot < other.slots.size) (hsize' : slot' < other.slots.size)
    (hagrees : frame.Agrees reads other) :
    (execBlock (steps + 7) [.store slot object, .store slot' index,
        .setIndex (.local slot) kind (.local slot')
          (combine op ty (.index (.local slot) kind (.local slot') ty) operand)]).run other =
      runElement frame (steps + 5) (steps + 4) (steps + 2) op ty kind object index operand >>=
        fun parts => pure (.next, (other.set slot parts.1).set slot' parts.2) := by
  rw [execBlock_store hobject hagrees, runElement, bind_assoc]
  refine congrArg _ (funext fun container => ?_)
  rw [execBlock_store hindex (hagrees.set hslot), bind_assoc]
  refine congrArg _ (funext fun key => ?_)
  have hget (container key : Value) :
      ((other.set slot container).set slot' key).get slot = container :=
    (Frame.get_set_of_ne hne).trans (Frame.get_set_self hsize)
  have hget' (container key : Value) :
      ((other.set slot container).set slot' key).get slot' = key :=
    Frame.get_set_self (by simpa using hsize')
  have hplace : (eval (steps + 3) (.local slot)).run ((other.set slot container).set slot' key) =
      pure container >>= fun container =>
        pure (container, (other.set slot container).set slot' key) := by
    rw [eval_local, hget, pure_bind]
  have hkey (container : Value) :
      (eval (steps + 3) (.local slot')).run ((other.set slot container).set slot' key) =
        pure key >>= fun key => pure (key, (other.set slot container).set slot' key) := by
    rw [eval_local, hget', pure_bind]
  have hupdate := exec_setIndex steps op ty kind hplace hkey hget hget' hoperand
    fun container key => (hagrees.set hslot).set hslot'
  simp only [pure_bind] at hupdate
  rw [execBlock_cons hupdate]
  exact congrArg _ (funext fun parts => execBlock_nil)

end Updates

end Machine

variable {count : Nat} {op : CompoundOp} {ty : Ty} {object index operand : Code} {reads : List Nat}

/-- An update of a field evaluates the object once, and before the operand. -/
theorem interchangeable_setField {key : FieldKey} {fieldTy : Ty} {scratch slot : Nat}
    (hobject : ReadingsOf reads object.mentions) (hoperand : ReadingsOf reads operand.mentions)
    (hscratch : scratch ∉ reads) (hslot : slot ∉ reads) (hcount : scratch < count) :
    Interchangeable count [scratch] [slot]
      [.setField (.tee scratch object) key
        (combine op ty (.getField (.local scratch) key fieldTy) operand), .release [scratch]]
      [.store slot object, .setField (.local slot) key
        (combine op ty (.getField (.local slot) key fieldTy) operand)] := by
  -- The store leaves two steps more to the object than the scratch slot does.
  refine Interchangeable.of_runs _ _ _ _ 0 2
    (fun frame hsize steps => run_setField hobject hoperand hscratch (by omega))
    (fun frame other hagrees hfresh steps => run_storeField hobject hoperand hslot
      (hfresh slot (by simp)) (hagrees.agrees ?_))
    (fun frame steps => runField_refines (by omega) (by omega))
    (fun frame steps => runField_refines (by omega) (by omega)) ?_
  · simp only [List.singleton_append, List.forall_mem_cons]
    exact ⟨hscratch, hslot, nofun⟩
  · intro frame other hagrees target
    exact ((hagrees.set (by simp)).set_left (by simp)).set_left (by simp)

/-- An update of an element evaluates the container once, then the key once, and then the operand. -/
theorem interchangeable_setIndex {kind : IndexKind} {container key slot slot' : Nat}
    (hobject : ReadingsOf reads object.mentions) (hindex : ReadingsOf reads index.mentions)
    (hoperand : ReadingsOf reads operand.mentions) (hcontainer : container ∉ reads)
    (hkey : key ∉ reads) (hne : container ≠ key) (hslot : slot ∉ reads) (hslot' : slot' ∉ reads)
    (hne' : slot ≠ slot') (hcount : container < count) (hcount' : key < count) :
    Interchangeable count [container, key] [slot, slot']
      [.setIndex (.tee container object) kind (.tee key index)
        (combine op ty (.index (.local container) kind (.local key) ty) operand),
        .release [container, key]]
      [.store slot object, .store slot' index, .setIndex (.local slot) kind (.local slot')
        (combine op ty (.index (.local slot) kind (.local slot') ty) operand)] := by
  -- The stores leave three steps more to the container, and two more to the key.
  refine Interchangeable.of_runs _ _ _ _ 0 3
    (fun frame hsize steps => run_setIndex hobject hindex hoperand hcontainer hkey hne (by omega)
      (by omega))
    (fun frame other hagrees hfresh steps => run_storeIndex hobject hindex hoperand hslot hslot'
      hne' (hfresh slot (by simp)) (hfresh slot' (by simp)) (hagrees.agrees ?_))
    (fun frame steps => runElement_refines (by omega) (by omega) (by omega))
    (fun frame steps => runElement_refines (by omega) (by omega) (by omega)) ?_
  · simp only [List.cons_append, List.nil_append, List.forall_mem_cons]
    exact ⟨hcontainer, hkey, hslot, hslot', nofun⟩
  · intro frame other hagrees parts
    refine (((Frame.AgreesOff.set_left ?_ ?_).set_left ?_).set_left ?_).set_left ?_
    · exact (hagrees.set (by simp)).set (by simp)
    all_goals simp

end Attire
