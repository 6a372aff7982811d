import Attire.Proofs.Runs.Discipline

namespace Attire

open Machine

namespace Discipline

variable {World : Type} [Preorder World]

/-! Whole runs of permitted code keep to the discipline. -/

def Admits (discipline : Discipline World) (world : World) (value : Value) : Prop :=
  value.Within (discipline.entity world) discipline.permit.wear

def AdmitsStep (discipline : Discipline World) (world : World) (step : Step) : Prop :=
  step.Within (discipline.entity world) discipline.permit.wear

structure AdmitsFrame (discipline : Discipline World) (world : World) (frame : Frame) : Prop where
  slots : ∀ value ∈ frame.slots, discipline.Admits world value
  this : discipline.Admits world frame.this
  caller : discipline.Admits world frame.caller

variable {discipline : Discipline World} {world world' : World} {frame : Frame}
variable {machine : Machine} {value : Value}

theorem Admits.mono (hle : world ≤ world') (h : discipline.Admits world value) :
    discipline.Admits world' value :=
  h.imp (fun _ => discipline.entity_mono hle) fun _ hwear => hwear

theorem Admits.enter (h : discipline.Admits world value) :
    discipline.Admits (discipline.enter world) value :=
  h.imp (fun _ => discipline.enter_entity) fun _ hwear => hwear

theorem Admits.leave (h : discipline.Admits world value) :
    discipline.Admits (discipline.leave world) value :=
  h.imp (fun _ => discipline.leave_entity) fun _ hwear => hwear

theorem AdmitsStep.mono {step : Step} (hle : world ≤ world')
    (h : discipline.AdmitsStep world step) : discipline.AdmitsStep world' step :=
  h.imp (fun _ => discipline.entity_mono hle) fun _ hwear => hwear

theorem admits_tuple {items : List Value} :
    discipline.Admits world (.tuple items) ↔ ∀ item ∈ items, discipline.Admits world item :=
  Value.allWithin_iff

theorem admits_suggestion {stamp : Nat} {steps : List Step} :
    discipline.Admits world (.suggestion stamp steps) ↔
      ∀ step ∈ steps, discipline.AdmitsStep world step :=
  Step.allWithin_iff

theorem admits_step_call {target caller : Value} {slot : MethodSlot} {args : List Value} :
    discipline.AdmitsStep world (.call target caller slot args) ↔
      discipline.Admits world target ∧ discipline.Admits world caller ∧
        ∀ arg ∈ args, discipline.Admits world arg := by
  simp only [AdmitsStep, Step.Within, Value.allWithin_iff, Admits]

theorem AdmitsFrame.mono (hle : world ≤ world') (h : discipline.AdmitsFrame world frame) :
    discipline.AdmitsFrame world' frame where
  slots value hmem := (h.slots value hmem).mono hle
  this := h.this.mono hle
  caller := h.caller.mono hle

theorem AdmitsFrame.get (h : discipline.AdmitsFrame world frame) (slot : Nat) :
    discipline.Admits world (frame.get slot) := by
  unfold Frame.get
  cases hslot : frame.slots[slot]? with
  | none => trivial
  | some value => exact h.slots value (Array.mem_of_getElem? hslot)

theorem AdmitsFrame.set (h : discipline.AdmitsFrame world frame) {slot : Nat}
    (hvalue : discipline.Admits world value) :
    discipline.AdmitsFrame world (frame.set slot value) where
  slots other hmem := by
    rcases Array.mem_or_eq_of_mem_setIfInBounds hmem with hmem | rfl
    · exact h.slots other hmem
    · exact hvalue
  this := h.this
  caller := h.caller

theorem admitsFrame_ofRoutine {routine : Routine} {this caller : Value} {args : List Value}
    (hthis : discipline.Admits world this) (hcaller : discipline.Admits world caller)
    (hargs : ∀ arg ∈ args, discipline.Admits world arg) :
    discipline.AdmitsFrame world (Frame.ofRoutine routine this caller args) where
  slots value hmem := by
    simp only [Frame.ofRoutine, List.mem_toArray, List.mem_append, List.mem_replicate] at hmem
    rcases hmem with hmem | ⟨-, rfl⟩
    · exact hargs value (List.mem_of_mem_take hmem)
    · trivial
  this := hthis
  caller := hcaller

theorem admits_castValue (heap : Heap) (h : discipline.Admits world value) (ty : Ty) :
    discipline.Admits world (castValue heap value ty) := by
  unfold castValue
  split
  · trivial
  · split
    · exact h
    · trivial
  · exact h

theorem admits_mergeSteps {left right : Value} (hleft : discipline.Admits world left)
    (hright : discipline.Admits world right) :
    ∀ step ∈ mergeSteps left right, discipline.AdmitsStep world step := by
  unfold mergeSteps
  split
  · intro step hmem
    rcases List.mem_append.mp hmem with hmem | hmem
    · exact admits_suggestion.mp hleft step hmem
    · exact admits_suggestion.mp hright step hmem
  · exact admits_suggestion.mp hleft
  · exact admits_suggestion.mp hright
  · simp

theorem admits_element {container index : Value} {kind : IndexKind}
    (hfits : discipline.fits world machine)
    (h : machine.heap.element? container kind index = some value) :
    discipline.Admits world value := by
  rcases Heap.element?_eq_some h with ⟨content, rfl⟩ | ⟨ref, stored, -, hentity, hmem⟩
  · trivial
  · exact discipline.contents_within hfits hentity value hmem

theorem admits_round {source : Value} {kind : IterKind} {pairs : Bool}
    {round : Value × Option Value} (hfits : discipline.fits world machine)
    (h : round ∈ machine.heap.rounds source kind pairs)
    (hvalue : value = round.1 ∨ round.2 = some value) : discipline.Admits world value := by
  rcases Heap.mem_rounds h hvalue with ⟨_, rfl⟩ | ⟨_, rfl⟩ | ⟨ref, stored, -, hentity, hmem⟩
  · trivial
  · trivial
  · exact discipline.contents_within hfits hentity value hmem

theorem safe_newSuggestion {steps : List Step} (hfits : discipline.fits world machine)
    (hsteps : ∀ step ∈ steps, discipline.AdmitsStep world step) :
    discipline.Safe world (newSuggestion steps) machine
      fun world _ answer => discipline.Admits world answer :=
  Regime.Safe.modifyGet (le_refl world) (discipline.newSuggestion_fits hfits)
    (admits_suggestion.mpr hsteps)

mutual

theorem safe_defaultValue (constructed : Bool) :
    ∀ (ty : Ty) {world : World} {machine : Machine}, discipline.fits world machine →
      discipline.Safe world (defaultValue constructed ty) machine
        fun world _ answer => discipline.Admits world answer
  | .num, _, _, hfits | .text, _, _, hfits | .bool, _, _, hfits | .void, _, _, hfits
  | .null, _, _, hfits | .object _, _, _, hfits | .method .., _, _, hfits =>
    Regime.Safe.pure hfits trivial
  | .suggestion, _, _, hfits => safe_newSuggestion hfits (by simp)
  | .tuple elements, _, _, hfits =>
    Regime.Safe.bind (safe_defaultValues constructed elements hfits) fun _ _ _ _ hfits h =>
      Regime.Safe.pure hfits (admits_tuple.mpr h)
  | .array _, world, machine, hfits => by
    cases constructed with
    | false => exact Regime.Safe.pure hfits trivial
    | true => exact discipline.newArray_safe hfits (by simp)
  | .map _ _, world, machine, hfits => by
    cases constructed with
    | false => exact Regime.Safe.pure hfits trivial
    | true => exact discipline.newMap_safe hfits
  | .set _, world, machine, hfits => by
    cases constructed with
    | false => exact Regime.Safe.pure hfits trivial
    | true => exact discipline.newSet_safe hfits

theorem safe_defaultValues (constructed : Bool) :
    ∀ (types : List Ty) {world : World} {machine : Machine}, discipline.fits world machine →
      discipline.Safe world (defaultValues constructed types) machine
        fun world _ answers => ∀ answer ∈ answers, discipline.Admits world answer
  | [], _, _, hfits => Regime.Safe.pure hfits (by simp)
  | ty :: rest, world, machine, hfits => by
    refine Regime.Safe.bind (safe_defaultValue constructed ty hfits) ?_
    intro world' machine' value hle hfits' hvalue
    refine Regime.Safe.bind (safe_defaultValues constructed rest hfits') ?_
    intro world'' machine'' values hle' hfits'' hvalues
    refine Regime.Safe.pure hfits'' ?_
    intro answer hmem
    rcases List.mem_cons.mp hmem with rfl | hmem
    · exact hvalue.mono hle'
    · exact hvalues answer hmem

end

/-- All runs of at most `steps` nested steps keep to the discipline. -/
structure Keeps (discipline : Discipline World) (steps : Nat) : Prop where
  eval {world : World} {frame : Frame} {machine : Machine} {code : Code} :
    discipline.fits world machine → discipline.AdmitsFrame world frame →
    code.Within discipline.permit →
    discipline.SafeIn world (Machine.eval steps code) frame machine fun world _ frame value =>
      discipline.AdmitsFrame world frame ∧ discipline.Admits world value
  evalStep {world : World} {frame : Frame} {machine : Machine} {code : StepCode} :
    discipline.fits world machine → discipline.AdmitsFrame world frame →
    code.Within discipline.permit →
    discipline.SafeIn world (Machine.evalStep steps code) frame machine fun world _ frame step =>
      discipline.AdmitsFrame world frame ∧ discipline.AdmitsStep world step
  exec {world : World} {frame : Frame} {machine : Machine} {instr : Instr} :
    discipline.fits world machine → discipline.AdmitsFrame world frame →
    instr.Within discipline.permit →
    discipline.SafeIn world (Machine.exec steps instr) frame machine fun world _ frame flow =>
      discipline.AdmitsFrame world frame ∧ ∀ value, flow = .return value →
        discipline.Admits world value
  execBlock {world : World} {frame : Frame} {machine : Machine} {body : List Instr} :
    discipline.fits world machine → discipline.AdmitsFrame world frame →
    Instr.AllWithin discipline.permit body →
    discipline.SafeIn world (Machine.execBlock steps body) frame machine fun world _ frame flow =>
      discipline.AdmitsFrame world frame ∧ ∀ value, flow = .return value →
        discipline.Admits world value
  repeatWhile {world : World} {frame : Frame} {machine : Machine} {cond : Code}
    {body : List Instr} :
    discipline.fits world machine → discipline.AdmitsFrame world frame →
    cond.Within discipline.permit → Instr.AllWithin discipline.permit body →
    discipline.SafeIn world (Machine.repeatWhile steps cond body) frame machine
      fun world _ frame flow => discipline.AdmitsFrame world frame ∧ ∀ value,
        flow = .return value → discipline.Admits world value
  repeatFor {world : World} {frame : Frame} {machine : Machine} {first : Nat}
    {second : Option Nat} {body : List Instr} {rounds : List (Value × Option Value)} :
    discipline.fits world machine → discipline.AdmitsFrame world frame →
    Instr.AllWithin discipline.permit body →
    (∀ round ∈ rounds, ∀ value, value = round.1 ∨ round.2 = some value →
      discipline.Admits world value) →
    discipline.SafeIn world (Machine.repeatFor steps first second body rounds) frame machine
      fun world _ frame flow => discipline.AdmitsFrame world frame ∧ ∀ value,
        flow = .return value → discipline.Admits world value
  invoke {world : World} {machine : Machine} {routine : Routine} {this caller : Value}
    {args : List Value} :
    discipline.fits world machine → routine.Within discipline.permit →
    discipline.Admits world this → discipline.Admits world caller →
    (∀ arg ∈ args, discipline.Admits world arg) →
    discipline.Safe world (Machine.invoke steps routine this caller args) machine
      fun world _ value => discipline.Admits world value
  dispatch {world : World} {machine : Machine} {target caller : Value} {slot : MethodSlot}
    {args : List Value} {ret : Ty} :
    discipline.fits world machine → discipline.permit.call slot →
    discipline.Admits world target → discipline.Admits world caller →
    (∀ arg ∈ args, discipline.Admits world arg) →
    discipline.Safe world (Machine.dispatch steps target slot caller args ret) machine
      fun world _ value => discipline.Admits world value
  initializeMissing {world : World} {machine : Machine} {ref : Ref} :
    discipline.fits world machine → discipline.writable world ref →
    discipline.entity world (.object ref) →
    discipline.Safe world (Machine.initializeMissing steps ref) machine fun _ _ _ => True
  remanifest {world : World} {machine : Machine} {prior : Run Ref} :
    discipline.Safe world (prior >>= fun ref => installManifest ref >>= fun _ => pure ref) machine
      (fun world _ ref => discipline.entity world (.object ref) ∧ discipline.writable world ref) →
    discipline.Safe world (prior >>= fun ref => Machine.remanifest steps ref >>= fun _ => pure ref)
      machine fun world _ ref => discipline.entity world (.object ref)
  instantiate {world : World} {machine : Machine} {cls : ClassId} :
    discipline.fits world machine → discipline.permit.new cls →
    discipline.Safe world (Machine.instantiate steps cls) machine
      fun world _ ref => discipline.entity world (.object ref)
  extend {world : World} {machine : Machine} {ref : Ref} {cls : ClassId} :
    discipline.fits world machine → discipline.permit.write → discipline.permit.wear cls →
    discipline.entity world (.object ref) →
    discipline.Safe world (Machine.extend steps ref cls) machine fun _ _ _ => True
  retract {world : World} {machine : Machine} {ref : Ref} {cls : ClassId} :
    discipline.fits world machine → discipline.permit.write →
    discipline.entity world (.object ref) →
    discipline.Safe world (Machine.retract steps ref cls) machine fun _ _ _ => True
  enforce {world : World} {machine : Machine} {batch : List Step} :
    discipline.fits world machine → discipline.permit.write →
    (∀ step ∈ batch, discipline.AdmitsStep world step) →
    discipline.Safe world (Machine.enforce steps batch) machine fun _ _ _ => True

namespace Keeps

variable {steps : Nat}

theorem evalAll (h : discipline.Keeps steps) {codes : List Code}
    (hfits : discipline.fits world machine) (hframe : discipline.AdmitsFrame world frame)
    (hcodes : Code.AllWithin discipline.permit codes) :
    discipline.SafeIn world (codes.mapM (Machine.eval steps)) frame machine
      fun world _ frame values => discipline.AdmitsFrame world frame ∧
        ∀ value ∈ values, discipline.Admits world value := by
  refine Regime.SafeIn.mapM discipline.AdmitsFrame discipline.Admits Admits.mono hfits hframe ?_
  intro code hmem world' frame' machine' _ hfits' hframe'
  exact h.eval hfits' hframe' (Code.allWithin_iff.mp hcodes code hmem)

theorem evalSteps (h : discipline.Keeps steps) {codes : List StepCode}
    (hfits : discipline.fits world machine) (hframe : discipline.AdmitsFrame world frame)
    (hcodes : StepCode.AllWithin discipline.permit codes) :
    discipline.SafeIn world (codes.mapM (Machine.evalStep steps)) frame machine
      fun world _ frame steps => discipline.AdmitsFrame world frame ∧
        ∀ step ∈ steps, discipline.AdmitsStep world step := by
  refine Regime.SafeIn.mapM discipline.AdmitsFrame discipline.AdmitsStep AdmitsStep.mono hfits
    hframe ?_
  intro code hmem world' frame' machine' _ hfits' hframe'
  exact h.evalStep hfits' hframe' (StepCode.allWithin_iff.mp hcodes code hmem)

section

variable {α : Type} {post : World → Machine → Frame → α → Prop}

/-- An operand, and what is made of its value. -/
theorem evalThen (h : discipline.Keeps steps) {operand : Code} {next : Value → Exec α}
    (hfits : discipline.fits world machine) (hframe : discipline.AdmitsFrame world frame)
    (hoperand : operand.Within discipline.permit)
    (hnext : ∀ {world' : World} {machine' : Machine} {frame' : Frame} {value : Value},
      world ≤ world' → discipline.fits world' machine' → discipline.AdmitsFrame world' frame' →
      discipline.Admits world' value →
      discipline.SafeIn world' (next value) frame' machine' post) :
    discipline.SafeIn world (Machine.eval steps operand >>= next) frame machine post :=
  Regime.SafeIn.bind (h.eval hfits hframe hoperand) fun _ _ _ _ hle hfits' hpost =>
    hnext hle hfits' hpost.1 hpost.2

/-- Two operands, one after the other, and what is made of their values. -/
theorem evalTwo (h : discipline.Keeps steps) {left right : Code} {next : Value → Value → Exec α}
    (hfits : discipline.fits world machine) (hframe : discipline.AdmitsFrame world frame)
    (hleft : left.Within discipline.permit) (hright : right.Within discipline.permit)
    (hnext : ∀ {world' : World} {machine' : Machine} {frame' : Frame} {a b : Value},
      world ≤ world' → discipline.fits world' machine' → discipline.AdmitsFrame world' frame' →
      discipline.Admits world' a → discipline.Admits world' b →
      discipline.SafeIn world' (next a b) frame' machine' post) :
    discipline.SafeIn world (do
      let a ← Machine.eval steps left
      let b ← Machine.eval steps right
      next a b) frame machine post :=
  h.evalThen hfits hframe hleft fun hle hfits' hframe' ha =>
    h.evalThen hfits' hframe' hright fun hle' hfits'' hframe'' hb =>
      hnext (hle.trans hle') hfits'' hframe'' (ha.mono hle') hb

end

theorem safe_answer (hfits : discipline.fits world machine)
    (hframe : discipline.AdmitsFrame world frame) (hvalue : discipline.Admits world value) :
    discipline.SafeIn world (pure value : Exec Value) frame machine fun world _ frame value =>
      discipline.AdmitsFrame world frame ∧ discipline.Admits world value :=
  Regime.SafeIn.pure hfits ⟨hframe, hvalue⟩

theorem safe_lift (hframe : discipline.AdmitsFrame world frame) {run : Run Value}
    (hrun : discipline.Safe world run machine fun world _ value =>
      discipline.Admits world value) :
    discipline.SafeIn world (liftM run : Exec Value) frame machine fun world _ frame value =>
      discipline.AdmitsFrame world frame ∧ discipline.Admits world value :=
  Regime.SafeIn.lift (hrun.mono fun _ _ _ hle _ hvalue => ⟨hframe.mono hle, hvalue⟩)

theorem eval_succ (h : discipline.Keeps steps) {code : Code}
    (hfits : discipline.fits world machine) (hframe : discipline.AdmitsFrame world frame)
    (hcode : code.Within discipline.permit) :
    discipline.SafeIn world (Machine.eval (steps + 1) code) frame machine
      fun world _ frame value =>
        discipline.AdmitsFrame world frame ∧ discipline.Admits world value := by
  cases code <;> rw [Machine.eval]
  case num | text | bool | null => exact safe_answer hfits hframe trivial
  case «default» ty constructed =>
    exact safe_lift hframe (safe_defaultValue constructed ty hfits)
  case «local» slot => exact Regime.SafeIn.bind_get (safe_answer hfits hframe (hframe.get slot))
  case tee slot operand =>
    refine h.evalThen hfits hframe hcode fun _ hfits' hframe' hvalue => ?_
    exact Regime.SafeIn.bind_setSlot (safe_answer hfits' (hframe'.set hvalue) hvalue)
  case this => exact Regime.SafeIn.bind_get (safe_answer hfits hframe hframe.this)
  case caller => exact Regime.SafeIn.bind_get (safe_answer hfits hframe hframe.caller)
  case const value => exact safe_answer hfits hframe (discipline.const_within hfits hcode)
  case getField object key ty =>
    refine h.evalThen hfits hframe hcode fun {_ machine' _ target} _ hfits' hframe' _ =>
      Regime.SafeIn.bind_currentHeap ?_
    cases hread : readField? machine'.heap target key with
    | none => exact safe_lift hframe' (safe_defaultValue false ty hfits')
    | some value =>
      obtain ⟨ref, stored, -, hentity, hmem⟩ := readField?_eq_some hread
      exact safe_answer hfits' hframe' (discipline.contents_within hfits' hentity value hmem)
  case index object kind index ty =>
    refine h.evalTwo hfits hframe hcode.1 hcode.2
      fun {_ machine' _ container position} _ hfits' hframe' _ _ =>
        Regime.SafeIn.bind_currentHeap ?_
    cases hread : machine'.heap.element? container kind position with
    | none => exact safe_lift hframe' (safe_defaultValue false ty hfits')
    | some value => exact safe_answer hfits' hframe' (admits_element hfits' hread)
  case tupleGet tuple position =>
    refine h.evalThen hfits hframe hcode fun {_ _ _ target} _ hfits' hframe' htarget => ?_
    cases target with
    | tuple items =>
      refine safe_answer hfits' hframe' ?_
      cases hitem : items[position]? with
      | none => trivial
      | some item => exact admits_tuple.mp htarget item (List.mem_of_getElem? hitem)
    | _ => exact safe_answer hfits' hframe' trivial
  case call object slot args ret =>
    obtain ⟨hslot, hobject, hargs⟩ := hcode
    refine h.evalThen hfits hframe hobject fun {world' _ _ _} _ hfits' hframe' htarget => ?_
    refine Regime.SafeIn.bind (h.evalAll hfits' hframe' hargs) ?_
    rintro world'' machine'' frame'' values hle hfits'' ⟨hframe'', hvalues⟩
    exact Regime.SafeIn.bind_get (safe_lift hframe''
      (h.dispatch hfits'' hslot (htarget.mono hle) hframe''.this hvalues))
  case superCall parent slot args =>
    obtain ⟨hslot, hargs⟩ := hcode
    refine Regime.SafeIn.bind (h.evalAll hfits hframe hargs) ?_
    rintro world' machine' frame' values hle hfits' ⟨hframe', hvalues⟩
    refine Regime.SafeIn.bind_lift (discipline.super_safe hfits' hslot) ?_
    rintro world'' machine'' (_ | routine) hle' hfits'' hanswer
    · exact Regime.SafeIn.bind_getMachine (Regime.SafeIn.lift
        (Regime.Safe.fail hfits'' (hanswer _)))
    · have hframe'' := hframe'.mono hle'
      exact Regime.SafeIn.bind_get (Regime.SafeIn.bind_get (safe_lift hframe''
        (h.invoke hfits'' hanswer hframe''.this hframe''.caller
          fun value hmem => (hvalues value hmem).mono hle')))
  case new cls =>
    exact Regime.SafeIn.bind_lift (h.instantiate hfits hcode) fun _ _ _ hle hfits' hentity =>
      safe_answer hfits' (hframe.mono hle) hentity
  case newArray => exact safe_lift hframe (discipline.newArray_safe hfits (by simp))
  case newMap => exact safe_lift hframe (discipline.newMap_safe hfits)
  case newSet => exact safe_lift hframe (discipline.newSet_safe hfits)
  case array elements =>
    refine Regime.SafeIn.bind (h.evalAll hfits hframe hcode) ?_
    rintro world' machine' frame' values hle hfits' ⟨hframe', hvalues⟩
    exact safe_lift hframe' (discipline.newArray_safe hfits' hvalues)
  case tuple elements =>
    refine Regime.SafeIn.bind (h.evalAll hfits hframe hcode) ?_
    rintro world' machine' frame' values hle hfits' ⟨hframe', hvalues⟩
    exact safe_answer hfits' hframe' (admits_tuple.mpr hvalues)
  case arith | concat | compare | equal =>
    exact h.evalTwo hfits hframe hcode.1 hcode.2 fun _ hfits' hframe' _ _ =>
      safe_answer hfits' hframe' trivial
  case logic conjunction left right =>
    refine h.evalThen hfits hframe hcode.1 fun {_ _ _ value} _ hfits' hframe' _ => ?_
    by_cases hopen : value.asBool = conjunction
    · rw [if_pos hopen]
      exact h.evalThen hfits' hframe' hcode.2 fun _ hfits'' hframe'' _ =>
        safe_answer hfits'' hframe'' trivial
    · rw [if_neg hopen]
      exact safe_answer hfits' hframe' trivial
  case not | neg =>
    exact h.evalThen hfits hframe hcode fun _ hfits' hframe' _ =>
      safe_answer hfits' hframe' trivial
  case merge left right =>
    exact h.evalTwo hfits hframe hcode.1 hcode.2 fun _ hfits' hframe' hleft hright =>
      safe_lift hframe' (safe_newSuggestion hfits' (admits_mergeSteps hleft hright))
  case cast operand target =>
    exact h.evalThen hfits hframe hcode fun _ hfits' hframe' hvalue =>
      Regime.SafeIn.bind_currentHeap
        (safe_answer hfits' hframe' (admits_castValue _ hvalue target))
  case clone operand =>
    exact h.evalThen hfits hframe hcode fun _ hfits' hframe' hvalue =>
      safe_lift hframe' (discipline.clone_safe hfits' hvalue)
  case len | is =>
    exact h.evalThen hfits hframe hcode fun _ hfits' hframe' _ =>
      Regime.SafeIn.bind_currentHeap (safe_answer hfits' hframe' trivial)
  case has =>
    exact h.evalTwo hfits hframe hcode.1 hcode.2 fun _ hfits' hframe' _ _ =>
      Regime.SafeIn.bind_currentHeap (safe_answer hfits' hframe' trivial)
  case random =>
    refine Regime.SafeIn.bind_get ?_
    split
    · exact Regime.SafeIn.bind_lift (discipline.random_safe hfits) fun _ _ _ hle hfits' _ =>
        safe_answer hfits' (hframe.mono hle) trivial
    · exact safe_answer hfits hframe trivial
  case suggest parts =>
    refine Regime.SafeIn.bind (h.evalSteps hfits hframe hcode) ?_
    rintro world' machine' frame' answers hle hfits' ⟨hframe', hanswers⟩
    exact safe_lift hframe' (safe_newSuggestion hfits' hanswers)

theorem evalStep_succ (h : discipline.Keeps steps) {code : StepCode}
    (hfits : discipline.fits world machine) (hframe : discipline.AdmitsFrame world frame)
    (hcode : code.Within discipline.permit) :
    discipline.SafeIn world (Machine.evalStep (steps + 1) code) frame machine
      fun world _ frame step =>
        discipline.AdmitsFrame world frame ∧ discipline.AdmitsStep world step := by
  cases code <;> rw [Machine.evalStep]
  case extend | retract =>
    exact h.evalThen hfits hframe hcode.2 fun _ hfits' hframe' htarget =>
      Regime.SafeIn.pure hfits' ⟨hframe', hcode.1, htarget⟩
  case call target slot args =>
    refine h.evalThen hfits hframe hcode.1 fun _ hfits' hframe' htarget =>
      Regime.SafeIn.bind_get ?_
    refine Regime.SafeIn.bind (h.evalAll hfits' hframe' hcode.2) ?_
    rintro world'' machine'' frame'' values hle hfits'' ⟨hframe'', hvalues⟩
    exact Regime.SafeIn.pure hfits'' ⟨hframe'', admits_step_call.mpr
      ⟨htarget.mono hle, hframe'.this.mono hle, hvalues⟩⟩

/-- What holds after a statement. -/
def AfterFlow (discipline : Discipline World) (world : World) (_ : Machine) (left : Frame)
    (flow : Flow) : Prop :=
  discipline.AdmitsFrame world left ∧ ∀ value, flow = .return value →
    discipline.Admits world value

theorem safe_next (hfits : discipline.fits world machine)
    (hframe : discipline.AdmitsFrame world frame) :
    discipline.SafeIn world (pure .next : Exec Flow) frame machine (AfterFlow discipline) :=
  Regime.SafeIn.pure hfits ⟨hframe, nofun⟩

/-- A change of the machine between a statement's operands and the next statement. -/
theorem safe_effect (hframe : discipline.AdmitsFrame world frame) {run : Run PUnit}
    (hrun : discipline.Safe world run machine fun _ _ _ => True) :
    discipline.SafeIn world (liftM run >>= fun _ => pure .next : Exec Flow) frame machine
      (AfterFlow discipline) :=
  Regime.SafeIn.bind_lift hrun fun _ _ _ hle hfits' _ => safe_next hfits' (hframe.mono hle)

theorem safe_release (hfits : discipline.fits world machine) :
    ∀ {slots : List Nat} {frame : Frame}, discipline.AdmitsFrame world frame →
      discipline.SafeIn world
        (slots.forM (fun slot => setSlot slot .null) >>= fun _ => pure .next : Exec Flow) frame
        machine (AfterFlow discipline)
  | [], _, hframe => safe_next hfits hframe
  | slot :: rest, frame, hframe => by
    have hcleared : discipline.AdmitsFrame world (frame.set slot .null) := hframe.set trivial
    have hrest : discipline.SafeIn world
        (rest.forM (fun slot => setSlot slot .null) >>= fun _ => pure .next : Exec Flow)
        (frame.set slot .null) machine (AfterFlow discipline) := safe_release hfits hcleared
    exact hrest

theorem exec_succ (h : discipline.Keeps steps) {instr : Instr}
    (hfits : discipline.fits world machine) (hframe : discipline.AdmitsFrame world frame)
    (hinstr : instr.Within discipline.permit) :
    discipline.SafeIn world (Machine.exec (steps + 1) instr) frame machine
      (AfterFlow discipline) := by
  cases instr <;> rw [Machine.exec]
  case eval code =>
    exact h.evalThen hfits hframe hinstr fun _ hfits' hframe' _ => safe_next hfits' hframe'
  case store slot code =>
    exact h.evalThen hfits hframe hinstr fun _ hfits' hframe' hvalue =>
      Regime.SafeIn.bind_setSlot (safe_next hfits' (hframe'.set hvalue))
  case setField object key code =>
    obtain ⟨hwrite, hkey, hobject, hcode⟩ := hinstr
    exact h.evalTwo hfits hframe hobject hcode fun _ hfits' hframe' _ hvalue =>
      safe_effect hframe' (discipline.writeField_safe hfits' hwrite hkey hvalue)
  case setIndex target kind index code =>
    obtain ⟨hwrite, htarget, hindex, hcode⟩ := hinstr
    refine h.evalTwo hfits hframe htarget hindex fun _ hfits' hframe' _ hposition => ?_
    exact h.evalThen hfits' hframe' hcode fun hle hfits'' hframe'' hvalue =>
      safe_effect hframe''
        (discipline.putElement_safe hfits'' hwrite (hposition.mono hle) hvalue)
  case append target code =>
    obtain ⟨hwrite, htarget, hcode⟩ := hinstr
    exact h.evalTwo hfits hframe htarget hcode fun _ hfits' hframe' _ hvalue =>
      safe_effect hframe' (discipline.addElement_safe hfits' hwrite hvalue)
  case remove target code =>
    obtain ⟨hwrite, htarget, hcode⟩ := hinstr
    exact h.evalTwo hfits hframe htarget hcode fun _ hfits' hframe' _ _ =>
      safe_effect hframe' (discipline.removeElement_safe hfits' hwrite)
  case branch cond yes no =>
    obtain ⟨hcond, hyes, hno⟩ := hinstr
    refine h.evalThen hfits hframe hcond fun _ hfits' hframe' _ => ?_
    split
    · exact h.execBlock hfits' hframe' hyes
    · exact h.execBlock hfits' hframe' hno
  case «while» cond body => exact h.repeatWhile hfits hframe hinstr.1 hinstr.2
  case forEach source kind first second body =>
    refine h.evalThen hfits hframe hinstr.1 fun _ hfits' hframe' _ =>
      Regime.SafeIn.bind_currentHeap ?_
    exact h.repeatFor hfits' hframe' hinstr.2 fun round hmem value hvalue =>
      admits_round hfits' hmem hvalue
  case «break» | «continue» => exact Regime.SafeIn.pure hfits ⟨hframe, by rintro _ ⟨⟩⟩
  case «return» code =>
    refine h.evalThen hfits hframe hinstr fun _ hfits' hframe' hvalue => ?_
    exact Regime.SafeIn.pure hfits' ⟨hframe', by rintro _ ⟨rfl⟩; exact hvalue⟩
  case extend target cls =>
    obtain ⟨hwrite, hwear, htarget⟩ := hinstr
    refine h.evalThen hfits hframe htarget fun _ hfits' hframe' hvalue => ?_
    split
    · exact safe_effect hframe' (h.extend hfits' hwrite hwear hvalue)
    · exact safe_next hfits' hframe'
  case retract target cls =>
    obtain ⟨hwrite, hwear, htarget⟩ := hinstr
    refine h.evalThen hfits hframe htarget fun _ hfits' hframe' hvalue => ?_
    split
    · exact safe_effect hframe' (h.retract hfits' hwrite hvalue)
    · exact safe_next hfits' hframe'
  case enforce code =>
    refine h.evalThen hfits hframe hinstr.2 fun _ hfits' hframe' hvalue => ?_
    split
    · exact safe_effect hframe' (h.enforce hfits' hinstr.1 (admits_suggestion.mp hvalue))
    · exact safe_next hfits' hframe'
  case release slots => exact safe_release hfits hframe

theorem execBlock_succ (h : discipline.Keeps steps) {body : List Instr}
    (hfits : discipline.fits world machine) (hframe : discipline.AdmitsFrame world frame)
    (hbody : Instr.AllWithin discipline.permit body) :
    discipline.SafeIn world (Machine.execBlock (steps + 1) body) frame machine
      (AfterFlow discipline) := by
  cases body with
  | nil => exact safe_next hfits hframe
  | cons instr rest =>
    rw [Machine.execBlock]
    refine Regime.SafeIn.bind (h.exec hfits hframe hbody.1) ?_
    rintro world' machine' frame' flow _ hfits' ⟨hframe', hflow⟩
    split
    · exact h.execBlock hfits' hframe' hbody.2
    · exact Regime.SafeIn.pure hfits' ⟨hframe', hflow⟩

theorem repeatWhile_succ (h : discipline.Keeps steps) {cond : Code} {body : List Instr}
    (hfits : discipline.fits world machine) (hframe : discipline.AdmitsFrame world frame)
    (hcond : cond.Within discipline.permit) (hbody : Instr.AllWithin discipline.permit body) :
    discipline.SafeIn world (Machine.repeatWhile (steps + 1) cond body) frame machine
      (AfterFlow discipline) := by
  rw [Machine.repeatWhile]
  refine h.evalThen hfits hframe hcond fun _ hfits' hframe' _ => ?_
  split
  · refine Regime.SafeIn.bind (h.execBlock hfits' hframe' hbody) ?_
    rintro world'' machine'' frame'' flow _ hfits'' ⟨hframe'', hflow⟩
    split
    · exact safe_next hfits'' hframe''
    · exact Regime.SafeIn.pure hfits'' ⟨hframe'', hflow⟩
    · exact h.repeatWhile hfits'' hframe'' hcond hbody
    · exact h.repeatWhile hfits'' hframe'' hcond hbody
  · exact safe_next hfits' hframe'

theorem repeatFor_succ (h : discipline.Keeps steps) {first : Nat} {second : Option Nat}
    {body : List Instr} {rounds : List (Value × Option Value)}
    (hfits : discipline.fits world machine) (hframe : discipline.AdmitsFrame world frame)
    (hbody : Instr.AllWithin discipline.permit body)
    (hrounds : ∀ round ∈ rounds, ∀ value, value = round.1 ∨ round.2 = some value →
      discipline.Admits world value) :
    discipline.SafeIn world (Machine.repeatFor (steps + 1) first second body rounds) frame machine
      (AfterFlow discipline) := by
  rcases rounds with _ | ⟨⟨a, b⟩, rest⟩
  · exact safe_next hfits hframe
  rw [Machine.repeatFor]
  have hfirst : discipline.AdmitsFrame world (frame.set first a) :=
    hframe.set (hrounds (a, b) (by simp) a (.inl rfl))
  refine Regime.SafeIn.bind_setSlot ?_
  extract_lets runRound
  have hround : ∀ {frame : Frame}, discipline.AdmitsFrame world frame →
      discipline.SafeIn world (runRound ⟨⟩) frame machine (AfterFlow discipline) := by
    intro frame hframe
    refine Regime.SafeIn.bind (h.execBlock hfits hframe hbody) ?_
    rintro world' machine' frame' flow hle hfits' ⟨hframe', hflow⟩
    have hrest := fun round hmem value hvalue =>
      (hrounds round (List.mem_cons_of_mem _ hmem) value hvalue).mono hle
    split
    · exact safe_next hfits' hframe'
    · exact Regime.SafeIn.pure hfits' ⟨hframe', hflow⟩
    · exact h.repeatFor hfits' hframe' hbody hrest
    · exact h.repeatFor hfits' hframe' hbody hrest
  split
  · exact Regime.SafeIn.bind_setSlot (hround (hfirst.set (hrounds (a, _) (by simp) _ (.inr rfl))))
  · exact hround hfirst

theorem safe_nested {α : Type} {run : Run α} {post : World → α → Prop}
    (hleave : ∀ world answer, post world answer → post (discipline.leave world) answer)
    (h : discipline.Safe (discipline.enter world) run { machine with depth := machine.depth + 1 }
      fun world _ answer => post world answer) :
    discipline.Safe world (nested run) machine fun world _ answer => post world answer := by
  unfold Regime.Safe Yields nested at *
  cases hrun : run { machine with depth := machine.depth + 1 } with
  | ok answer machine' =>
    rw [hrun] at h
    obtain ⟨world', hle, hfits, hpost⟩ := h
    obtain ⟨hle', hfits'⟩ := discipline.leave_fits hle hfits
    exact ⟨_, hle', hfits', hleave world' answer hpost⟩
  | error halt machine' =>
    rw [hrun] at h
    intro error heq
    obtain ⟨hfault, world', hle, hfits⟩ := h error heq
    exact ⟨hfault, _, discipline.leave_fits hle hfits⟩

theorem invoke_succ (h : discipline.Keeps steps) {routine : Routine} {this caller : Value}
    {args : List Value} (hfits : discipline.fits world machine)
    (hroutine : routine.Within discipline.permit) (hthis : discipline.Admits world this)
    (hcaller : discipline.Admits world caller)
    (hargs : ∀ arg ∈ args, discipline.Admits world arg) :
    discipline.Safe world (Machine.invoke (steps + 1) routine this caller args) machine
      fun world _ value => discipline.Admits world value := by
  rw [Machine.invoke]
  refine Regime.Safe.bind_get ?_
  split
  · exact Regime.Safe.fail hfits discipline.depth_fault
  case isFalse hdepth =>
    have hbody : discipline.Safe (discipline.enter world)
        ((Machine.execBlock steps routine.body).run' (Frame.ofRoutine routine this caller args))
        { machine with depth := machine.depth + 1 } fun world _ flow =>
          ∀ value, flow = .return value → discipline.Admits world value :=
      Regime.Safe.map ((h.execBlock (discipline.enter_fits hfits (by omega))
        (admitsFrame_ofRoutine hthis.enter hcaller.enter fun arg hmem => (hargs arg hmem).enter)
        hroutine).mono fun _ _ _ _ _ _ hpost => hpost.2)
    refine Regime.Safe.bind (safe_nested (fun _ _ hpost value heq => (hpost value heq).leave)
      hbody) ?_
    intro world' machine' flow _ hfits' hflow
    split
    · exact Regime.Safe.pure hfits' (hflow _ rfl)
    · exact safe_defaultValue false routine.ret hfits'

theorem dispatch_succ (h : discipline.Keeps steps) {target caller : Value} {slot : MethodSlot}
    {args : List Value} {ret : Ty} (hfits : discipline.fits world machine)
    (hslot : discipline.permit.call slot) (htarget : discipline.Admits world target)
    (hcaller : discipline.Admits world caller)
    (hargs : ∀ arg ∈ args, discipline.Admits world arg) :
    discipline.Safe world (Machine.dispatch (steps + 1) target slot caller args ret) machine
      fun world _ value => discipline.Admits world value := by
  rw [Machine.dispatch]
  refine Regime.Safe.bind_get ?_
  split
  case h_1 routine hbound =>
    exact h.invoke hfits (discipline.bound_within hfits hslot hbound) htarget hcaller hargs
  case h_2 => exact safe_defaultValue false ret hfits

theorem initializeMissing_succ (h : discipline.Keeps steps) {ref : Ref}
    (hfits : discipline.fits world machine) (hwritable : discipline.writable world ref)
    (hentity : discipline.entity world (.object ref)) :
    discipline.Safe world (Machine.initializeMissing (steps + 1) ref) machine
      fun _ _ _ => True := by
  rw [Machine.initializeMissing]
  refine Regime.Safe.bind_get (Regime.Safe.forM hfits ?_)
  intro field hmem world' machine' hle hfits'
  obtain ⟨object, hobject, hpending⟩ : ∃ object, machine.heap.object? ref = some object ∧
      field ∈ machine.pendingFields object := by
    cases hobject : machine.heap.object? ref with
    | none => simp [hobject] at hmem
    | some object => exact ⟨object, rfl, by simpa [hobject] using hmem⟩
  have hstore : ∀ {world'' machine'' value}, world' ≤ world'' →
      discipline.fits world'' machine'' → discipline.Admits world'' value →
      discipline.Safe world'' (initializeField ref field.key value) machine''
        fun _ _ _ => True := fun hle' hfits'' hvalue =>
    discipline.initialize_safe hfits'' (discipline.writable_mono (hle.trans hle') hwritable)
      (discipline.pending_store hfits hobject hpending) hvalue
  split
  case h_1 routine hroutine =>
    have hwithin := discipline.initializer_within hfits hobject hpending hroutine
    exact Regime.Safe.bind
      (h.invoke hfits' hwithin (discipline.entity_mono hle hentity) trivial (by simp))
      fun _ _ _ hle' hfits'' hvalue => hstore hle' hfits'' hvalue
  case h_2 =>
    exact Regime.Safe.bind (safe_defaultValue true field.ty hfits')
      fun _ _ _ hle' hfits'' hvalue => hstore hle' hfits'' hvalue

theorem remanifest_zero {prior : Run Ref} {post post' : World → Machine → Ref → Prop}
    (h : discipline.Safe world (prior >>= fun ref => installManifest ref >>= fun _ => pure ref)
      machine post) :
    discipline.Safe world (prior >>= fun ref => Machine.remanifest 0 ref >>= fun _ => pure ref)
      machine post' := by
  simp only [Regime.Safe, yields_bind] at h ⊢
  refine Yields.imp ?_ (fun _ _ h => h) fun _ _ h => h
  unfold Yields at h ⊢
  cases hrun : prior machine with
  | ok ref machine' => rintro _ ⟨⟩
  | error halt machine' => rw [hrun] at h; exact h

theorem bind_remanifest (prior : Run Ref) (steps : Nat) :
    (prior >>= fun ref => Machine.remanifest (steps + 1) ref >>= fun _ => pure ref) =
      (prior >>= fun ref => installManifest ref >>= fun _ => pure ref) >>= fun ref =>
        Machine.initializeMissing steps ref >>= fun _ => pure ref := by
  simp only [Machine.remanifest, bind_assoc, pure_bind]

theorem remanifest_succ (h : discipline.Keeps steps) {prior : Run Ref}
    (hprior : discipline.Safe world
      (prior >>= fun ref => installManifest ref >>= fun _ => pure ref) machine
      fun world _ ref => discipline.entity world (.object ref) ∧ discipline.writable world ref) :
    discipline.Safe world
      (prior >>= fun ref => Machine.remanifest (steps + 1) ref >>= fun _ => pure ref) machine
      fun world _ ref => discipline.entity world (.object ref) := by
  rw [bind_remanifest]
  refine Regime.Safe.bind hprior ?_
  rintro world' machine' ref _ hfits' ⟨hentity, hwritable⟩
  exact Regime.Safe.bind (h.initializeMissing hfits' hwritable hentity) fun _ _ _ hle hfits'' _ =>
    Regime.Safe.pure hfits'' (discipline.entity_mono hle hentity)

/-- Remanifesting an object after a change of what it wears. -/
theorem reshape (h : discipline.Keeps steps) {change : Run PUnit} {ref : Ref}
    (hentity : discipline.entity world (.object ref)) (hwritable : discipline.writable world ref)
    (hchange : discipline.Safe world (change >>= fun _ => installManifest ref) machine
      fun _ _ _ => True) :
    discipline.Safe world (change >>= fun _ => Machine.remanifest steps ref) machine
      fun _ _ _ => True := by
  have hprior : discipline.Safe world
      ((change >>= fun _ => pure ref) >>= fun ref => installManifest ref >>= fun _ => pure ref)
      machine fun world _ ref =>
        discipline.entity world (.object ref) ∧ discipline.writable world ref := by
    simp only [bind_assoc, pure_bind]
    rw [← bind_assoc]
    exact Regime.Safe.bind hchange fun _ _ _ hle hfits _ => Regime.Safe.pure hfits
      ⟨discipline.entity_mono hle hentity, discipline.writable_mono hle hwritable⟩
  have hrun := h.remanifest hprior
  simp only [bind_assoc, pure_bind] at hrun
  rw [← bind_assoc] at hrun
  have hmap : (change >>= fun _ => Machine.remanifest steps ref) =
      (fun _ => ()) <$> ((change >>= fun _ => Machine.remanifest steps ref) >>= fun _ => pure ref) := by
    simp only [map_bind, map_pure, bind_pure_unit]
  rw [hmap]
  exact Regime.Safe.map (hrun.mono fun _ _ _ _ _ _ => trivial)

theorem instantiate_succ (h : discipline.Keeps steps) {cls : ClassId}
    (hfits : discipline.fits world machine) (hcls : discipline.permit.new cls) :
    discipline.Safe world (Machine.instantiate (steps + 1) cls) machine
      fun world _ ref => discipline.entity world (.object ref) := by
  rw [Machine.instantiate]
  refine Regime.Safe.bind_get ?_
  split
  · rename_i hknown
    exact h.remanifest (discipline.create_safe hfits hcls hknown)
  · rename_i hunknown
    exact Regime.Safe.fail hfits (discipline.new_fault hfits hcls (by simpa using hunknown))

theorem extend_succ (h : discipline.Keeps steps) {ref : Ref} {cls : ClassId}
    (hfits : discipline.fits world machine) (hwrite : discipline.permit.write)
    (hwear : discipline.permit.wear cls) (hentity : discipline.entity world (.object ref)) :
    discipline.Safe world (Machine.extend (steps + 1) ref cls) machine fun _ _ _ => True := by
  rw [Machine.extend]
  refine Regime.Safe.bind_get ?_
  split
  case isFalse hunknown =>
    exact Regime.Safe.fail hfits (discipline.wear_fault hfits hwear (by simpa using hunknown))
  case isTrue hknown =>
    split
    case h_1 => exact Regime.Safe.pure hfits trivial
    case h_2 object hobject =>
      split
      case isTrue => exact Regime.Safe.pure hfits trivial
      case isFalse =>
        by_cases himplied : object.embodies cls = true
        · simp only [if_pos himplied]
          exact Regime.Safe.bind
            (discipline.imply_safe hfits hwrite hwear hknown hobject himplied)
            fun _ _ _ _ hfits' _ => Regime.Safe.pure hfits' trivial
        · simp only [if_neg himplied]
          exact h.reshape hentity (discipline.writable_of_write hwrite)
            (discipline.extend_safe hfits hwrite hwear hknown hobject (by simpa using himplied))

theorem retract_succ (h : discipline.Keeps steps) {ref : Ref} {cls : ClassId}
    (hfits : discipline.fits world machine) (hwrite : discipline.permit.write)
    (hentity : discipline.entity world (.object ref)) :
    discipline.Safe world (Machine.retract (steps + 1) ref cls) machine fun _ _ _ => True := by
  rw [Machine.retract]
  exact h.reshape hentity (discipline.writable_of_write hwrite)
    (discipline.retract_safe hfits hwrite)

theorem enforce_succ (h : discipline.Keeps steps) {batch : List Step}
    (hfits : discipline.fits world machine) (hwrite : discipline.permit.write)
    (hbatch : ∀ step ∈ batch, discipline.AdmitsStep world step) :
    discipline.Safe world (Machine.enforce (steps + 1) batch) machine fun _ _ _ => True := by
  rw [Machine.enforce]
  refine Regime.Safe.bind (Regime.Safe.forM hfits ?_) ?_
  · intro step hmem world' machine' hle hfits'
    have hstep := (hbatch step hmem).mono hle
    split
    · exact h.extend hfits' hwrite hstep.1 hstep.2
    · exact Regime.Safe.pure hfits' trivial
  intro world₁ machine₁ _ hle₁ hfits₁ _
  refine Regime.Safe.bind (Regime.Safe.forM hfits₁ ?_) ?_
  · intro step hmem world' machine' hle hfits'
    have hstep := (hbatch step hmem).mono (hle₁.trans hle)
    split
    · obtain ⟨htarget, hcaller, hargs⟩ := admits_step_call.mp hstep
      refine Regime.Safe.bind_get ?_
      split
      case h_1 routine hbound =>
        have hroutine := discipline.bound_within hfits' (discipline.call_of_write hwrite) hbound
        exact Regime.Safe.bind (h.invoke hfits' hroutine htarget hcaller hargs)
          fun _ _ _ _ hfits'' _ => Regime.Safe.pure hfits'' trivial
      case h_2 => exact Regime.Safe.pure hfits' trivial
    · exact Regime.Safe.pure hfits' trivial
  intro world₂ machine₂ _ hle₂ hfits₂ _
  refine Regime.Safe.forM hfits₂ ?_
  intro step hmem world' machine' hle hfits'
  have hstep := (hbatch step hmem).mono ((hle₁.trans hle₂).trans hle)
  split
  · exact h.retract hfits' hwrite hstep.2
  · exact Regime.Safe.pure hfits' trivial

theorem zero : discipline.Keeps 0 where
  eval _ _ _ := by rw [Machine.eval]; exact Regime.SafeIn.exhausted
  evalStep _ _ _ := by rw [Machine.evalStep]; exact Regime.SafeIn.exhausted
  exec _ _ _ := by rw [Machine.exec]; exact Regime.SafeIn.exhausted
  execBlock _ _ _ := by rw [Machine.execBlock]; exact Regime.SafeIn.exhausted
  repeatWhile _ _ _ _ := by rw [Machine.repeatWhile]; exact Regime.SafeIn.exhausted
  repeatFor _ _ _ _ := by rw [Machine.repeatFor]; exact Regime.SafeIn.exhausted
  invoke _ _ _ _ _ := by rw [Machine.invoke]; exact Regime.Safe.exhausted
  dispatch _ _ _ _ _ := by rw [Machine.dispatch]; exact Regime.Safe.exhausted
  initializeMissing _ _ _ := by rw [Machine.initializeMissing]; exact Regime.Safe.exhausted
  remanifest := remanifest_zero
  instantiate _ _ := by rw [Machine.instantiate]; exact Regime.Safe.exhausted
  extend _ _ _ _ := by rw [Machine.extend]; exact Regime.Safe.exhausted
  retract _ _ _ := by rw [Machine.retract]; exact Regime.Safe.exhausted
  enforce _ _ _ := by rw [Machine.enforce]; exact Regime.Safe.exhausted

theorem succ (h : discipline.Keeps steps) : discipline.Keeps (steps + 1) where
  eval := h.eval_succ
  evalStep := h.evalStep_succ
  exec := h.exec_succ
  execBlock := h.execBlock_succ
  repeatWhile := h.repeatWhile_succ
  repeatFor := h.repeatFor_succ
  invoke := h.invoke_succ
  dispatch := h.dispatch_succ
  initializeMissing := h.initializeMissing_succ
  remanifest := h.remanifest_succ
  instantiate := h.instantiate_succ
  extend := h.extend_succ
  retract := h.retract_succ
  enforce := h.enforce_succ

end Keeps

theorem keeps (discipline : Discipline World) : ∀ steps, discipline.Keeps steps
  | 0 => Keeps.zero
  | steps + 1 => (keeps discipline steps).succ

end Discipline

end Attire
