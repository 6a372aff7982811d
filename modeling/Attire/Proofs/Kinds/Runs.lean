import Attire.Proofs.Kinds.Code

namespace Attire

open Machine

/-! Runs of code that is of its kinds leave every entity of its kind, and yield values of theirs. -/

/-- Whatever is installed keeps to the kinds of its method or field. -/
structure Kinds.Backed (base : Kinds) : Prop where
  composed : base.classes.Composed
  typed {cls : ClassId} {found : ClassDef} {own : OwnField} : base.classes.get? cls = some found →
    own ∈ found.ownFields → ∃ kind, own.ty.kind? = some kind
  body {slot : MethodSlot} {routine : Routine} : base.classes.Installed slot routine →
    ∃ params ret, base.Takes slot params ret ∧ routine.Kinded base params ret
  initializer {cls : ClassId} {found : ClassDef} {own : OwnField} {routine : Routine} {kind : Kind} :
    base.classes.get? cls = some found → own ∈ found.ownFields → own.ty.kind? = some kind →
    found.initializers.get? own.name = some routine → routine.Kinded base [] kind

variable {base kinds : Kinds} {machine : Machine} {frame : Frame} {kind : Kind} {layout : Layout}

theorem Kinds.Fits.takes (hfits : base.Fits kinds machine) {slot : MethodSlot} {params : List Kind} :
    kinds.Takes slot params kind ↔ base.Takes slot params kind := by
  rw [Kinds.Takes, Kinds.Takes, hfits.classes]

/-- What an object answers with takes what its method takes. -/
theorem Kinds.Backed.routine (hbacked : base.Backed) {slot : MethodSlot} {routine : Routine}
    {params : List Kind} (hinstalled : base.classes.Installed slot routine)
    (htakes : base.Takes slot params kind) : routine.Kinded base params kind := by
  obtain ⟨params', kind', htakes', hroutine⟩ := hbacked.body hinstalled
  obtain ⟨rfl, rfl⟩ := htakes.unique hbacked.composed htakes'
  exact hroutine

theorem Kinds.Fits.bound (hfits : base.Fits kinds machine) {target : Value} {slot : MethodSlot}
    {routine : Routine} (hbound : boundRoutine? machine.heap target slot = some routine) :
    base.classes.Installed slot routine := by
  unfold boundRoutine? at hbound
  split at hbound
  case h_1 ref =>
    obtain ⟨object, hobject, hslot⟩ := Option.bind_eq_some_iff.mp hbound
    exact hfits.classes ▸ (hfits.kinded.heap.stored_object hobject).table hslot
  case h_2 => cases hbound

/-- A pending field is one that a class declares. -/
theorem Kinds.Fits.pending (hfits : base.Fits kinds machine) (hbacked : base.Backed)
    {object : Object} {field : PendingField} (hfield : field ∈ machine.pendingFields object) :
    ∃ kind, base.Holds field.key kind ∧ field.ty.kind? = some kind ∧
      ∀ routine, field.initializer = some routine → routine.Kinded base [] kind := by
  have hregistry : machine.classes = base.classes := hfits.kinded.registry.trans hfits.classes
  obtain ⟨found, hfound, hfield⟩ := List.mem_flatMap.mp hfield
  obtain ⟨cls, -, hget⟩ := List.mem_filterMap.mp hfound
  obtain ⟨⟨key, own⟩, hentry, rfl⟩ := List.mem_map.mp hfield
  obtain ⟨position, hposition, heq⟩ := List.mem_mapIdx.mp (List.mem_filter.mp hentry).1
  cases heq
  rw [hregistry] at hget
  have hown : found.ownFields[position] ∈ found.ownFields := List.getElem_mem hposition
  obtain ⟨kind, hkind⟩ := hbacked.typed hget hown
  refine ⟨kind, ⟨found, _, ?_, List.getElem?_eq_getElem hposition, hkind⟩, hkind, ?_⟩
  · rw [hbacked.composed.id hget]
    exact hget
  · exact fun routine hroutine => hbacked.initializer hget hown hkind hroutine

/-- What holds after a statement: it leaves slots of their kinds, also where it ends early, and
returns what the routine may. -/
structure AfterFlow (count : Nat) (ret : Kind) (before after : Layout) (kinds : Kinds)
    (frame : Frame) (flow : Flow) : Prop where
  kept : frame.Kinded kinds count before
  next : flow = .next → frame.Kinded kinds count after
  returned {value : Value} : flow = .return value → value.OfKind kinds ret

/-- Around a block, slots are of the kinds that they were of before it. -/
theorem AfterFlow.leave {count : Nat} {ret : Kind} {before inner after : Layout} {flow : Flow}
    (h : AfterFlow count ret inner after kinds frame flow) (hkeeps : before.Keeps inner) :
    AfterFlow count ret before before kinds frame flow :=
  ⟨h.kept.restrict hkeeps, fun _ => h.kept.restrict hkeeps, h.returned⟩

/-- All runs of at most `steps` nested steps keep entities and values of their kinds. -/
structure KeepsKinds (base : Kinds) (steps : Nat) : Prop where
  eval {kinds : Kinds} {frame : Frame} {machine : Machine} {count : Nat} {layout : Layout}
    {code : Code} {kind : Kind} :
    base.Fits kinds machine → frame.Kinded kinds count layout → code.Kinded base layout kind →
    base.regime.SafeIn kinds (Machine.eval steps code) frame machine fun later _ frame' value =>
      frame' = frame ∧ value.OfKind later kind
  lay {kinds : Kinds} {frame : Frame} {machine : Machine} {count : Nat} {before after : Layout}
    {code : Code} {kind : Kind} :
    base.Fits kinds machine → frame.Kinded kinds count before →
    code.Lays base count before kind after →
    base.regime.SafeIn kinds (Machine.eval steps code) frame machine fun later _ frame value =>
      frame.Kinded later count after ∧ value.OfKind later kind
  evalStep {kinds : Kinds} {frame : Frame} {machine : Machine} {count : Nat} {layout : Layout}
    {code : StepCode} :
    base.Fits kinds machine → frame.Kinded kinds count layout → code.Kinded base layout →
    base.regime.SafeIn kinds (Machine.evalStep steps code) frame machine fun later _ frame' step =>
      frame' = frame ∧ step.OfKind later
  exec {kinds : Kinds} {frame : Frame} {machine : Machine} {count : Nat} {ret : Kind}
    {before after : Layout} {instr : Instr} :
    base.Fits kinds machine → frame.Kinded kinds count before →
    instr.Kinded base count ret before after →
    base.regime.SafeIn kinds (Machine.exec steps instr) frame machine fun later _ frame flow =>
      AfterFlow count ret before after later frame flow
  execBlock {kinds : Kinds} {frame : Frame} {machine : Machine} {count : Nat} {ret : Kind}
    {before after : Layout} {body : List Instr} :
    base.Fits kinds machine → frame.Kinded kinds count before →
    Instr.AllKinded base count ret before body after →
    base.regime.SafeIn kinds (Machine.execBlock steps body) frame machine fun later _ frame flow =>
      AfterFlow count ret before after later frame flow
  repeatWhile {kinds : Kinds} {frame : Frame} {machine : Machine} {count : Nat} {ret kind : Kind}
    {before after : Layout} {cond : Code} {body : List Instr} :
    base.Fits kinds machine → frame.Kinded kinds count before → cond.Kinded base before kind →
    Instr.AllKinded base count ret before body after →
    base.regime.SafeIn kinds (Machine.repeatWhile steps cond body) frame machine
      fun later _ frame flow => AfterFlow count ret before before later frame flow
  repeatOne {kinds : Kinds} {frame : Frame} {machine : Machine} {count : Nat} {ret kind : Kind}
    {before after : Layout} {first : Nat} {body : List Instr}
    {rounds : List (Value × Option Value)} :
    base.Fits kinds machine → frame.Kinded kinds count before → first < count →
    before.Takes first kind → Instr.AllKinded base count ret (before.put first kind) body after →
    (∀ round ∈ rounds, round.1.OfKind kinds kind) →
    base.regime.SafeIn kinds (Machine.repeatFor steps first none body rounds) frame machine
      fun later _ frame flow => AfterFlow count ret before before later frame flow
  repeatTwo {kinds : Kinds} {frame : Frame} {machine : Machine} {count : Nat}
    {ret kind kind' : Kind} {before after : Layout} {first second : Nat} {body : List Instr}
    {rounds : List (Value × Option Value)} :
    base.Fits kinds machine → frame.Kinded kinds count before → first < count →
    before.Takes first kind → second < count → (before.put first kind).Takes second kind' →
    Instr.AllKinded base count ret ((before.put first kind).put second kind') body after →
    (∀ round ∈ rounds, round.1.OfKind kinds kind ∧
      ∃ item, round.2 = some item ∧ item.OfKind kinds kind') →
    base.regime.SafeIn kinds (Machine.repeatFor steps first (some second) body rounds) frame machine
      fun later _ frame flow => AfterFlow count ret before before later frame flow
  invoke {kinds : Kinds} {machine : Machine} {routine : Routine} {this caller : Value}
    {args : List Value} {params : List Kind} {ret : Kind} :
    base.Fits kinds machine → routine.Kinded base params ret → this.OfKind kinds .object →
    caller.OfKind kinds .object → List.Forall₂ (Value.OfKind kinds) args params →
    base.regime.Safe kinds (Machine.invoke steps routine this caller args) machine
      fun later _ value => value.OfKind later ret
  dispatch {kinds : Kinds} {machine : Machine} {target caller : Value} {slot : MethodSlot}
    {args : List Value} {ret : Ty} {params : List Kind} {kind : Kind} :
    base.Fits kinds machine → base.Takes slot params kind → ret.kind? = some kind →
    target.OfKind kinds .object → caller.OfKind kinds .object →
    List.Forall₂ (Value.OfKind kinds) args params →
    base.regime.Safe kinds (Machine.dispatch steps target slot caller args ret) machine
      fun later _ value => value.OfKind later kind
  initializeMissing {kinds : Kinds} {machine : Machine} {ref : Ref} :
    base.Fits kinds machine → kinds.Has ref .object →
    base.regime.Safe kinds (Machine.initializeMissing steps ref) machine fun _ _ _ => True
  remanifest {kinds : Kinds} {machine : Machine} {ref : Ref} :
    base.Fits kinds machine → kinds.Has ref .object →
    base.regime.Safe kinds (Machine.remanifest steps ref) machine fun _ _ _ => True
  instantiate {kinds : Kinds} {machine : Machine} {cls : ClassId} : base.Fits kinds machine →
    base.regime.Safe kinds (Machine.instantiate steps cls) machine
      fun later _ ref => later.Has ref .object
  extend {kinds : Kinds} {machine : Machine} {ref : Ref} {cls : ClassId} :
    base.Fits kinds machine → kinds.Has ref .object →
    base.regime.Safe kinds (Machine.extend steps ref cls) machine fun _ _ _ => True
  retract {kinds : Kinds} {machine : Machine} {ref : Ref} {cls : ClassId} :
    base.Fits kinds machine → kinds.Has ref .object →
    base.regime.Safe kinds (Machine.retract steps ref cls) machine fun _ _ _ => True
  enforce {kinds : Kinds} {machine : Machine} {batch : List Step} :
    base.Fits kinds machine → (∀ step ∈ batch, step.OfKind kinds) →
    base.regime.Safe kinds (Machine.enforce steps batch) machine fun _ _ _ => True

namespace KeepsKinds

variable {steps count : Nat} {ret : Kind} {before after : Layout}

theorem zero : KeepsKinds base 0 where
  eval _ _ _ := by rw [Machine.eval]; exact Regime.SafeIn.exhausted
  lay _ _ _ := by rw [Machine.eval]; exact Regime.SafeIn.exhausted
  evalStep _ _ _ := by rw [Machine.evalStep]; exact Regime.SafeIn.exhausted
  exec _ _ _ := by rw [Machine.exec]; exact Regime.SafeIn.exhausted
  execBlock _ _ _ := by rw [Machine.execBlock]; exact Regime.SafeIn.exhausted
  repeatWhile _ _ _ _ := by rw [Machine.repeatWhile]; exact Regime.SafeIn.exhausted
  repeatOne _ _ _ _ _ _ := by rw [Machine.repeatFor]; exact Regime.SafeIn.exhausted
  repeatTwo _ _ _ _ _ _ _ _ := by rw [Machine.repeatFor]; exact Regime.SafeIn.exhausted
  invoke _ _ _ _ _ := by rw [Machine.invoke]; exact Regime.Safe.exhausted
  dispatch _ _ _ _ _ _ := by rw [Machine.dispatch]; exact Regime.Safe.exhausted
  initializeMissing _ _ := by rw [Machine.initializeMissing]; exact Regime.Safe.exhausted
  remanifest _ _ := by rw [Machine.remanifest]; exact Regime.Safe.exhausted
  instantiate _ := by rw [Machine.instantiate]; exact Regime.Safe.exhausted
  extend _ _ := by rw [Machine.extend]; exact Regime.Safe.exhausted
  retract _ _ := by rw [Machine.retract]; exact Regime.Safe.exhausted
  enforce _ _ := by rw [Machine.enforce]; exact Regime.Safe.exhausted

section

variable {α : Type} {post : Kinds → Machine → Frame → α → Prop}

/-- An operand, and what is made of its value. -/
theorem evalThen (h : KeepsKinds base steps) {operand : Code} {next : Value → Exec α}
    (hfits : base.Fits kinds machine) (hframe : frame.Kinded kinds count layout)
    (hoperand : operand.Kinded base layout kind)
    (hnext : ∀ {later : Kinds} {machine' : Machine} {value : Value}, kinds ≤ later →
      base.Fits later machine' → frame.Kinded later count layout → value.OfKind later kind →
      base.regime.SafeIn later (next value) frame machine' post) :
    base.regime.SafeIn kinds (Machine.eval steps operand >>= next) frame machine post := by
  refine Regime.SafeIn.bind (h.eval hfits hframe hoperand) ?_
  rintro later machine' _ value hle hfits' ⟨rfl, hvalue⟩
  exact hnext hle hfits' (hframe.mono hle) hvalue

/-- Two operands, one after the other, and what is made of their values. -/
theorem evalTwo (h : KeepsKinds base steps) {left right : Code} {kind' : Kind}
    {next : Value → Value → Exec α} (hfits : base.Fits kinds machine)
    (hframe : frame.Kinded kinds count layout) (hleft : left.Kinded base layout kind)
    (hright : right.Kinded base layout kind')
    (hnext : ∀ {later : Kinds} {machine' : Machine} {a b : Value}, kinds ≤ later →
      base.Fits later machine' → frame.Kinded later count layout → a.OfKind later kind →
      b.OfKind later kind' → base.regime.SafeIn later (next a b) frame machine' post) :
    base.regime.SafeIn kinds (do
      let a ← Machine.eval steps left
      let b ← Machine.eval steps right
      next a b) frame machine post :=
  h.evalThen hfits hframe hleft fun hle hfits' hframe' ha =>
    h.evalThen hfits' hframe' hright fun hle' hfits'' hframe'' hb =>
      hnext (hle.trans hle') hfits'' hframe'' (ha.mono hle') hb

/-- An operand that may be kept in a slot, and what is made of its value. -/
theorem layThen (h : KeepsKinds base steps) {operand : Code} {next : Value → Exec α}
    (hfits : base.Fits kinds machine) (hframe : frame.Kinded kinds count before)
    (hoperand : operand.Lays base count before kind after)
    (hnext : ∀ {later : Kinds} {machine' : Machine} {frame' : Frame} {value : Value},
      kinds ≤ later → base.Fits later machine' → frame'.Kinded later count after →
      value.OfKind later kind → base.regime.SafeIn later (next value) frame' machine' post) :
    base.regime.SafeIn kinds (Machine.eval steps operand >>= next) frame machine post := by
  refine Regime.SafeIn.bind (h.lay hfits hframe hoperand) ?_
  rintro later machine' frame' value hle hfits' ⟨hframe', hvalue⟩
  exact hnext hle hfits' hframe' hvalue

end

theorem evalAll (h : KeepsKinds base steps) {codes : List Code} {all : List Kind}
    (hfits : base.Fits kinds machine) (hframe : frame.Kinded kinds count layout)
    (hcodes : List.Forall₂ (Code.Kinded base layout) codes all) :
    base.regime.SafeIn kinds (codes.mapM (Machine.eval steps)) frame machine
      fun later _ frame' values => frame' = frame ∧
        List.Forall₂ (Value.OfKind later) values all := by
  induction hcodes generalizing kinds machine with
  | nil => exact Regime.SafeIn.pure hfits ⟨rfl, .nil⟩
  | cons hcode hrest ih =>
    rw [List.mapM_cons]
    refine h.evalThen hfits hframe hcode fun _ hfits' hframe' hvalue => ?_
    refine Regime.SafeIn.bind (ih hfits' hframe') ?_
    rintro later machine'' _ values hle hfits'' ⟨rfl, hvalues⟩
    exact Regime.SafeIn.pure hfits'' ⟨rfl, .cons (hvalue.mono hle) hvalues⟩

theorem evalItems (h : KeepsKinds base steps) {codes : List Code}
    (hfits : base.Fits kinds machine) (hframe : frame.Kinded kinds count layout)
    (hcodes : ∀ code ∈ codes, code.Kinded base layout kind) :
    base.regime.SafeIn kinds (codes.mapM (Machine.eval steps)) frame machine
      fun later _ frame' values => frame' = frame ∧ ∀ value ∈ values, value.OfKind later kind := by
  refine Regime.SafeIn.mapM (fun _ frame' => frame' = frame)
    (fun later (value : Value) => value.OfKind later kind) (fun hle h => h.mono hle) hfits rfl ?_
  rintro code hmem later _ machine' hle hfits' rfl
  exact h.eval hfits' (hframe.mono hle) (hcodes code hmem)

theorem evalSteps (h : KeepsKinds base steps) {codes : List StepCode}
    (hfits : base.Fits kinds machine) (hframe : frame.Kinded kinds count layout)
    (hcodes : ∀ code ∈ codes, code.Kinded base layout) :
    base.regime.SafeIn kinds (codes.mapM (Machine.evalStep steps)) frame machine
      fun later _ frame' made => frame' = frame ∧ ∀ step ∈ made, step.OfKind later := by
  refine Regime.SafeIn.mapM (fun _ frame' => frame' = frame) (fun later (step : Step) => step.OfKind later)
    (fun hle h => h.mono hle) hfits rfl ?_
  rintro code hmem later _ machine' hle hfits' rfl
  exact h.evalStep hfits' (hframe.mono hle) (hcodes code hmem)

theorem answers {value : Value} (hfits : base.Fits kinds machine) (hvalue : value.OfKind kinds kind) :
    base.regime.SafeIn kinds (pure value : Exec Value) frame machine fun later _ frame' value =>
      frame' = frame ∧ value.OfKind later kind :=
  Regime.SafeIn.pure hfits ⟨rfl, hvalue⟩

theorem lifts {run : Run Value} (hrun : base.regime.Safe kinds run machine fun later _ value =>
      value.OfKind later kind) :
    base.regime.SafeIn kinds (liftM run : Exec Value) frame machine fun later _ frame' value =>
      frame' = frame ∧ value.OfKind later kind :=
  Regime.SafeIn.lift (hrun.mono fun _ _ _ _ _ hvalue => ⟨rfl, hvalue⟩)

theorem mergeSteps_ofKind {left right : Value} {kind' : Kind} (hleft : left.OfKind kinds kind)
    (hright : right.OfKind kinds kind') : ∀ step ∈ mergeSteps left right, step.OfKind kinds := by
  unfold mergeSteps
  split
  · intro step hmem
    rcases List.mem_append.mp hmem with hmem | hmem
    · exact Step.allOfKind_iff.mp hleft.2 step hmem
    · exact Step.allOfKind_iff.mp hright.2 step hmem
  · exact Step.allOfKind_iff.mp hleft.2
  · exact Step.allOfKind_iff.mp hright.2
  · intro step hmem
    cases hmem

theorem eval_succ (hbacked : base.Backed) (h : KeepsKinds base steps) {code : Code}
    (hfits : base.Fits kinds machine) (hframe : frame.Kinded kinds count layout)
    (hcode : code.Kinded base layout kind) :
    base.regime.SafeIn kinds (Machine.eval (steps + 1) code) frame machine
      fun later _ frame' value => frame' = frame ∧ value.OfKind later kind := by
  cases hcode <;> rw [Machine.eval]
  case num | text | bool => exact answers hfits rfl
  case null hnullable => exact answers hfits hnullable
  case «default» ty constructed hty => exact lifts (safe_default constructed hty hfits)
  case «local» slot hslot => exact Regime.SafeIn.bind_get (answers hfits (hframe.slots hslot))
  case this => exact Regime.SafeIn.bind_get (answers hfits hframe.this)
  case caller => exact Regime.SafeIn.bind_get (answers hfits hframe.caller)
  case const value hvalue => exact answers hfits (hvalue.mono hfits.grown)
  case getField object key ty hobject hkey hty =>
    refine h.evalThen hfits hframe hobject fun {later machine' target} hle hfits' hframe' _ =>
      Regime.SafeIn.bind_currentHeap ?_
    cases hread : readField? machine'.heap target key with
    | none => exact lifts (safe_default false hty hfits')
    | some value =>
      exact answers hfits' (hfits'.kinded.heap.readField (hkey.mono hfits'.grown) hread)
  case index object index by' ty of indexOf hobject hindex hindexed hty =>
    refine h.evalTwo hfits hframe hobject hindex
      fun {_ machine' container position} _ hfits' _ hcontainer _ =>
        Regime.SafeIn.bind_currentHeap ?_
    cases hread : machine'.heap.element? container by' position with
    | none => exact lifts (safe_default false hty hfits')
    | some value =>
      exact answers hfits' (hfits'.kinded.heap.element hindexed hcontainer hread)
  case tupleGet tuple position elements htuple hposition =>
    refine h.evalThen hfits hframe htuple fun {_ _ value} _ hfits' _ hvalue => ?_
    obtain ⟨items, rfl, hitems⟩ := Value.ofKind_tuple.mp hvalue
    refine answers hfits' ?_
    obtain ⟨hlt, rfl⟩ := List.getElem?_eq_some_iff.mp hposition
    have hlt' : position < items.length := hitems.length_eq ▸ hlt
    rw [List.getElem?_eq_getElem hlt']
    exact hitems.get hlt' hlt
  case call object slot args ret params hobject hargs htakes hret =>
    refine h.evalThen hfits hframe hobject fun {_ _ target} _ hfits' hframe' htarget => ?_
    refine Regime.SafeIn.bind (h.evalAll hfits' hframe' hargs) ?_
    rintro later machine'' _ values hle hfits'' ⟨rfl, hvalues⟩
    exact Regime.SafeIn.bind_get (lifts
      (h.dispatch hfits'' htakes hret (htarget.mono hle) (hframe'.mono hle).this hvalues))
  case superCall parent slot args params hparent hargs htakes =>
    refine Regime.SafeIn.bind (h.evalAll hfits hframe hargs) ?_
    rintro later machine' _ values hle hfits' ⟨rfl, hvalues⟩
    have hknown : later.classes.contains parent := hfits'.classes ▸ hparent
    refine Regime.SafeIn.bind_lift (safe_classRoutine hfits' hbacked.composed hknown slot) ?_
    rintro later' machine'' (_ | routine) hle' hfits'' hanswer
    · exact Regime.SafeIn.bind_getMachine (Regime.SafeIn.lift (Regime.Safe.fail hfits'' trivial))
    · have hroutine := hbacked.routine (hanswer routine rfl) htakes
      have hframe'' := hframe.mono (hle.trans hle')
      exact Regime.SafeIn.bind_get (Regime.SafeIn.bind_get (lifts
        (h.invoke hfits'' hroutine hframe''.this hframe''.caller
          (hvalues.imp fun _ _ hvalue => hvalue.mono hle'))))
  case new cls =>
    exact Regime.SafeIn.bind_lift (h.instantiate hfits) fun _ _ _ _ hfits' href =>
      answers hfits' ⟨rfl, href⟩
  case newArray => exact lifts (safe_newArray hfits (by simp))
  case newMap key value => exact lifts (safe_newMap hfits key value)
  case newSet element => exact lifts (safe_newSet hfits element)
  case array elements element helements =>
    refine Regime.SafeIn.bind (h.evalItems hfits hframe helements) ?_
    rintro later machine' _ values hle hfits' ⟨rfl, hvalues⟩
    exact lifts (safe_newArray hfits' (by simpa using hvalues))
  case tuple elements all helements =>
    refine Regime.SafeIn.bind (h.evalAll hfits hframe helements) ?_
    rintro later machine' _ values hle hfits' ⟨rfl, hvalues⟩
    exact answers hfits' (Value.ofKind_tuple.mpr ⟨values, rfl, hvalues⟩)
  case arith hleft hright | concat hleft hright | compare hleft hright | equal hleft hright =>
    exact h.evalTwo hfits hframe hleft hright fun _ hfits' _ _ _ => answers hfits' rfl
  case logic conjunction left right _ _ hleft hright =>
    refine h.evalThen hfits hframe hleft fun {_ _ value} _ hfits' hframe' _ => ?_
    by_cases hopen : value.asBool = conjunction
    · rw [if_pos hopen]
      exact h.evalThen hfits' hframe' hright fun _ hfits'' _ _ => answers hfits'' rfl
    · rw [if_neg hopen]
      exact answers hfits' rfl
  case not hoperand | neg hoperand =>
    exact h.evalThen hfits hframe hoperand fun _ hfits' _ _ => answers hfits' rfl
  case merge hleft hright =>
    exact h.evalTwo hfits hframe hleft hright fun _ hfits' _ ha hb =>
      lifts (safe_suggestion hfits' (mergeSteps_ofKind ha hb))
  case clone hoperand =>
    exact h.evalThen hfits hframe hoperand fun _ hfits' _ hvalue => lifts (safe_clone hfits' hvalue)
  case len hoperand | is hoperand =>
    exact h.evalThen hfits hframe hoperand fun _ hfits' _ _ =>
      Regime.SafeIn.bind_currentHeap (answers hfits' rfl)
  case has hleft hright =>
    exact h.evalTwo hfits hframe hleft hright fun _ hfits' _ _ _ =>
      Regime.SafeIn.bind_currentHeap (answers hfits' rfl)
  case random =>
    refine Regime.SafeIn.bind_get ?_
    split
    · exact Regime.SafeIn.bind_lift (safe_drawRandom hfits _) fun _ _ _ _ hfits' _ =>
        answers hfits' rfl
    · exact answers hfits rfl
  case suggest parts hparts =>
    refine Regime.SafeIn.bind (h.evalSteps hfits hframe hparts) ?_
    rintro later machine' _ made hle hfits' ⟨rfl, hmade⟩
    exact lifts (safe_suggestion hfits' hmade)

theorem lay_succ (hbacked : base.Backed) (h : KeepsKinds base steps) {code : Code}
    (hfits : base.Fits kinds machine) (hframe : frame.Kinded kinds count before)
    (hcode : code.Lays base count before kind after) :
    base.regime.SafeIn kinds (Machine.eval (steps + 1) code) frame machine
      fun later _ frame value => frame.Kinded later count after ∧ value.OfKind later kind := by
  cases hcode with
  | plain hcode =>
    refine (h.eval_succ hbacked hfits hframe hcode).mono ?_
    rintro later _ _ value hle _ ⟨rfl, hvalue⟩
    exact ⟨hframe.mono hle, hvalue⟩
  | tee hvalue _ hslot =>
    rw [Machine.eval]
    refine h.evalThen hfits hframe hvalue fun _ hfits' hframe' hvalue => ?_
    exact Regime.SafeIn.bind_setSlot (Regime.SafeIn.pure hfits' ⟨hframe'.put hslot hvalue, hvalue⟩)

theorem evalStep_succ (h : KeepsKinds base steps) {code : StepCode}
    (hfits : base.Fits kinds machine) (hframe : frame.Kinded kinds count layout)
    (hcode : code.Kinded base layout) :
    base.regime.SafeIn kinds (Machine.evalStep (steps + 1) code) frame machine
      fun later _ frame' step => frame' = frame ∧ step.OfKind later := by
  cases hcode <;> rw [Machine.evalStep]
  case extend htarget | retract htarget =>
    exact h.evalThen hfits hframe htarget fun _ hfits' _ hvalue =>
      Regime.SafeIn.pure hfits' ⟨rfl, hvalue⟩
  case call target slot args params ret htarget htakes hargs =>
    refine h.evalThen hfits hframe htarget fun {_ _ value} _ hfits' hframe' hvalue =>
      Regime.SafeIn.bind_get ?_
    refine Regime.SafeIn.bind (h.evalAll hfits' hframe' hargs) ?_
    rintro later machine'' _ values hle hfits'' ⟨rfl, hvalues⟩
    exact Regime.SafeIn.pure hfits'' ⟨rfl, hvalue.mono hle, (hframe'.mono hle).this, params, ret,
      hfits''.takes.mpr htakes, Value.allOfKinds_iff.mpr hvalues⟩

/-! Statements. -/

theorem safe_next (hfits : base.Fits kinds machine) (hframe : frame.Kinded kinds count after)
    (hkeeps : before.Keeps after) :
    base.regime.SafeIn kinds (pure .next : Exec Flow) frame machine fun later _ frame flow =>
      AfterFlow count ret before after later frame flow :=
  Regime.SafeIn.pure hfits ⟨hframe.restrict hkeeps, fun _ => hframe, nofun⟩

/-- A change of the machine between a statement's operands and the next statement. -/
theorem safe_effect (hframe : frame.Kinded kinds count before) {run : Run PUnit}
    (hrun : base.regime.Safe kinds run machine fun _ _ _ => True) :
    base.regime.SafeIn kinds (liftM run >>= fun _ => pure .next : Exec Flow) frame machine
      fun later _ frame flow => AfterFlow count ret before before later frame flow :=
  Regime.SafeIn.bind_lift hrun fun _ _ _ hle hfits' _ =>
    safe_next hfits' (hframe.mono hle) (.refl before)

theorem safe_release (hfits : base.Fits kinds machine) : ∀ {slots : List Nat} {frame : Frame},
    (∀ slot ∈ slots, before slot = none) → frame.Kinded kinds count before →
    base.regime.SafeIn kinds
      (slots.forM (fun slot => setSlot slot .null) >>= fun _ => pure .next : Exec Flow) frame machine
      fun later _ frame flow => AfterFlow count ret before before later frame flow
  | [], _, _, hframe => safe_next hfits hframe (.refl before)
  | slot :: rest, frame, hslots, hframe => by
    have hcleared := hframe.clear (hslots slot List.mem_cons_self) .null
    have hrest : base.regime.SafeIn kinds
        (rest.forM (fun slot => setSlot slot .null) >>= fun _ => pure .next : Exec Flow)
        (frame.set slot .null) machine
        fun later _ frame flow => AfterFlow count ret before before later frame flow :=
      safe_release hfits (fun other hmem => hslots other (List.mem_cons_of_mem _ hmem)) hcleared
    exact hrest

theorem exec_succ (h : KeepsKinds base steps) {instr : Instr} (hfits : base.Fits kinds machine)
    (hframe : frame.Kinded kinds count before) (hinstr : instr.Kinded base count ret before after) :
    base.regime.SafeIn kinds (Machine.exec (steps + 1) instr) frame machine fun later _ frame flow =>
      AfterFlow count ret before after later frame flow := by
  cases hinstr with
  | eval hcode =>
    rw [Machine.exec]
    exact h.evalThen hfits hframe hcode fun _ hfits' hframe' _ =>
      safe_next hfits' hframe' (.refl before)
  | store hvalue hslot htakes =>
    rw [Machine.exec]
    exact h.evalThen hfits hframe hvalue fun _ hfits' hframe' hvalue' =>
      Regime.SafeIn.bind_setSlot (safe_next hfits' (hframe'.put hslot hvalue') htakes.keeps)
  | setField hobject hkey hvalue =>
    rw [Machine.exec]
    refine h.layThen hfits hframe hobject fun _ hfits' hframe' _ => ?_
    refine h.evalThen hfits' hframe' hvalue fun _ hfits'' hframe'' hvalue' => ?_
    refine safe_effect (hframe''.restrict hobject.keeps) (safe_onHeap hfits'' fun heap hheap => ?_)
    exact hheap.writeField (hkey.mono hfits''.grown) hvalue'
  | setIndex htarget hindex hindexed hvalue =>
    rw [Machine.exec]
    refine h.layThen hfits hframe htarget fun _ hfits' hframe' htarget' => ?_
    refine h.layThen hfits' hframe' hindex fun hle hfits'' hframe'' hindex' => ?_
    refine h.evalThen hfits'' hframe'' hvalue fun hle' hfits₃ hframe₃ hvalue' => ?_
    refine safe_effect (hframe₃.restrict (htarget.keeps.trans hindex.keeps))
      (safe_onHeap hfits₃ fun heap hheap => ?_)
    exact hheap.putElement hindexed (htarget'.mono (hle.trans hle')) (hindex'.mono hle') hvalue'
  | append htarget hgathers hvalue =>
    rw [Machine.exec]
    exact h.evalTwo hfits hframe htarget hvalue fun _ hfits' hframe' htarget' hvalue' =>
      safe_effect hframe' (safe_onHeap hfits' fun heap hheap =>
        hheap.addElement hgathers htarget' hvalue')
  | remove htarget hvalue =>
    rw [Machine.exec]
    exact h.evalTwo hfits hframe htarget hvalue fun _ hfits' hframe' _ _ =>
      safe_effect hframe' (safe_onHeap hfits' fun heap hheap => hheap.removeElement _ _)
  | branch hcond hyes hno =>
    rw [Machine.exec]
    refine h.evalThen hfits hframe hcond fun _ hfits' hframe' _ => ?_
    split
    · exact (h.execBlock hfits' hframe' hyes).mono fun _ _ _ _ _ _ hafter => hafter.leave (.refl _)
    · exact (h.execBlock hfits' hframe' hno).mono fun _ _ _ _ _ _ hafter => hafter.leave (.refl _)
  | «while» hcond hbody =>
    rw [Machine.exec]
    exact h.repeatWhile hfits hframe hcond hbody
  | forOne hsource hwalked hfirst htakes hbody =>
    rw [Machine.exec]
    refine h.evalThen hfits hframe hsource fun _ hfits' hframe' hvalue =>
      Regime.SafeIn.bind_currentHeap ?_
    exact h.repeatOne hfits' hframe' hfirst htakes hbody fun round hmem =>
      (hfits'.kinded.heap.round hwalked hvalue hmem).1
  | forTwo hsource hwalked hfirst htakes hsecond htakes' hbody =>
    rw [Machine.exec]
    refine h.evalThen hfits hframe hsource fun _ hfits' hframe' hvalue =>
      Regime.SafeIn.bind_currentHeap ?_
    refine h.repeatTwo hfits' hframe' hfirst htakes hsecond htakes' hbody fun round hmem => ?_
    obtain ⟨hone, htwo⟩ := hfits'.kinded.heap.round hwalked hvalue hmem
    exact ⟨hone, htwo _ rfl⟩
  | «break» | «continue» =>
    rw [Machine.exec]
    refine Regime.SafeIn.pure hfits ⟨hframe, ?_, ?_⟩
    · intro heq
      cases heq
    · intro value heq
      cases heq
  | «return» hcode =>
    rw [Machine.exec]
    refine h.evalThen hfits hframe hcode fun _ hfits' hframe' hvalue => ?_
    refine Regime.SafeIn.pure hfits' ⟨hframe', ?_, ?_⟩
    · intro heq
      cases heq
    · rintro _ ⟨rfl⟩
      exact hvalue
  | extend htarget =>
    rw [Machine.exec]
    refine h.evalThen hfits hframe htarget fun _ hfits' hframe' hvalue => ?_
    split
    · exact safe_effect hframe' (h.extend hfits' hvalue.2)
    · exact safe_next hfits' hframe' (.refl before)
  | retract htarget =>
    rw [Machine.exec]
    refine h.evalThen hfits hframe htarget fun _ hfits' hframe' hvalue => ?_
    split
    · exact safe_effect hframe' (h.retract hfits' hvalue.2)
    · exact safe_next hfits' hframe' (.refl before)
  | enforce hcode =>
    rw [Machine.exec]
    refine h.evalThen hfits hframe hcode fun _ hfits' hframe' hvalue => ?_
    split
    · exact safe_effect hframe' (h.enforce hfits' (Step.allOfKind_iff.mp hvalue.2))
    · exact safe_next hfits' hframe' (.refl before)
  | release hslots =>
    rw [Machine.exec]
    exact safe_release hfits hslots hframe

theorem execBlock_succ (h : KeepsKinds base steps) {body : List Instr}
    (hfits : base.Fits kinds machine) (hframe : frame.Kinded kinds count before)
    (hbody : Instr.AllKinded base count ret before body after) :
    base.regime.SafeIn kinds (Machine.execBlock (steps + 1) body) frame machine
      fun later _ frame flow => AfterFlow count ret before after later frame flow := by
  cases hbody with
  | nil => exact safe_next hfits hframe (.refl before)
  | cons hinstr hrest =>
    rw [Machine.execBlock]
    refine Regime.SafeIn.bind (h.exec hfits hframe hinstr) ?_
    rintro later machine' frame' flow _ hfits' hafter
    split
    · exact (h.execBlock hfits' (hafter.next rfl) hrest).mono fun _ _ _ _ _ _ hlast =>
        ⟨hlast.kept.restrict hinstr.keeps, hlast.next, hlast.returned⟩
    case h_2 hflow =>
      exact Regime.SafeIn.pure hfits' ⟨hafter.kept, fun heq => absurd heq hflow, hafter.returned⟩

/-- A round of a loop, and what comes after it. -/
theorem round (h : KeepsKinds base steps) {inner : Layout} {body : List Instr} {again : Exec Flow}
    (hfits : base.Fits kinds machine) (hframe : frame.Kinded kinds count inner)
    (hkeeps : before.Keeps inner) (hbody : Instr.AllKinded base count ret inner body after)
    (hagain : ∀ {later : Kinds} {machine' : Machine} {frame' : Frame}, kinds ≤ later →
      base.Fits later machine' → frame'.Kinded later count before →
      base.regime.SafeIn later again frame' machine' fun later _ frame flow =>
        AfterFlow count ret before before later frame flow) :
    base.regime.SafeIn kinds (do
      match ← Machine.execBlock steps body with
      | .break => return .next
      | .return value => return .return value
      | .next | .continue => again) frame machine
      fun later _ frame flow => AfterFlow count ret before before later frame flow := by
  refine Regime.SafeIn.bind (h.execBlock hfits hframe hbody) ?_
  rintro later machine' frame' flow hle hfits' hafter
  have hleft := hafter.kept.restrict hkeeps
  split
  · exact safe_next hfits' hleft (.refl before)
  · exact Regime.SafeIn.pure hfits' ⟨hleft, nofun, by rintro _ ⟨rfl⟩; exact hafter.returned rfl⟩
  · exact hagain hle hfits' hleft
  · exact hagain hle hfits' hleft

theorem repeatWhile_succ (h : KeepsKinds base steps) {cond : Code} {body : List Instr}
    (hfits : base.Fits kinds machine) (hframe : frame.Kinded kinds count before)
    (hcond : cond.Kinded base before kind) (hbody : Instr.AllKinded base count ret before body after) :
    base.regime.SafeIn kinds (Machine.repeatWhile (steps + 1) cond body) frame machine
      fun later _ frame flow => AfterFlow count ret before before later frame flow := by
  rw [Machine.repeatWhile]
  refine h.evalThen hfits hframe hcond fun _ hfits' hframe' _ => ?_
  split
  · exact h.round hfits' hframe' (.refl before) hbody fun _ hfits'' hframe'' =>
      h.repeatWhile hfits'' hframe'' hcond hbody
  · exact safe_next hfits' hframe' (.refl before)

theorem repeatOne_succ (h : KeepsKinds base steps) {first : Nat} {body : List Instr}
    {rounds : List (Value × Option Value)} (hfits : base.Fits kinds machine)
    (hframe : frame.Kinded kinds count before) (hfirst : first < count)
    (htakes : before.Takes first kind)
    (hbody : Instr.AllKinded base count ret (before.put first kind) body after)
    (hrounds : ∀ round ∈ rounds, round.1.OfKind kinds kind) :
    base.regime.SafeIn kinds (Machine.repeatFor (steps + 1) first none body rounds) frame machine
      fun later _ frame flow => AfterFlow count ret before before later frame flow := by
  rcases rounds with _ | ⟨⟨a, b⟩, rest⟩
  · exact safe_next hfits hframe (.refl before)
  rw [Machine.repeatFor]
  refine Regime.SafeIn.bind_setSlot ?_
  have hset := hframe.put hfirst (hrounds (a, b) List.mem_cons_self)
  exact h.round hfits hset htakes.keeps hbody fun hle hfits' hframe' =>
    h.repeatOne hfits' hframe' hfirst htakes hbody fun round hmem =>
      (hrounds round (List.mem_cons_of_mem _ hmem)).mono hle

theorem repeatTwo_succ (h : KeepsKinds base steps) {first second : Nat} {kind' : Kind}
    {body : List Instr} {rounds : List (Value × Option Value)} (hfits : base.Fits kinds machine)
    (hframe : frame.Kinded kinds count before) (hfirst : first < count)
    (htakes : before.Takes first kind) (hsecond : second < count)
    (htakes' : (before.put first kind).Takes second kind')
    (hbody : Instr.AllKinded base count ret ((before.put first kind).put second kind') body after)
    (hrounds : ∀ round ∈ rounds, round.1.OfKind kinds kind ∧
      ∃ item, round.2 = some item ∧ item.OfKind kinds kind') :
    base.regime.SafeIn kinds (Machine.repeatFor (steps + 1) first (some second) body rounds) frame
      machine fun later _ frame flow => AfterFlow count ret before before later frame flow := by
  rcases rounds with _ | ⟨⟨a, b⟩, rest⟩
  · exact safe_next hfits hframe (.refl before)
  obtain ⟨hone, item, rfl, htwo⟩ := hrounds (a, b) List.mem_cons_self
  rw [Machine.repeatFor]
  refine Regime.SafeIn.bind_setSlot (Regime.SafeIn.bind_setSlot ?_)
  have hset := (hframe.put hfirst hone).put hsecond htwo
  refine h.round hfits hset (htakes.keeps.trans htakes'.keeps) hbody fun hle hfits' hframe' =>
    h.repeatTwo hfits' hframe' hfirst htakes hsecond htakes' hbody fun round hmem => ?_
  obtain ⟨hfirst', item', hitem', hkind'⟩ := hrounds round (List.mem_cons_of_mem _ hmem)
  exact ⟨hfirst'.mono hle, item', hitem', hkind'.mono hle⟩

/-! Calls, and changes of what objects wear. -/

theorem safe_nested {α : Type} {run : Run α} {post : Kinds → α → Prop}
    (h : base.regime.Safe kinds run { machine with depth := machine.depth + 1 }
      fun later _ answer => post later answer) :
    base.regime.Safe kinds (nested run) machine fun later _ answer => post later answer := by
  unfold Regime.Safe Yields nested at *
  cases hrun : run { machine with depth := machine.depth + 1 } with
  | ok answer machine' =>
    rw [hrun] at h
    obtain ⟨later, hle, hfits, hpost⟩ := h
    exact ⟨later, hle, hfits.congr rfl rfl rfl, hpost⟩
  | error halt machine' =>
    rw [hrun] at h
    intro error heq
    obtain ⟨hfault, later, hle, hfits⟩ := h error heq
    exact ⟨hfault, later, hle, hfits.congr rfl rfl rfl⟩

theorem invoke_succ (h : KeepsKinds base steps) {routine : Routine} {this caller : Value}
    {args : List Value} {params : List Kind} (hfits : base.Fits kinds machine)
    (hroutine : routine.Kinded base params ret) (hthis : this.OfKind kinds .object)
    (hcaller : caller.OfKind kinds .object) (hargs : List.Forall₂ (Value.OfKind kinds) args params) :
    base.regime.Safe kinds (Machine.invoke (steps + 1) routine this caller args) machine
      fun later _ value => value.OfKind later ret := by
  rw [Machine.invoke]
  refine Regime.Safe.bind_get ?_
  split
  · exact Regime.Safe.fail hfits trivial
  · obtain ⟨last, hbody⟩ := hroutine.body
    have hframe := Frame.Kinded.ofRoutine hroutine hthis hcaller hargs
    have hfits' : base.Fits kinds { machine with depth := machine.depth + 1 } :=
      hfits.congr rfl rfl rfl
    have hblock : base.regime.SafeIn kinds (Machine.execBlock steps routine.body)
        (Frame.ofRoutine routine this caller args) { machine with depth := machine.depth + 1 }
        fun later _ _ flow => ∀ value, flow = .return value → value.OfKind later ret :=
      (h.execBlock hfits' hframe hbody).mono fun _ _ _ _ _ _ hafter _ heq => hafter.returned heq
    have hrun : base.regime.Safe kinds
        ((Machine.execBlock steps routine.body).run' (Frame.ofRoutine routine this caller args))
        { machine with depth := machine.depth + 1 } fun later _ flow =>
          ∀ value, flow = .return value → value.OfKind later ret := Regime.Safe.map hblock
    refine Regime.Safe.bind (safe_nested hrun) ?_
    intro later machine' flow _ hfits'' hflow
    split
    · exact Regime.Safe.pure hfits'' (hflow _ rfl)
    · exact safe_default false hroutine.answer hfits''

theorem dispatch_succ (hbacked : base.Backed) (h : KeepsKinds base steps) {target caller : Value}
    {slot : MethodSlot} {args : List Value} {ret : Ty} {params : List Kind}
    (hfits : base.Fits kinds machine) (htakes : base.Takes slot params kind)
    (hret : ret.kind? = some kind) (htarget : target.OfKind kinds .object)
    (hcaller : caller.OfKind kinds .object) (hargs : List.Forall₂ (Value.OfKind kinds) args params) :
    base.regime.Safe kinds (Machine.dispatch (steps + 1) target slot caller args ret) machine
      fun later _ value => value.OfKind later kind := by
  rw [Machine.dispatch]
  refine Regime.Safe.bind_get ?_
  split
  case h_1 routine hbound =>
    exact h.invoke hfits (hbacked.routine (hfits.bound hbound) htakes) htarget hcaller hargs
  case h_2 => exact safe_default false hret hfits

theorem initializeMissing_succ (hbacked : base.Backed) (h : KeepsKinds base steps) {ref : Ref}
    (hfits : base.Fits kinds machine) (href : kinds.Has ref .object) :
    base.regime.Safe kinds (Machine.initializeMissing (steps + 1) ref) machine
      fun _ _ _ => True := by
  rw [Machine.initializeMissing]
  refine Regime.Safe.bind_get (Regime.Safe.forM hfits ?_)
  intro field hmem later machine' hle hfits'
  obtain ⟨object, hpending⟩ : ∃ object, field ∈ machine.pendingFields object := by
    cases hobject : machine.heap.object? ref with
    | none => simp [hobject] at hmem
    | some object => exact ⟨object, by simpa [hobject] using hmem⟩
  obtain ⟨kind, hkey, hkind, hinitializer⟩ := hfits.pending hbacked hpending
  split
  case h_1 routine hroutine =>
    have hthis : (Value.object ref).OfKind later .object := ⟨rfl, href.mono hle⟩
    have hcaller : Value.null.OfKind later .object := rfl
    exact Regime.Safe.bind (h.invoke hfits' (hinitializer routine hroutine) hthis hcaller .nil)
      fun _ _ _ _ hfits'' hvalue =>
        safe_initializeField hfits'' (hkey.mono hfits''.grown) hvalue
  case h_2 =>
    exact Regime.Safe.bind (safe_default true hkind hfits') fun _ _ _ _ hfits'' hvalue =>
      safe_initializeField hfits'' (hkey.mono hfits''.grown) hvalue

theorem remanifest_succ (hbacked : base.Backed) (h : KeepsKinds base steps) {ref : Ref}
    (hfits : base.Fits kinds machine) (href : kinds.Has ref .object) :
    base.regime.Safe kinds (Machine.remanifest (steps + 1) ref) machine fun _ _ _ => True := by
  rw [Machine.remanifest]
  exact Regime.Safe.bind (safe_installManifest hfits hbacked.composed ref)
    fun _ _ _ hle hfits' _ => h.initializeMissing hfits' (href.mono hle)

theorem instantiate_succ (h : KeepsKinds base steps) {cls : ClassId}
    (hfits : base.Fits kinds machine) :
    base.regime.Safe kinds (Machine.instantiate (steps + 1) cls) machine
      fun later _ ref => later.Has ref .object := by
  rw [Machine.instantiate]
  refine Regime.Safe.bind_get ?_
  split
  case isFalse => exact Regime.Safe.fail hfits trivial
  case isTrue hknown =>
    have hentity : (Entity.object { worn := [cls] }).OfKind kinds .object := by
      refine ⟨rfl, fun other hmem => ?_, nofun, nofun⟩
      rw [← hfits.kinded.registry, List.mem_singleton.mp hmem]
      exact hknown
    refine Regime.Safe.bind (safe_create hfits hentity) fun _ _ ref _ hfits' href => ?_
    exact Regime.Safe.bind (h.remanifest hfits' href) fun _ _ _ hle hfits'' _ =>
      Regime.Safe.pure hfits'' (href.mono hle)

theorem extend_succ (h : KeepsKinds base steps) {ref : Ref} {cls : ClassId}
    (hfits : base.Fits kinds machine) (href : kinds.Has ref .object) :
    base.regime.Safe kinds (Machine.extend (steps + 1) ref cls) machine fun _ _ _ => True := by
  rw [Machine.extend]
  refine Regime.Safe.bind_get ?_
  split
  case isFalse => exact Regime.Safe.fail hfits trivial
  case isTrue hknown =>
    split
    case h_1 => exact Regime.Safe.pure hfits trivial
    case h_2 object hobject =>
      split
      case isTrue => exact Regime.Safe.pure hfits trivial
      case isFalse =>
        rw [hfits.kinded.registry] at hknown
        refine Regime.Safe.bind (safe_onHeap hfits fun heap hheap =>
          hheap.modifyObject fun stored _ hstored => ⟨?_, hstored.table, hstored.fields⟩) ?_
        · intro other hmem
          rcases List.mem_append.mp hmem with hmem | hmem
          · exact hstored.worn other hmem
          · exact List.mem_singleton.mp hmem ▸ hknown
        · intro _ _ _ hle hfits' _
          split
          · exact Regime.Safe.pure hfits' trivial
          · exact h.remanifest hfits' (href.mono hle)

theorem retract_succ (h : KeepsKinds base steps) {ref : Ref} {cls : ClassId}
    (hfits : base.Fits kinds machine) (href : kinds.Has ref .object) :
    base.regime.Safe kinds (Machine.retract (steps + 1) ref cls) machine fun _ _ _ => True := by
  rw [Machine.retract]
  refine Regime.Safe.bind (safe_onHeap hfits fun heap hheap =>
    hheap.modifyObject fun stored _ hstored => ⟨?_, hstored.table, hstored.fields⟩) ?_
  · exact fun other hmem => hstored.worn other (List.mem_filter.mp hmem).1
  · exact fun _ _ _ hle hfits' _ => h.remanifest hfits' (href.mono hle)

theorem enforce_succ (hbacked : base.Backed) (h : KeepsKinds base steps) {batch : List Step}
    (hfits : base.Fits kinds machine) (hbatch : ∀ step ∈ batch, step.OfKind kinds) :
    base.regime.Safe kinds (Machine.enforce (steps + 1) batch) machine fun _ _ _ => True := by
  rw [Machine.enforce]
  refine Regime.Safe.bind (Regime.Safe.forM hfits ?_) ?_
  · intro step hmem later machine' hle hfits'
    have hstep := (hbatch step hmem).mono hle
    split
    · exact h.extend hfits' hstep.2
    · exact Regime.Safe.pure hfits' trivial
  intro later₁ machine₁ _ hle₁ hfits₁ _
  refine Regime.Safe.bind (Regime.Safe.forM hfits₁ ?_) ?_
  · intro step hmem later machine' hle hfits'
    have hstep := (hbatch step hmem).mono (hle₁.trans hle)
    split
    · obtain ⟨htarget, hcaller, params, ret, htakes, hargs⟩ := hstep
      refine Regime.Safe.bind_get ?_
      split
      case h_1 routine hbound =>
        have hroutine := hbacked.routine (hfits'.bound hbound) (hfits'.takes.mp htakes)
        exact Regime.Safe.bind
          (h.invoke hfits' hroutine htarget hcaller (Value.allOfKinds_iff.mp hargs))
          fun _ _ _ _ hfits'' _ => Regime.Safe.pure hfits'' trivial
      case h_2 => exact Regime.Safe.pure hfits' trivial
    · exact Regime.Safe.pure hfits' trivial
  intro later₂ machine₂ _ hle₂ hfits₂ _
  refine Regime.Safe.forM hfits₂ ?_
  intro step hmem later machine' hle hfits'
  have hstep := (hbatch step hmem).mono ((hle₁.trans hle₂).trans hle)
  split
  · exact h.retract hfits' hstep.2
  · exact Regime.Safe.pure hfits' trivial

theorem succ (hbacked : base.Backed) (h : KeepsKinds base steps) : KeepsKinds base (steps + 1) where
  eval := h.eval_succ hbacked
  lay := h.lay_succ hbacked
  evalStep := h.evalStep_succ
  exec := h.exec_succ
  execBlock := h.execBlock_succ
  repeatWhile := h.repeatWhile_succ
  repeatOne := h.repeatOne_succ
  repeatTwo := h.repeatTwo_succ
  invoke := h.invoke_succ
  dispatch := h.dispatch_succ hbacked
  initializeMissing := h.initializeMissing_succ hbacked
  remanifest := h.remanifest_succ hbacked
  instantiate := h.instantiate_succ
  extend := h.extend_succ
  retract := h.retract_succ
  enforce := h.enforce_succ hbacked

end KeepsKinds

theorem keepsKinds (hbacked : base.Backed) : ∀ steps, KeepsKinds base steps
  | 0 => KeepsKinds.zero
  | steps + 1 => (keepsKinds hbacked steps).succ hbacked

end Attire
