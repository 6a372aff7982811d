import Attire.Proofs.Lowering.Gives
import Attire.Proofs.Tables
import Attire.Proofs.Typing.Checker

namespace Attire

/-! Bodies that pass the checks compile: the compilation finds every note and every slot that it
looks for. -/

open CheckContext

/-- The fabrics that names stand for have values. -/
def CheckContext.Provides (ctx : CheckContext) (fabrics : Fabrics) : Prop :=
  ∀ path id, ctx.names.resolve path = .ok (.fabric id) → ∃ value, fabrics id = some value

namespace Lower

variable {α β : Type} {ctx after : CheckContext} {fabrics : Fabrics}
variable {state : LoweringState} {outer : List (Table String Nat)}

/-- The compilation leaves the state as it is. -/
def Keeps (state : LoweringState) (run : Lower α) : Prop :=
  Gives run state fun _ next => next = state

theorem Keeps.pure (answer : α) : Keeps state (pure answer : Lower α) := rfl

theorem Keeps.bind {run : Lower α} {next : α → Lower β} (h : Keeps state run)
    (hnext : ∀ answer, Keeps state (next answer)) : Keeps state (run >>= next) := by
  refine Gives.bind h ?_
  rintro answer _ rfl
  exact hnext answer

/-- Every variable in scope has a slot. -/
def Slotted (locals : List (Table String Ty)) (state : LoweringState) : Prop :=
  ∀ name ty, findLocal name locals = some ty → ∃ slot, findSlot name state.scopes = some slot

theorem typeOf_known {expr : Expr} {ty : Ty} (h : expr.ty? = some ty) :
    Gives (typeOf expr) state fun answer next => answer = ty ∧ next = state := by
  unfold typeOf
  rw [h]
  exact ⟨rfl, rfl⟩

theorem Keeps.typeOf {expr : Expr} {ty : Ty} (h : expr.ty? = some ty) :
    Keeps state (typeOf expr) :=
  (typeOf_known h).imp fun _ _ h => h.2

theorem indexKind_known {object : Expr} {ty : Ty} (h : object.ty? = some ty) :
    Gives (indexKind object) state fun kind next =>
      next = state ∧ (kind = .text → ty = .text) := by
  refine Gives.bind (typeOf_known h) ?_
  rintro _ _ ⟨rfl, rfl⟩
  split <;> simp

theorem localOfPath?_known {path : Path} {ty : Ty} (hstate : Slotted ctx.scopes state)
    (h : ctx.localOfPath? path = some ty) :
    Gives (localOfPath? path) state fun slot next => (∃ found, slot = some found) ∧ next = state := by
  unfold CheckContext.localOfPath? at h
  split at h
  case h_1 name => exact ⟨hstate name ty h, rfl⟩
  case h_2 => cases h

theorem Keeps.localOfPath? (path : Path) : Keeps state (localOfPath? path) := by
  unfold Lower.localOfPath?
  split <;> rfl

theorem Keeps.addsText {op : BinaryOp} {result : Expr} {ty : Ty} (h : result.ty? = some ty) :
    Keeps state (addsText op result) := by
  unfold Lower.addsText
  split
  · exact (Keeps.typeOf h).bind fun _ => Keeps.pure _
  · exact Keeps.pure false

mutual

theorem lowerExpr_keeps (hfabrics : ctx.Provides fabrics) : ∀ {expr : Expr} {ty : Ty}, ctx.ExprTyped expr ty →
    ∀ state, Slotted ctx.scopes state → Keeps state (lowerExpr fabrics expr)
  | _, _, .num, _, _ | _, _, .text, _, _ | _, _, .bool, _, _ | _, _, .null, _, _
  | _, _, .this, _, _ | _, _, .caller, _, _ | _, _, .random, _, _ => rfl
  | _, _, .var hlocal, state, hstate => by
    refine Gives.bind (localOfPath?_known hstate hlocal) ?_
    rintro _ _ ⟨⟨slot, rfl⟩, rfl⟩
    rfl
  | _, _, .fabric _ hfabric, state, _ => by
    obtain ⟨value, hvalue⟩ := hfabrics _ _ hfabric
    refine (Keeps.localOfPath? _).bind fun slot => ?_
    cases slot with
    | some slot => rfl
    | none =>
      simp only [Option.bind_some, hvalue]
      rfl
  | _, _, .field hobject _, state, hstate =>
    (lowerExpr_keeps hfabrics hobject state hstate).bind fun _ => Keeps.pure _
  | _, _, .indexArray hobject hindex _ _, state, hstate
  | _, _, .indexText hobject hindex _ _, state, hstate
  | _, _, .indexMap hobject hindex _ _, state, hstate => by
    refine Keeps.bind ((indexKind_known hobject.ty?).imp fun _ _ h => h.1) fun kind => ?_
    refine (Keeps.typeOf rfl).bind fun ty => ?_
    exact (lowerExpr_keeps hfabrics hobject state hstate).bind fun _ =>
      (lowerExpr_keeps hfabrics hindex state hstate).bind fun _ => Keeps.pure _
  | _, _, .indexTuple hobject _ _, state, hstate =>
    (lowerExpr_keeps hfabrics hobject state hstate).bind fun _ => Keeps.pure _
  | _, _, .call hobject _ _ hargs, state, hstate =>
    (lowerExpr_keeps hfabrics hobject state hstate).bind fun _ =>
      (lowerArgs_keeps hfabrics hargs state hstate).bind fun _ => Keeps.pure _
  | _, _, .superCall _ _ hargs, state, hstate =>
    (lowerArgs_keeps hfabrics hargs state hstate).bind fun _ => Keeps.pure _
  | _, _, .newObject _, _, _ => rfl
  | _, .array _, .newContainer _ _, _, _ | _, .map _ _, .newContainer _ _, _, _
  | _, .set _, .newContainer _ _, _, _ => rfl
  | _, _, .binary hleft _ hright _ _, state, hstate =>
    (Keeps.addsText rfl).bind fun _ => (lowerExpr_keeps hfabrics hleft state hstate).bind fun _ =>
      (lowerExpr_keeps hfabrics hright state hstate).bind fun _ => Keeps.pure _
  | _, _, .neg hoperand _ _, state, hstate | _, _, .not hoperand _ _, state, hstate
  | _, _, .clone hoperand _, state, hstate | _, _, .len hoperand, state, hstate
  | _, _, .is hoperand _, state, hstate =>
    (lowerExpr_keeps hfabrics hoperand state hstate).bind fun _ => Keeps.pure _
  | _, _, .array hvalues _, state, hstate | _, _, .tuple hvalues, state, hstate =>
    (lowerValues_keeps hfabrics hvalues state hstate).bind fun _ => Keeps.pure _
  | _, _, .cast hvalue _ _ _, state, hstate =>
    (Keeps.typeOf rfl).bind fun _ =>
      (lowerExpr_keeps hfabrics hvalue state hstate).bind fun _ => Keeps.pure _
  | _, _, .hasKey hcollection hkey _ _, state, hstate
  | _, _, .hasItem hcollection hkey _ _, state, hstate =>
    (lowerExpr_keeps hfabrics hcollection state hstate).bind fun _ =>
      (lowerExpr_keeps hfabrics hkey state hstate).bind fun _ => Keeps.pure _
  | _, _, .suggest hsteps, state, hstate =>
    (lowerSteps_keeps hfabrics hsteps state hstate).bind fun _ => Keeps.pure _

theorem lowerArgs_keeps (hfabrics : ctx.Provides fabrics) : ∀ {params : List Ty} {args : List Expr}, ctx.ArgsTyped params args →
    ∀ state, Slotted ctx.scopes state → Keeps state (lowerExprs fabrics args)
  | _, _, .nil, _, _ => rfl
  | _, _, .cons harg _ _ hargs, state, hstate =>
    (lowerExpr_keeps hfabrics harg state hstate).bind fun _ =>
      (lowerArgs_keeps hfabrics hargs state hstate).bind fun _ => Keeps.pure _

theorem lowerValues_keeps (hfabrics : ctx.Provides fabrics) : ∀ {types : List Ty} {elements : List Expr},
    ctx.ValuesTyped types elements → ∀ state, Slotted ctx.scopes state →
      Keeps state (lowerExprs fabrics elements)
  | _, _, .nil, _, _ => rfl
  | _, _, .cons helement _ helements, state, hstate =>
    (lowerExpr_keeps hfabrics helement state hstate).bind fun _ =>
      (lowerValues_keeps hfabrics helements state hstate).bind fun _ => Keeps.pure _

theorem lowerStep_keeps (hfabrics : ctx.Provides fabrics) : ∀ {step : SuggestStep}, ctx.StepTyped step →
    ∀ state, Slotted ctx.scopes state → Keeps state (lowerStep fabrics step)
  | _, .extend htarget _, state, hstate | _, .retract htarget _, state, hstate =>
    (lowerExpr_keeps hfabrics htarget state hstate).bind fun _ => Keeps.pure _
  | _, .call htarget _ hargs, state, hstate =>
    (lowerExpr_keeps hfabrics htarget state hstate).bind fun _ =>
      (lowerArgs_keeps hfabrics hargs state hstate).bind fun _ => Keeps.pure _

theorem lowerSteps_keeps (hfabrics : ctx.Provides fabrics) : ∀ {steps : List SuggestStep}, ctx.StepsTyped steps →
    ∀ state, Slotted ctx.scopes state → Keeps state (lowerSteps fabrics steps)
  | _, .nil, _, _ => rfl
  | _, .cons hstep hrest, state, hstate =>
    (lowerStep_keeps hfabrics hstep state hstate).bind fun _ =>
      (lowerSteps_keeps hfabrics hrest state hstate).bind fun _ => Keeps.pure _

end

/-- What holds between two statements of a block.  The slots of the blocks around it stay as they
are. -/
structure Serves (locals : List (Table String Ty)) (outer : List (Table String Nat))
    (state : LoweringState) : Prop where
  slotted : Slotted locals state
  nested : ∃ inner, state.scopes = inner :: outer
  found : state.missing = none

namespace Serves

variable {locals : List (Table String Ty)} {name : String} {ty : Ty}

theorem onSlots {change : Slots → α × Slots} (h : Serves locals outer state) :
    Gives (onSlots change) state fun _ next => Serves locals outer next :=
  Serves.mk h.slotted h.nested h.found

theorem keeps {run : Lower α} (h : Serves locals outer state) (hrun : Keeps state run) :
    Gives run state fun _ next => Serves locals outer next :=
  Gives.imp hrun fun _ _ heq => heq ▸ h

theorem findSlot_insert {other : String} {slot : Nat} {inner : Table String Nat} :
    findSlot other (inner.insert name slot :: outer) =
      if other = name then some slot else findSlot other (inner :: outer) := by
  simp only [findSlot, Table.get?_insert]
  by_cases h : other = name <;> simp [h]

/-- A variable gets a slot. -/
theorem bind {scope : Table String Ty} (slot : Nat) (ty : Ty) (h : Serves (scope :: locals) outer state) :
    Gives (bind name slot) state fun _ next => Serves (scope.insert name ty :: locals) outer next := by
  obtain ⟨inner, hscopes⟩ := h.nested
  unfold Lower.bind
  rw [gives_modify, hscopes]
  refine ⟨fun other found hfind => ?_, ⟨_, rfl⟩, h.found⟩
  rw [findSlot_insert]
  split
  case isTrue => exact ⟨slot, rfl⟩
  case isFalse hne =>
    rw [← hscopes]
    refine h.slotted other found ?_
    simpa [findLocal, Table.get?_insert, hne] using hfind

theorem enter_iff : Serves (∅ :: locals) outer state ↔ Serves locals outer state :=
  ⟨fun h => ⟨h.slotted, h.nested, h.found⟩, fun h => ⟨h.slotted, h.nested, h.found⟩⟩

theorem forget {scope : Table String Ty} (h : Serves (scope.insert name ty :: locals) outer state) :
    Serves (scope :: locals) outer state := by
  refine ⟨fun other found hfind => ?_, h.nested, h.found⟩
  by_cases hname : other = name
  · exact h.slotted other ty (by simp [findLocal, hname])
  · exact h.slotted other found (by simpa [findLocal, Table.get?_insert, hname] using hfind)

theorem declare (h : Serves ctx.scopes outer state) (hdeclare : ctx.declare name ty = .ok after)
    (slot : Nat) :
    Gives (Lower.bind name slot) state fun _ next => Serves after.scopes outer next := by
  unfold CheckContext.declare at hdeclare
  split at hdeclare
  case h_1 hscopes =>
    cases hdeclare
    exact (enter_iff.mpr h).bind slot ty
  case h_2 scope rest hscopes =>
    split at hdeclare
    case isTrue => cases hdeclare
    case isFalse =>
      cases hdeclare
      rw [hscopes] at h
      exact h.bind slot ty

/-- A block of its own leaves no slots of its variables behind. -/
theorem inBlock {run : Lower α} (h : Serves locals outer state)
    (hrun : ∀ next, Serves (∅ :: locals) state.scopes next →
      Gives run next fun _ last => last.scopes.tail = state.scopes ∧ last.missing = none) :
    Gives (inBlock run) state fun _ next => Serves locals outer next := by
  unfold Lower.inBlock
  rw [gives_bind, gives_modify]
  refine Gives.bind (hrun _ ⟨h.slotted, ⟨_, rfl⟩, h.found⟩) ?_
  rintro answer last ⟨hscopes, hmissing⟩
  rw [gives_bind, gives_modify, gives_pure]
  refine ⟨?_, ?_, hmissing⟩
  · rw [Slotted, hscopes]
    exact h.slotted
  · rw [hscopes]
    exact h.nested

theorem left (h : Serves locals outer state) :
    state.scopes.tail = outer ∧ state.missing = none := by
  obtain ⟨inner, hscopes⟩ := h.nested
  exact ⟨congrArg List.tail hscopes, h.found⟩

theorem flush (h : Serves locals outer state) :
    Gives flush state fun _ next => Serves locals outer next := by
  refine Gives.bind h.onSlots fun slots next hnext => ?_
  cases slots <;> exact hnext

end Serves

theorem lowerFits_keeps (hfabrics : ctx.Provides fabrics) {expected : Ty} {expr : Expr}
    (hfits : ctx.Fits expected expr) (hstate : Slotted ctx.scopes state) :
    Keeps state (lowerExpr fabrics expr) := by
  obtain ⟨ty, htyped, -⟩ := hfits
  exact lowerExpr_keeps hfabrics htyped state hstate

theorem checkWrite_fabric {path : Path} {ty : Ty} {id : FabricId} {verb : String}
    (hlocal : ctx.localOfPath? path = none) :
    ctx.checkWrite ((Form.name path).notedAs ty (.fabric id)) verb ≠ .ok () := by
  simp [checkWrite, Form.notedAs, Expr.form, placeOf, hlocal]

theorem lowerAssign_keeps (hfabrics : ctx.Provides fabrics) {target value : Expr} {ty : Ty}
    {verb : String} (htarget : ctx.ExprTyped target ty) (hassignable : Assignable target)
    (hwrite : ctx.checkWrite target verb = .ok ()) (hstate : Slotted ctx.scopes state)
    (hvalue : Keeps state (lowerExpr fabrics value)) :
    Keeps state (lowerAssign fabrics target value) := by
  cases htarget with
  | var hlocal =>
    refine Gives.bind (localOfPath?_known hstate hlocal) ?_
    rintro _ _ ⟨⟨slot, rfl⟩, rfl⟩
    exact hvalue.bind fun _ => Keeps.pure _
  | fabric hlocal => exact absurd hwrite (checkWrite_fabric hlocal)
  | field hobject =>
    exact (lowerExpr_keeps hfabrics hobject _ hstate).bind fun _ => hvalue.bind fun _ => Keeps.pure _
  | indexArray hobject hindex | indexMap hobject hindex | indexText hobject hindex =>
    refine Keeps.bind ((indexKind_known hobject.ty?).imp fun _ _ h => h.1) fun kind => ?_
    exact (lowerExpr_keeps hfabrics hobject _ hstate).bind fun _ =>
      (lowerExpr_keeps hfabrics hindex _ hstate).bind fun _ => hvalue.bind fun _ => Keeps.pure _
  | indexTuple hobject =>
    rcases hassignable with ⟨element, h⟩ | ⟨key, value, h⟩ <;> cases hobject.ty?.symm.trans h
  | _ => exact hassignable.elim

/-- Scratch slots are no slots of variables. -/
theorem lowerUpdate_serves (hfabrics : ctx.Provides fabrics) {op : CompoundOp} {target value : Expr}
    {ty : Ty} {verb : String} (htarget : ctx.ExprTyped target ty) (hassignable : Assignable target)
    (hwrite : ctx.checkWrite target verb = .ok ()) (hstate : Serves ctx.scopes outer state)
    (hvalue : ∀ state, Slotted ctx.scopes state → Keeps state (lowerExpr fabrics value)) :
    Gives (lowerUpdate fabrics op ty target value) state fun _ next => Serves ctx.scopes outer next := by
  have hkeeps : ∀ {α : Type} {run : Lower α} {state : LoweringState}, Serves ctx.scopes outer state →
      Keeps state run → Gives run state fun _ next => Serves ctx.scopes outer next := by
    intro α run state hstate hrun
    exact Gives.imp hrun fun _ _ heq => heq ▸ hstate
  cases htarget with
  | var hlocal =>
    refine Gives.bind (localOfPath?_known hstate.slotted hlocal) ?_
    rintro _ _ ⟨⟨slot, rfl⟩, rfl⟩
    exact hkeeps hstate ((hvalue _ hstate.slotted).bind fun _ => Keeps.pure _)
  | fabric hlocal => exact absurd hwrite (checkWrite_fabric hlocal)
  | field hobject =>
    refine Gives.bind hstate.onSlots fun slot next hnext => hkeeps hnext ?_
    exact (lowerExpr_keeps hfabrics hobject _ hnext.slotted).bind fun _ =>
      (hvalue _ hnext.slotted).bind fun _ => Keeps.pure _
  | indexArray hobject hindex | indexMap hobject hindex =>
    refine Gives.bind (indexKind_known hobject.ty?) ?_
    rintro kind _ ⟨rfl, hkind⟩
    rw [if_neg (fun h => nomatch hkind h)]
    refine Gives.bind hstate.onSlots fun container next hnext => ?_
    refine Gives.bind hnext.onSlots fun key next hnext => ?_
    refine Gives.bind hnext.onSlots fun _ next hnext => hkeeps hnext ?_
    exact (lowerExpr_keeps hfabrics hobject _ hnext.slotted).bind fun _ =>
      (lowerExpr_keeps hfabrics hindex _ hnext.slotted).bind fun _ =>
        (hvalue _ hnext.slotted).bind fun _ => Keeps.pure _
  | indexText hobject | indexTuple hobject =>
    rcases hassignable with ⟨element, h⟩ | ⟨key, value, h⟩ <;> cases hobject.ty?.symm.trans h
  | _ => exact hassignable.elim

theorem lowerOperand_keeps (hfabrics : ctx.Provides fabrics) {op : CompoundOp} {ty : Ty}
    {value : Expr} {inPlace : Bool} (h : ctx.OperandTyped op ty value inPlace)
    (hstate : Slotted ctx.scopes state) : Keeps state (lowerExpr fabrics value) := by
  cases h with
  | text htyped => exact lowerExpr_keeps hfabrics htyped state hstate
  | addToArray hfits | addToSet hfits | removeFromMap hfits | removeFromSet hfits | number hfits
  | suggestion hfits => exact lowerFits_keeps hfabrics hfits hstate

theorem lowerChange_keeps (hfabrics : ctx.Provides fabrics) {op : CompoundOp} {target value : Expr}
    {ty : Ty} (htarget : ctx.ExprTyped target ty) (hvalue : ctx.OperandTyped op ty value true)
    (hstate : Slotted ctx.scopes state) : Keeps state (lowerCompound fabrics op target value) := by
  refine Gives.bind (typeOf_known htarget.ty?) ?_
  rintro _ _ ⟨rfl, rfl⟩
  cases hvalue with
  | addToArray hfits | addToSet hfits | removeFromMap hfits | removeFromSet hfits =>
    exact (lowerExpr_keeps hfabrics htarget _ hstate).bind fun _ =>
      (lowerFits_keeps hfabrics hfits hstate).bind fun _ => Keeps.pure _

theorem lowerCompound_serves (hfabrics : ctx.Provides fabrics) {op : CompoundOp}
    {target value : Expr} {ty : Ty} {verb : String} (htarget : ctx.ExprTyped target ty)
    (hassignable : Assignable target) (hvalue : ctx.OperandTyped op ty value false)
    (hwrite : ctx.checkWrite target verb = .ok ()) (hstate : Serves ctx.scopes outer state) :
    Gives (lowerCompound fabrics op target value) state fun _ next => Serves ctx.scopes outer next := by
  have hupdate : Gives (lowerUpdate fabrics op ty target value) state
      fun _ next => Serves ctx.scopes outer next :=
    lowerUpdate_serves hfabrics htarget hassignable hwrite hstate
      fun _ hslotted => lowerOperand_keeps hfabrics hvalue hslotted
  refine Gives.bind (typeOf_known htarget.ty?) ?_
  rintro _ _ ⟨rfl, rfl⟩
  cases hvalue with
  | number => cases op <;> exact hupdate
  | text | suggestion => exact hupdate

theorem lowerInit_keeps (hfabrics : ctx.Provides fabrics) {ty : Ty} {init : Option Expr}
    (hinit : ∀ expr ∈ init, ∃ found, ctx.ExprTyped expr found) (hstate : Slotted ctx.scopes state) :
    Keeps state (lowerInit fabrics (some ty) init) := by
  cases init with
  | none => rfl
  | some init =>
    obtain ⟨found, hinit⟩ := hinit init rfl
    exact lowerExpr_keeps hfabrics hinit state hstate

theorem lowerLet_serves {name : String} {ty : Ty} {value : Lower Code}
    (hstate : Serves ctx.scopes outer state) (hvalue : Keeps state value)
    (hdeclare : ctx.declare name ty = .ok after) :
    Gives (do
        let value ← value
        let slot ← mint
        bind name slot
        return [Instr.store slot value]) state fun _ next => Serves after.scopes outer next := by
  refine Gives.bind (hstate.keeps hvalue) fun code _ hnext => ?_
  refine Gives.bind hnext.onSlots fun slot _ hnext => ?_
  exact Gives.bind (hnext.declare hdeclare slot) fun _ _ hafter => hafter

mutual

theorem lowerStmt_serves : ∀ {ctx after : CheckContext} {stmt : Stmt}, StmtTyped ctx stmt after →
    ctx.Provides fabrics → ∀ {outer} state, Serves ctx.scopes outer state →
      Gives (lowerStmt fabrics stmt) state fun _ next => Serves after.scopes outer next
  | _, _, _, .letInferred hinit _ _ hdeclare, hfabrics, _, state, hstate =>
    lowerLet_serves hstate (lowerExpr_keeps hfabrics hinit state hstate.slotted) hdeclare
  | _, _, _, .letDeclared _ hinit _ hdeclare, hfabrics, _, state, hstate =>
    lowerLet_serves hstate (lowerFits_keeps hfabrics hinit hstate.slotted) hdeclare
  | _, _, _, .letDefault _ _ hdeclare, hfabrics, _, state, hstate =>
    lowerLet_serves hstate (Keeps.pure _) hdeclare
  | _, _, _, .assign htarget hassignable hvalue hwrite, hfabrics, _, state, hstate => by
    have hkeeps := lowerFits_keeps hfabrics hvalue hstate.slotted
    exact hstate.keeps <|
      (lowerAssign_keeps hfabrics htarget hassignable hwrite hstate.slotted hkeeps).bind fun _ =>
        Keeps.pure _
  | _, _, _, .change htarget hvalue _, hfabrics, _, state, hstate =>
    hstate.keeps <| (lowerChange_keeps hfabrics htarget hvalue hstate.slotted).bind fun _ =>
      Keeps.pure _
  | _, _, _, .update htarget hassignable hvalue hwrite, hfabrics, _, state, hstate =>
    Gives.bind (lowerCompound_serves hfabrics htarget hassignable hvalue hwrite hstate)
      fun _ _ hnext => hnext
  | _, _, _, .expr hexpr, hfabrics, _, state, hstate =>
    hstate.keeps <| (lowerExpr_keeps hfabrics hexpr state hstate.slotted).bind fun _ => Keeps.pure _
  | _, _, _, .branch hcond hyes hno, hfabrics, _, state, hstate => by
    refine Gives.bind (hstate.keeps (lowerFits_keeps hfabrics hcond hstate.slotted))
      fun _ _ hstate => ?_
    refine Gives.bind (hstate.inBlock fun _ => lowerStmts_serves hyes hfabrics _) fun _ _ hstate => ?_
    exact Gives.bind (hstate.inBlock fun _ => lowerStmts_serves hno hfabrics _) fun _ _ hstate => hstate
  | _, _, _, .while hcond hbody, hfabrics, _, state, hstate => by
    refine Gives.bind (hstate.keeps (lowerFits_keeps hfabrics hcond hstate.slotted))
      fun _ _ hstate => ?_
    exact Gives.bind (hstate.inBlock fun _ => lowerStmts_serves hbody hfabrics _) fun _ _ hstate => hstate
  | ctx, _, .for (some plan) key value _ _ _ body _, .for hiter _ _ hlocals hbody, hfabrics, _,
      state, hstate => by
    refine Gives.bind (hstate.keeps (lowerExpr_keeps hfabrics hiter state hstate.slotted))
      fun source state hstate => hstate.inBlock fun next hnext => ?_
    refine Gives.bind hnext.onSlots fun first _ hnext => ?_
    refine Gives.bind (hnext.bind first plan.first) fun _ _ hnext => ?_
    have hloop : ∀ {locals} second next, loopVariables plan key value = .ok locals →
        Serves (locals :: ctx.scopes) state.scopes next → Gives (do
          let body ← inBlock (lowerStmts fabrics body)
          return [Instr.forEach source plan.kind first second body]) next
          fun _ last => last.scopes.tail = state.scopes ∧ last.missing = none := by
      intro locals second next hsame hnext
      cases hlocals.symm.trans hsame
      exact Gives.bind (hnext.inBlock fun _ hnext =>
        lowerStmts_serves hbody hfabrics _ (Serves.enter_iff.mp hnext)) fun _ _ hlast => hlast.left
    simp only [loopVariables] at hloop hlocals
    cases value with
    | none => exact hloop none _ rfl hnext
    | some name =>
      cases hsecond : plan.second with
      | none =>
        rw [hsecond] at hloop
        exact hloop none _ rfl hnext
      | some ty =>
        rw [hsecond] at hloop hlocals
        refine Gives.bind hnext.onSlots fun slot _ hnext => ?_
        refine Gives.bind (hnext.bind slot ty) fun _ _ hnext => ?_
        dsimp only at hlocals
        split at hlocals
        case isTrue => cases hlocals
        case isFalse hne => exact hloop (some slot) _ (if_neg hne) hnext
  | _, _, _, .returnNothing _, _, _, _, hstate => hstate
  | _, _, _, .returnValue hvalue, hfabrics, _, state, hstate =>
    hstate.keeps <| (lowerFits_keeps hfabrics hvalue hstate.slotted).bind fun _ => Keeps.pure _
  | _, _, _, .break _, _, _, _, hstate | _, _, _, .continue _, _, _, _, hstate => hstate
  | _, _, _, .extend htarget _ _, hfabrics, _, state, hstate
  | _, _, _, .retract htarget _ _, hfabrics, _, state, hstate =>
    hstate.keeps <| (lowerExpr_keeps hfabrics htarget state hstate.slotted).bind fun _ =>
      Keeps.pure _
  | _, _, _, .enforce hsuggestion _, hfabrics, _, state, hstate =>
    hstate.keeps <| (lowerFits_keeps hfabrics hsuggestion hstate.slotted).bind fun _ =>
      Keeps.pure _

theorem lowerStmts_serves : ∀ {ctx : CheckContext} {body : List Stmt}, BlockTyped ctx body →
    ctx.Provides fabrics → ∀ {outer} state, Serves ctx.scopes outer state →
      Gives (lowerStmts fabrics body) state
        fun _ next => next.scopes.tail = outer ∧ next.missing = none
  | _, _, .nil, _, _, _, hstate => hstate.left
  | _, _, .cons hstmt hrest, hfabrics, _, state, hstate => by
    obtain ⟨scopes, rfl⟩ := hstmt.scoped
    refine Gives.bind (lowerStmt_serves hstmt hfabrics state hstate) fun _ _ hstate => ?_
    refine Gives.bind hstate.flush fun _ _ hstate => ?_
    exact Gives.bind (lowerStmts_serves hrest hfabrics _ hstate) fun _ _ hnext => hnext

end

theorem bindParams_serves {locals : List (Table String Ty)} {params : List Param}
    {types : List Ty} {scope last : Table String Ty}
    (hparams : (params.zip types).foldlM (fun table (param, ty) =>
      if table.contains param.name then .error (.duplicateLocal param.name)
      else .ok (table.insert param.name ty)) scope = (.ok last : Except CheckCause _))
    (hstate : Serves (scope :: locals) outer state) :
    Gives (bindParams params) state fun _ next => Serves (last :: locals) outer next := by
  induction params generalizing types scope state with
  | nil =>
    cases hparams
    exact hstate
  | cons param rest ih =>
    refine Gives.bind hstate.onSlots fun slot _ hnext => ?_
    cases types with
    | nil =>
      cases hparams
      exact Gives.bind (hnext.bind slot .void) fun _ _ hnext =>
        ih (by rw [List.zip_nil_right]; rfl) hnext.forget
    | cons ty types =>
      rw [List.zip_cons_cons, List.foldlM_cons, bind_eq_ok] at hparams
      obtain ⟨table, htable, hparams⟩ := hparams
      dsimp only at htable
      split at htable
      case isTrue => cases htable
      case isFalse =>
        cases htable
        exact Gives.bind (hnext.bind slot ty) fun _ _ hnext => ih hparams hnext

theorem inBlock_finds {run : Lower α}
    (h : ∀ state, Serves [∅] [] state → Gives run state fun _ next => next.missing = none) :
    Gives (inBlock run) {} fun _ next => next.missing = none := by
  unfold Lower.inBlock
  rw [gives_bind, gives_modify]
  refine Gives.bind (h _ ⟨fun _ _ hfind => ?_, ⟨∅, rfl⟩, rfl⟩) fun _ _ hmissing => hmissing
  cases hfind

theorem finish_ok {name : String} {arity : Nat} {ret : Ty} {run : Lower (List Instr)}
    (h : Gives run {} fun _ next => next.missing = none) :
    ∃ routine, finish name arity ret run = .ok routine := by
  cases hrun : run.run {} with | mk body state =>
  unfold Gives at h
  simp only [finish, hrun] at h ⊢
  rw [h]
  exact ⟨_, rfl⟩

end Lower

open Lower

variable {ctx : CheckContext} {fabrics : Fabrics} (className : String)

theorem lowerMethod_ok {cls : ClassId} {sig : MethodSig} {decl answer : MethodDecl}
    (hfabrics : ctx.Provides fabrics) (h : ctx.checkMethod cls sig decl = .ok answer) :
    ∃ routine, lowerMethod fabrics className sig answer = .ok routine := by
  obtain ⟨params, body, hparams, rfl, hbody⟩ := checkMethod_sound h
  refine finish_ok (inBlock_finds fun state hstate => ?_)
  refine Gives.bind (bindParams_serves hparams hstate) fun _ _ hstate => ?_
  exact (hstate.inBlock fun _ hnext =>
    lowerStmts_serves hbody hfabrics _ (Serves.enter_iff.mp hnext)).imp fun _ _ hlast => hlast.found

theorem lowerInitializer_ok {cls : ClassId} {ty : Ty} {decl answer : FieldDecl}
    (hfabrics : ctx.Provides fabrics) (h : ctx.checkInitializer cls ty decl = .ok answer) :
    ∃ routine, lowerInitializer fabrics className answer ty = .ok routine := by
  obtain ⟨init, rfl, hinit⟩ := checkInitializer_sound h
  refine finish_ok (inBlock_finds fun state hstate => ?_)
  have hprovides : (ctx.initializing cls ty).Provides fabrics := hfabrics
  have hkeeps : Keeps state (lowerInit fabrics (some ty) init) :=
    lowerInit_keeps hprovides
      (fun expr hmem => (hinit expr hmem).imp fun _ htyped => htyped.1) hstate.slotted
  exact Gives.bind (hstate.keeps hkeeps) fun _ _ hnext => hnext.found

end Attire
