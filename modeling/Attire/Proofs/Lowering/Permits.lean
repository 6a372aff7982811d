import Attire.Proofs.Lowering.Gives
import Attire.Proofs.Runs.Permit
import Attire.Proofs.Typing.Rules

namespace Attire

/-! Code of typed bodies does what their context grants, and nothing else. -/

/-- Whatever the rules let a body do in the context is permitted. -/
structure CheckContext.Grants (ctx : CheckContext) (fabrics : Fabrics) (permit : Permit) :
    Prop where
  new {written : TypeExpr} {cls : ClassId} :
    ctx.resolveType written = .ok (.object cls) → permit.new cls
  call {cls : ClassId} {name : String} {sig : MethodSig} {place : Place} :
    ctx.lookupMethod cls name = .ok sig →
    ctx.effects.allows (callRequirement sig place) → permit.call sig.slot
  superCall {name : String} {parent : ClassId} {sig : MethodSig} {place : Place} :
    ctx.lookupSuper name (ctx.classes.parents ctx.cls) = .ok (parent, sig) →
    ctx.effects.allows (callRequirement sig place) → permit.superCall parent sig.slot
  wear {path : Path} {cls : ClassId} : ctx.resolveClass path = .ok cls → permit.wear cls
  const {path : Path} {id : FabricId} {value : Value} :
    ctx.names.resolve path = .ok (.fabric id) → fabrics id = some value → permit.const value
  store {cls : ClassId} {name : String} {info : FieldInfo} :
    ctx.lookupField cls name = .ok info → permit.store info.key
  write : ctx.effects.mutatingThis ∨ ctx.effects.mutating → permit.write

theorem CheckContext.lookupSuper_scoped {ctx : CheckContext} {name : String}
    {scopes : List (Table String Ty)} {inLoop : Bool} {parents : List ClassId} :
    { ctx with scopes, inLoop }.lookupSuper name parents = ctx.lookupSuper name parents := by
  induction parents with
  | nil => rfl
  | cons parent rest ih =>
    simp only [lookupSuper, ih]
    rfl

theorem CheckContext.Grants.scoped {ctx : CheckContext} {fabrics : Fabrics} {permit : Permit}
    (grants : ctx.Grants fabrics permit) (scopes : List (Table String Ty)) (inLoop : Bool) :
    { ctx with scopes, inLoop }.Grants fabrics permit where
  new := grants.new
  call := grants.call
  superCall hsuper := grants.superCall (lookupSuper_scoped.symm.trans hsuper)
  wear := grants.wear
  const := grants.const
  store := grants.store
  write := grants.write

namespace Lower

open CheckContext

variable {ctx : CheckContext} {fabrics : Fabrics} {permit : Permit}

theorem binaryCode_within {op : BinaryOp} {concat : Bool} {left right : Code}
    (hleft : left.Within permit) (hright : right.Within permit) :
    (binaryCode op concat left right).Within permit := by
  cases op <;> cases concat <;> exact ⟨hleft, hright⟩

theorem combine_within {op : CompoundOp} {ty : Ty} {current operand : Code}
    (hcurrent : current.Within permit) (hoperand : operand.Within permit) :
    (combine op ty current operand).Within permit := by
  unfold combine
  split <;> exact ⟨hcurrent, hoperand⟩

mutual

theorem lowerExpr_within (grants : ctx.Grants fabrics permit) :
    ∀ {expr : Expr} {ty : Ty}, ctx.ExprTyped expr ty → ∀ state,
      Gives (lowerExpr fabrics expr) state fun code _ => code.Within permit
  | _, _, .num, _ | _, _, .text, _ | _, _, .bool, _ | _, _, .null, _ | _, _, .this, _
  | _, _, .caller, _ | _, _, .random, _ => trivial
  | _, _, .var _, state => by
    refine Gives.seq fun slot state => ?_
    cases slot <;> trivial
  | _, _, .fabric _ hfabric, state => by
    refine Gives.seq fun slot state => ?_
    cases slot with
    | some slot => trivial
    | none =>
      dsimp only [Option.bind_some]
      split
      case h_1 value hvalue => exact grants.const hfabric hvalue
      case h_2 => trivial
  | _, _, .field hobject _, state => lowerExpr_within grants hobject state
  | _, _, .indexArray hobject hindex _ _, state | _, _, .indexText hobject hindex _ _, state
  | _, _, .indexMap hobject hindex _ _, state => by
    refine Gives.seq fun kind state => Gives.seq fun ty state => ?_
    refine Gives.bind (lowerExpr_within grants hobject state) fun object state hobject => ?_
    exact Gives.bind (lowerExpr_within grants hindex state) fun index state hindex =>
      ⟨hobject, hindex⟩
  | _, _, .indexTuple hobject _ _, state => lowerExpr_within grants hobject state
  | _, _, .call hobject hsig hallows hargs, state => by
    refine Gives.bind (lowerExpr_within grants hobject state) fun object state hobject => ?_
    exact Gives.bind (lowerArgs_within grants hargs state) fun args state hargs =>
      ⟨grants.call hsig hallows, hobject, hargs⟩
  | _, _, .superCall hsig hallows hargs, state =>
    Gives.bind (lowerArgs_within grants hargs state) fun args state hargs =>
      ⟨grants.superCall hsig hallows, hargs⟩
  | _, _, .newObject hcls, state => grants.new hcls
  | _, .array _, .newContainer _ _, state | _, .map _ _, .newContainer _ _, state
  | _, .set _, .newContainer _ _, state => trivial
  | _, _, .binary hleft _ hright _ _, state => by
    refine Gives.seq fun concat state => ?_
    refine Gives.bind (lowerExpr_within grants hleft state) fun left state hleft => ?_
    exact Gives.bind (lowerExpr_within grants hright state) fun right state hright =>
      binaryCode_within hleft hright
  | _, _, .neg hoperand _ _, state | _, _, .not hoperand _ _, state
  | _, _, .clone hoperand _, state | _, _, .len hoperand, state | _, _, .is hoperand _, state =>
    lowerExpr_within grants hoperand state
  | _, _, .array hvalues _, state | _, _, .tuple hvalues, state =>
    lowerValues_within grants hvalues state
  | _, _, .cast hvalue _ _ _, state =>
    Gives.seq fun _ state => lowerExpr_within grants hvalue state
  | _, _, .hasKey hcollection hkey _ _, state | _, _, .hasItem hcollection hkey _ _, state => by
    refine Gives.bind (lowerExpr_within grants hcollection state) fun collection state h => ?_
    exact Gives.bind (lowerExpr_within grants hkey state) fun key state hkey => ⟨h, hkey⟩
  | _, _, .suggest hsteps, state => lowerSteps_within grants hsteps state

theorem lowerArgs_within (grants : ctx.Grants fabrics permit) :
    ∀ {params : List Ty} {args : List Expr}, ctx.ArgsTyped params args → ∀ state,
      Gives (lowerExprs fabrics args) state fun codes _ => Code.AllWithin permit codes
  | _, _, .nil, _ => trivial
  | _, _, .cons harg _ _ hargs, state => by
    refine Gives.bind (lowerExpr_within grants harg state) fun code state hcode => ?_
    exact Gives.bind (lowerArgs_within grants hargs state) fun codes state hcodes =>
      ⟨hcode, hcodes⟩

theorem lowerValues_within (grants : ctx.Grants fabrics permit) :
    ∀ {types : List Ty} {elements : List Expr}, ctx.ValuesTyped types elements → ∀ state,
      Gives (lowerExprs fabrics elements) state fun codes _ => Code.AllWithin permit codes
  | _, _, .nil, _ => trivial
  | _, _, .cons helement _ helements, state => by
    refine Gives.bind (lowerExpr_within grants helement state) fun code state hcode => ?_
    exact Gives.bind (lowerValues_within grants helements state) fun codes state hcodes =>
      ⟨hcode, hcodes⟩

theorem lowerStep_within (grants : ctx.Grants fabrics permit) :
    ∀ {step : SuggestStep}, ctx.StepTyped step → ∀ state,
      Gives (lowerStep fabrics step) state fun code _ => ∀ step ∈ code, step.Within permit
  | _, .extend htarget hcls, state | _, .retract htarget hcls, state =>
    Gives.bind (lowerExpr_within grants htarget state) fun _ _ htarget => by
      rintro _ ⟨⟩
      exact ⟨grants.wear hcls, htarget⟩
  | _, .call htarget _ hargs, state => by
    refine Gives.bind (lowerExpr_within grants htarget state) fun target state htarget => ?_
    refine Gives.bind (lowerArgs_within grants hargs state) fun args state hargs => ?_
    rintro _ ⟨⟩
    exact ⟨htarget, hargs⟩

theorem lowerSteps_within (grants : ctx.Grants fabrics permit) :
    ∀ {steps : List SuggestStep}, ctx.StepsTyped steps → ∀ state,
      Gives (lowerSteps fabrics steps) state fun codes _ => StepCode.AllWithin permit codes
  | _, .nil, _ => trivial
  | _, .cons hstep hrest, state => by
    refine Gives.bind (lowerStep_within grants hstep state) fun code state hcode => ?_
    refine Gives.bind (lowerSteps_within grants hrest state) fun codes state hcodes => ?_
    rw [gives_pure, StepCode.allWithin_iff]
    intro step hmem
    rcases List.mem_append.mp hmem with hmem | hmem
    · exact hcode step (by simpa using hmem)
    · exact StepCode.allWithin_iff.mp hcodes step hmem

end

theorem requireWrite_ok {place : Place} {primitive : Bool} {action : String}
    (h : ctx.requireWrite place primitive action = .ok ()) :
    ctx.effects.mutatingThis ∨ ctx.effects.mutating := by
  unfold requireWrite at h
  split at h
  case h_1 => cases h
  case h_2 =>
    unfold require at h
    split at h
    case isFalse => cases h
    case isTrue hallows =>
      unfold writeRequirement at hallows
      split at hallows
      · exact .inl hallows
      · exact .inr hallows

theorem checkWrite_ok {target : Expr} {verb : String} (h : ctx.checkWrite target verb = .ok ()) :
    (∃ path, target.form = .name path) ∨ ctx.effects.mutatingThis ∨ ctx.effects.mutating := by
  obtain ⟨note, form⟩ := target
  cases form with
  | name path => exact .inl ⟨path, rfl⟩
  | field object name => exact .inr (requireWrite_ok h)
  | index object index => exact .inr (requireWrite_ok h)
  | _ => cases h

theorem lowerAssign_within (grants : ctx.Grants fabrics permit) {target value : Expr} {ty : Ty}
    (htarget : ctx.ExprTyped target ty)
    (hwrite : (∃ path, target.form = .name path) ∨ permit.write)
    (hvalue : ∀ state, Gives (lowerExpr fabrics value) state fun code _ => code.Within permit)
    (state : LoweringState) :
    Gives (lowerAssign fabrics target value) state fun instr _ => instr.Within permit := by
  cases htarget with
  | var =>
    refine Gives.seq fun slot state => ?_
    cases slot with
    | none => trivial
    | some slot => exact hvalue state
  | fabric =>
    refine Gives.seq fun slot state => ?_
    cases slot with
    | none => trivial
    | some slot => exact hvalue state
  | field hobject hinfo =>
    replace hwrite := hwrite.resolve_left (by rintro ⟨_, ⟨⟩⟩)
    refine Gives.bind (lowerExpr_within grants hobject state) fun object state hobject => ?_
    exact Gives.bind (hvalue state) fun value state hvalue =>
      ⟨hwrite, grants.store hinfo, hobject, hvalue⟩
  | indexArray hobject hindex | indexText hobject hindex | indexMap hobject hindex
  | indexTuple hobject hindex =>
    replace hwrite := hwrite.resolve_left (by rintro ⟨_, ⟨⟩⟩)
    refine Gives.seq fun kind state => ?_
    refine Gives.bind (lowerExpr_within grants hobject state) fun object state hobject => ?_
    refine Gives.bind (lowerExpr_within grants hindex state) fun index state hindex => ?_
    exact Gives.bind (hvalue state) fun value state hvalue => ⟨hwrite, hobject, hindex, hvalue⟩
  | _ => trivial

theorem lowerUpdate_within (grants : ctx.Grants fabrics permit) {op : CompoundOp}
    {target value : Expr} {ty updateTy : Ty} (htarget : ctx.ExprTyped target ty)
    (hwrite : (∃ path, target.form = .name path) ∨ permit.write)
    (hvalue : ∀ state, Gives (lowerExpr fabrics value) state fun code _ => code.Within permit)
    (state : LoweringState) :
    Gives (lowerUpdate fabrics op updateTy target value) state
      fun instr _ => instr.Within permit := by
  cases htarget with
  | var =>
    refine Gives.seq fun slot state => ?_
    cases slot with
    | none => trivial
    | some slot => exact Gives.bind (hvalue state) fun code _ hcode => combine_within trivial hcode
  | fabric =>
    refine Gives.seq fun slot state => ?_
    cases slot with
    | none => trivial
    | some slot => exact Gives.bind (hvalue state) fun code _ hcode => combine_within trivial hcode
  | field hobject hinfo =>
    replace hwrite := hwrite.resolve_left (by rintro ⟨_, ⟨⟩⟩)
    refine Gives.seq fun slot state => ?_
    refine Gives.bind (lowerExpr_within grants hobject state) fun object state hobject => ?_
    exact Gives.bind (hvalue state) fun value state hvalue =>
      ⟨hwrite, grants.store hinfo, hobject, combine_within trivial hvalue⟩
  | indexArray hobject hindex | indexText hobject hindex | indexMap hobject hindex
  | indexTuple hobject hindex =>
    replace hwrite := hwrite.resolve_left (by rintro ⟨_, ⟨⟩⟩)
    refine Gives.seq fun kind state => ?_
    split
    case isTrue => trivial
    case isFalse =>
      refine Gives.seq fun container state => Gives.seq fun key state => Gives.seq fun _ state => ?_
      refine Gives.bind (lowerExpr_within grants hobject state) fun object state hobject => ?_
      refine Gives.bind (lowerExpr_within grants hindex state) fun index state hindex => ?_
      exact Gives.bind (hvalue state) fun value state hvalue =>
        ⟨hwrite, hobject, hindex, combine_within ⟨trivial, trivial⟩ hvalue⟩
  | _ => trivial

theorem lowerFits_within (grants : ctx.Grants fabrics permit) {expected : Ty} {expr : Expr}
    (h : ctx.Fits expected expr) (state : LoweringState) :
    Gives (lowerExpr fabrics expr) state fun code _ => code.Within permit := by
  obtain ⟨ty, htyped, -, -⟩ := h
  exact lowerExpr_within grants htyped state

theorem lowerOperand_within (grants : ctx.Grants fabrics permit) {op : CompoundOp} {ty : Ty}
    {value : Expr} {inPlace : Bool} (h : ctx.OperandTyped op ty value inPlace)
    (state : LoweringState) :
    Gives (lowerExpr fabrics value) state fun code _ => code.Within permit := by
  cases h with
  | text htyped => exact lowerExpr_within grants htyped state
  | addToArray hfits | addToSet hfits | removeFromMap hfits | removeFromSet hfits | number hfits
  | suggestion hfits => exact lowerFits_within grants hfits state

theorem typeOf_gives {expr : Expr} {ty : Ty} (h : expr.ty? = some ty) (state : LoweringState)
    {post : Ty → LoweringState → Prop} : Gives (typeOf expr) state post ↔ post ty state := by
  unfold typeOf
  rw [h]
  exact gives_pure

theorem lowerChange_within (grants : ctx.Grants fabrics permit) {op : CompoundOp}
    {target value : Expr} {ty : Ty} (htarget : ctx.ExprTyped target ty)
    (hvalue : ctx.OperandTyped op ty value true) (hwrite : permit.write)
    (state : LoweringState) :
    Gives (lowerCompound fabrics op target value) state fun instr _ => instr.Within permit := by
  refine gives_bind.mpr ((typeOf_gives htarget.ty? state).mpr ?_)
  have hparts : ∀ (build : Code → Code → Instr), (∀ code operand, code.Within permit →
      operand.Within permit → (build code operand).Within permit) →
      Gives (do
        let target ← lowerExpr fabrics target
        return build target (← lowerExpr fabrics value)) state
        fun instr _ => instr.Within permit := by
    intro build hbuild
    refine Gives.bind (lowerExpr_within grants htarget state) fun code state hcode => ?_
    exact Gives.bind (lowerOperand_within grants hvalue state) fun operand _ hoperand =>
      hbuild code operand hcode hoperand
  cases hvalue with
  | addToArray | addToSet => exact hparts .append fun _ _ hcode hoperand => ⟨hwrite, hcode, hoperand⟩
  | removeFromMap | removeFromSet =>
    exact hparts .remove fun _ _ hcode hoperand => ⟨hwrite, hcode, hoperand⟩

theorem lowerCompound_within (grants : ctx.Grants fabrics permit) {op : CompoundOp}
    {target value : Expr} {ty : Ty} (htarget : ctx.ExprTyped target ty)
    (hvalue : ctx.OperandTyped op ty value false)
    (hwrite : (∃ path, target.form = .name path) ∨ permit.write) (state : LoweringState) :
    Gives (lowerCompound fabrics op target value) state fun instr _ => instr.Within permit := by
  refine gives_bind.mpr ((typeOf_gives htarget.ty? state).mpr ?_)
  have hupdate : Gives (lowerUpdate fabrics op ty target value) state
      fun instr _ => instr.Within permit :=
    lowerUpdate_within grants htarget hwrite (lowerOperand_within grants hvalue) state
  cases hvalue with
  | number => cases op <;> exact hupdate
  | text | suggestion => exact hupdate

theorem lowerInit_within (grants : ctx.Grants fabrics permit) {note : Option Ty}
    {init : Option Expr} (hinit : ∀ expr ∈ init, ∃ ty, ctx.ExprTyped expr ty)
    (state : LoweringState) :
    Gives (lowerInit fabrics note init) state fun code _ => code.Within permit := by
  cases init with
  | some init =>
    obtain ⟨ty, hty⟩ := hinit init rfl
    exact lowerExpr_within grants hty state
  | none => cases note <;> trivial

theorem flush_within (state : LoweringState) :
    Gives flush state fun instrs _ => Instr.AllWithin permit instrs := by
  refine Gives.seq fun slots state => ?_
  cases slots with
  | none => trivial
  | some slots => exact ⟨trivial, trivial⟩

mutual

theorem lowerStmt_within : ∀ {ctx after : CheckContext} {stmt : Stmt}, StmtTyped ctx stmt after →
    ctx.Grants fabrics permit → ∀ state,
      Gives (lowerStmt fabrics stmt) state fun instrs _ => Instr.AllWithin permit instrs
  | _, _, _, .letInferred hinit _ _ _, grants, state =>
    Gives.bind (lowerInit_within grants (by rintro _ ⟨⟩; exact ⟨_, hinit⟩) state)
      fun _ _ hcode => ⟨hcode, trivial⟩
  | _, _, _, .letDeclared _ hinit _ _, grants, state =>
    Gives.bind (lowerFits_within grants hinit state) fun _ _ hcode => ⟨hcode, trivial⟩
  | _, _, _, .letDefault _ _ _, _, _ => ⟨trivial, trivial⟩
  | _, _, _, .assign htarget _ hvalue hwrite, grants, state =>
    Gives.bind (lowerAssign_within grants htarget ((checkWrite_ok hwrite).imp id grants.write)
      (lowerFits_within grants hvalue) state) fun _ _ hinstr => ⟨hinstr, trivial⟩
  | _, _, _, .change htarget hvalue hwrite, grants, state =>
    Gives.bind (lowerChange_within grants htarget hvalue (grants.write (requireWrite_ok hwrite))
      state) fun _ _ hinstr => ⟨hinstr, trivial⟩
  | _, _, _, .update htarget _ hvalue hwrite, grants, state =>
    Gives.bind (lowerCompound_within grants htarget hvalue
      ((checkWrite_ok hwrite).imp id grants.write) state) fun _ _ hinstr => ⟨hinstr, trivial⟩
  | _, _, _, .expr hexpr, grants, state =>
    Gives.bind (lowerExpr_within grants hexpr state) fun _ _ hcode => ⟨hcode, trivial⟩
  | _, _, _, .branch hcond hyes hno, grants, state => by
    refine Gives.bind (lowerFits_within grants hcond state) fun cond state hcond => ?_
    refine Gives.bind (inBlock_gives (lowerStmts_within hyes (grants.scoped _ _)) state)
      fun yes state hyes => ?_
    exact Gives.bind (inBlock_gives (lowerStmts_within hno (grants.scoped _ _)) state)
      fun no _ hno => ⟨⟨hcond, hyes, hno⟩, trivial⟩
  | _, _, _, .while hcond hbody, grants, state => by
    refine Gives.bind (lowerFits_within grants hcond state) fun cond state hcond => ?_
    exact Gives.bind (inBlock_gives (lowerStmts_within hbody (grants.scoped _ _)) state)
      fun body _ hbody => ⟨⟨hcond, hbody⟩, trivial⟩
  | _, _, .for (some plan) key value _ _ _ _ _, .for hiter _ _ _ hbody, grants, state => by
    refine Gives.bind (lowerExpr_within grants hiter state) fun source state hsource => ?_
    refine inBlock_gives (fun state => ?_) state
    refine Gives.seq fun first state => Gives.seq fun _ state => ?_
    have hloop : ∀ second state, Gives (do
        let body ← inBlock (lowerStmts fabrics _)
        return [Instr.forEach source plan.kind first second body]) state
        fun instrs _ => Instr.AllWithin permit instrs := fun second state =>
      Gives.bind (inBlock_gives (lowerStmts_within hbody (grants.scoped _ _)) state)
        fun body _ hbody => ⟨⟨hsource, hbody⟩, trivial⟩
    cases value with
    | none => exact hloop none state
    | some name =>
      cases plan.second with
      | none => exact hloop none state
      | some ty => exact Gives.seq fun slot state => Gives.seq fun _ state => hloop (some slot) state
  | _, _, _, .returnNothing _, _, _ => ⟨trivial, trivial⟩
  | _, _, _, .returnValue hvalue, grants, state =>
    Gives.bind (lowerFits_within grants hvalue state) fun _ _ hcode => ⟨hcode, trivial⟩
  | _, _, _, .break _, _, _ | _, _, _, .continue _, _, _ => ⟨trivial, trivial⟩
  | _, _, _, .extend htarget hcls hmutates, grants, state
  | _, _, _, .retract htarget hcls hmutates, grants, state =>
    Gives.bind (lowerExpr_within grants htarget state) fun _ _ hcode =>
      ⟨⟨grants.write hmutates, grants.wear hcls, hcode⟩, trivial⟩
  | _, _, _, .enforce hsuggestion hmutates, grants, state =>
    Gives.bind (lowerFits_within grants hsuggestion state) fun _ _ hcode =>
      ⟨⟨grants.write (.inr hmutates), hcode⟩, trivial⟩

theorem lowerStmts_within : ∀ {ctx : CheckContext} {body : List Stmt}, BlockTyped ctx body →
    ctx.Grants fabrics permit → ∀ state,
      Gives (lowerStmts fabrics body) state fun instrs _ => Instr.AllWithin permit instrs
  | _, _, .nil, _, _ => trivial
  | _, _, .cons hstmt hrest, grants, state => by
    obtain ⟨scopes, rfl⟩ := hstmt.scoped
    refine Gives.bind (lowerStmt_within hstmt grants state) fun instrs state hinstrs => ?_
    have hflush : Gives flush state fun released _ => Instr.AllWithin permit released :=
      flush_within state
    refine Gives.bind hflush fun released state hreleased => ?_
    refine Gives.bind (lowerStmts_within hrest (grants.scoped _ _) state) fun rest _ hrest => ?_
    exact Instr.allWithin_append.mpr ⟨Instr.allWithin_append.mpr ⟨hinstrs, hreleased⟩, hrest⟩

end

theorem finish_within {name : String} {arity : Nat} {ret : Ty} {run : Lower (List Instr)}
    {routine : Routine} (h : finish name arity ret run = .ok routine)
    (hrun : Gives run {} fun body _ => Instr.AllWithin permit body) : routine.Within permit := by
  obtain ⟨-, hroutine⟩ := finish_eq_ok h
  rw [hroutine]
  exact hrun

end Lower

open Lower

variable {ctx : CheckContext} {fabrics : Fabrics} {permit : Permit} {className : String}
variable {routine : Routine}

theorem lowerMethod_within {sig : MethodSig} {decl : MethodDecl}
    (h : lowerMethod fabrics className sig decl = .ok routine)
    (grants : ctx.Grants fabrics permit) (hbody : CheckContext.BlockTyped ctx decl.body) :
    routine.Within permit := by
  refine finish_within h (inBlock_gives (fun state => ?_) _)
  exact Gives.seq fun _ state => inBlock_gives (lowerStmts_within hbody grants) state

theorem lowerInitializer_within {ty : Ty} {decl : FieldDecl}
    (h : lowerInitializer fabrics className decl ty = .ok routine)
    (grants : ctx.Grants fabrics permit) (hinit : ∀ expr ∈ decl.init, ctx.Fits ty expr) :
    routine.Within permit := by
  refine finish_within h (inBlock_gives (fun state => ?_) _)
  refine Gives.bind (lowerInit_within grants (fun expr hmem => ?_) state) fun code _ hcode =>
    ⟨hcode, trivial⟩
  obtain ⟨exprTy, hty, -, -⟩ := hinit expr hmem
  exact ⟨exprTy, hty⟩

end Attire
