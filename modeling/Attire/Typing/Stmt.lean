import Attire.Typing.Expr

namespace Attire

/-! Checking of statements, method bodies and field initializers. -/

/-- The place to which a fault in a statement is charged. -/
def chargeTo {α : Type} (span : Span) (result : Except CheckCause α) : Except CheckError α :=
  result.mapError fun cause => ⟨cause, span⟩

namespace CheckContext

/-- How a loop walks a collection, with one variable or with two. -/
def loopPlan (ctx : CheckContext) (ty : Ty) (two : Bool) : Except CheckCause LoopPlan :=
  match ty, two with
  | .array element, false => .ok ⟨.array, element, none⟩
  | .array element, true => .ok ⟨.array, .num, some element⟩
  | .text, false => .ok ⟨.text, .text, none⟩
  | .text, true => .ok ⟨.text, .num, some .text⟩
  | .map key _, false => .ok ⟨.map, key, none⟩
  | .map key value, true => .ok ⟨.map, key, some value⟩
  | .set element, false => .ok ⟨.set, element, none⟩
  | .set _, true => .error .setHasNoKeys
  | other, _ => .error (.notIterable (ctx.describe other))

def checkDeclared (ctx : CheckContext) (written : Option TypeExpr) (actual : Option Ty) :
    Except CheckCause Unit :=
  match written, actual with
  | some written, some actual => do
    let declared ← ctx.resolveType written
    if declared.same actual then
      return
    throw (.loopBinding (ctx.describe declared) (ctx.describe actual))
  | _, _ => .ok ()

/-- The variables of a loop, which differ. -/
def loopVariables (plan : LoopPlan) (key : String) (value : Option String) :
    Except CheckCause (Table String Ty) :=
  let first := (∅ : Table String Ty).insert key plan.first
  match value, plan.second with
  | some name, some ty =>
    if name = key then .error (.duplicateLocal name) else .ok (first.insert name ty)
  | _, _ => .ok first

/-- The target of an assignment.  Elements of texts and tuples cannot be assigned to. -/
def checkTarget (ctx : CheckContext) (target : Expr) : Except CheckCause Checked :=
  match target.form with
  | .name _ | .field _ _ => ctx.checkExpr target
  | .index _ _ => do
    let (ty, target) ← ctx.checkExpr target
    match target.form with
    | .index object _ =>
      match object.ty? with
      | some (.array _) | some (.map _ _) => return (ty, target)
      | _ => throw .notAssignable
    | _ => throw .notAssignable
  | _ => .error .notAssignable

def requireWrite (ctx : CheckContext) (place : Place) (primitive : Bool) (action : String) :
    Except CheckCause Unit :=
  match place.root with
  | .fabric name => .error (.immutableFabric name)
  | _ => ctx.require (writeRequirement place primitive) action

/-- Whether the body may write to a checked target. -/
def checkWrite (ctx : CheckContext) (target : Expr) (verb : String) : Except CheckCause Unit :=
  let primitive := target.ty?.any Ty.isPrimitive
  match target.form with
  | .name path =>
    if (ctx.localOfPath? path).isSome then .ok ()
    else
      match (ctx.placeOf target).root with
      | .fabric name => .error (.immutableFabric name)
      | _ => .error .notAssignable
  | .field _ name => ctx.requireWrite (ctx.placeOf target) primitive s!"{verb} field '{name}'"
  | .index object _ => ctx.requireWrite (ctx.placeOf object) primitive s!"{verb} an element"
  | _ => .error .notAssignable

/-- The target of a compound assignment.  A collection that a call yields can be changed too. -/
def checkCompoundTarget (ctx : CheckContext) (target : Expr) : Except CheckCause Checked :=
  match target.form with
  | .call .. => ctx.checkExpr target
  | _ => ctx.checkTarget target

/-- The right side of a compound assignment, and whether the collection on the left side is changed
in place. -/
def checkOperand (ctx : CheckContext) (op : CompoundOp) (targetTy : Ty) (value : Expr) :
    Except CheckCause (Expr × Bool) :=
  let inPlace (ty : Ty) : Except CheckCause (Expr × Bool) := do
    return (← ctx.need ty (ctx.checkExpr value), true)
  let update (ty : Ty) : Except CheckCause (Expr × Bool) := do
    return (← ctx.need ty (ctx.checkExpr value), false)
  match op, targetTy with
  | .add, .array element | .add, .set element => inPlace element
  | .sub, .map key _ => inPlace key
  | .sub, .set element => inPlace element
  | _, .num => update .num
  | .add, .text => do
    let (ty, value) ← needValue (ctx.checkExpr value)
    if ctx.castable ty .text then
      return (value, false)
    throw (ctx.mismatch .text ty)
  | .add, .suggestion => update .suggestion
  | op, other => .error (.invalidCompound op.symbol (ctx.describe other))

def checkCompound (ctx : CheckContext) (op : CompoundOp) (target value : Expr) :
    Except CheckCause (Expr × Expr) := do
  let (targetTy, target) ← ctx.checkCompoundTarget target
  let (value, inPlace) ← ctx.checkOperand op targetTy value
  if inPlace then
    let what := if op = .add then "Adding to" else "Removing from"
    ctx.requireWrite (ctx.placeOf target) false s!"{what} a collection"
  else
    ctx.checkWrite target "Updating"
  return (target, value)

/-- The type of a new variable and its checked initial value. -/
def checkLet (ctx : CheckContext) (name : String) (ty : Option TypeExpr) (init : Option Expr) :
    Except CheckCause (Ty × Option Expr) := do
  let declared ← ty.mapM ctx.resolveType
  let (ty, init) ←
    match declared, init with
    | some declared, some init => do
      let init ← ctx.need declared (ctx.checkExpr init)
      pure (declared, some init)
    | some declared, none => pure (declared, none)
    | none, some init => do
      let (ty, init) ← needValue (ctx.checkExpr init)
      if ty.same .null then
        throw (.cannotInferType name)
      pure (ty, some init)
    | none, none => throw (.cannotInferType name)
  if ty.isValue then return (ty, init)
  throw .voidValue

def checkReturn (ctx : CheckContext) (value : Option Expr) : Except CheckCause (Option Expr) :=
  match value, ctx.ret with
  | none, .void => .ok none
  | none, expected => .error (.missingReturnValue (ctx.describe expected))
  | some value, .void => do
    let (actual, _) ← ctx.checkExpr value
    throw (ctx.mismatch .void actual)
  | some value, expected => do
    return some (← ctx.need expected (ctx.checkExpr value))

def isThis : Expr → Bool
  | .mk _ .this => true
  | _ => false

/-- The parts of a statement that puts a class on an object or takes one off. -/
def checkReshape (ctx : CheckContext) (verb lower : String) (target : Expr) (path : Path) :
    Except CheckCause (Expr × ClassId) := do
  let (ty, checkedTarget) ← needValue (ctx.checkExpr target)
  let _ ← ctx.objectClass ty lower
  let cls ← ctx.resolveClass path
  if isThis target then
    ctx.require .mutatingThis s!"{verb} this"
  else
    ctx.require .mutating s!"{verb} another object"
  return (checkedTarget, cls)

mutual

/-- Checks a statement.  The answer is the statement with its notes, and the context of the
statements after it. -/
def checkStmt (ctx : CheckContext) : Stmt → Except CheckError (Stmt × CheckContext)
  | .let _ name ty init span => chargeTo span do
    let (varTy, init) ← ctx.checkLet name ty init
    return (.let (some varTy) name ty init span, ← ctx.declare name varTy)
  | .assign target value span => chargeTo span do
    let (targetTy, target) ← ctx.checkTarget target
    let value ← ctx.need targetTy (ctx.checkExpr value)
    ctx.checkWrite target "Assigning"
    return (.assign target value span, ctx)
  | .compound op target value span => chargeTo span do
    let (target, value) ← ctx.checkCompound op target value
    return (.compound op target value span, ctx)
  | .expr expr span => chargeTo span do
    let (_, expr) ← ctx.checkExpr expr
    return (.expr expr span, ctx)
  | .if cond yes no span => do
    let cond ← chargeTo span (ctx.need .bool (ctx.checkExpr cond))
    let yes ← checkBlock (ctx.enter ∅) yes
    let no ← checkBlock (ctx.enter ∅) no
    return (.if cond yes no span, ctx)
  | .while cond body span => do
    let cond ← chargeTo span (ctx.need .bool (ctx.checkExpr cond))
    let body ← checkBlock { ctx.enter ∅ with inLoop := true } body
    return (.while cond body span, ctx)
  | .for _ key value keyTy valueTy iter body span => do
    let (iter, plan, locals) ← chargeTo span do
      let (ty, iter) ← needValue (ctx.checkExpr iter)
      let plan ← ctx.loopPlan ty value.isSome
      ctx.checkDeclared keyTy (some plan.first)
      ctx.checkDeclared valueTy plan.second
      return (iter, plan, ← loopVariables plan key value)
    let body ← checkBlock { ctx.enter locals with inLoop := true } body
    return (.for (some plan) key value keyTy valueTy iter body span, ctx)
  | .return value span => chargeTo span do
    return (.return (← ctx.checkReturn value) span, ctx)
  | .break span => chargeTo span do
    if ctx.inLoop then
      return (.break span, ctx)
    throw (.outsideLoop "break")
  | .continue span => chargeTo span do
    if ctx.inLoop then
      return (.continue span, ctx)
    throw (.outsideLoop "continue")
  | .extend _ target path span => chargeTo span do
    let (target, cls) ← ctx.checkReshape "Extending" "extending" target path
    return (.extend (some cls) target path span, ctx)
  | .retract _ target path span => chargeTo span do
    let (target, cls) ← ctx.checkReshape "Retracting" "retracting" target path
    return (.retract (some cls) target path span, ctx)
  | .enforce suggestion span => chargeTo span do
    let suggestion ← ctx.need .suggestion (ctx.checkExpr suggestion)
    ctx.require .mutating "Enforcing a suggestion"
    return (.enforce suggestion span, ctx)

def checkBlock (ctx : CheckContext) : List Stmt → Except CheckError (List Stmt)
  | [] => .ok []
  | stmt :: rest => do
    let (stmt, ctx) ← checkStmt ctx stmt
    return stmt :: (← checkBlock ctx rest)

end

/-- The parameters of a method, all of different names. -/
def parameters (decl : MethodDecl) (sig : MethodSig) : Except CheckCause (Table String Ty) :=
  (decl.params.zip sig.params).foldlM
    (fun table (param, ty) =>
      if table.contains param.name then .error (.duplicateLocal param.name)
      else .ok (table.insert param.name ty))
    ∅

/-- Checks a method of `cls` whose contract is `sig`. -/
def checkMethod (ctx : CheckContext) (cls : ClassId) (sig : MethodSig) (decl : MethodDecl) :
    Except CheckError MethodDecl := do
  let params ← chargeTo decl.span (parameters decl sig)
  let ctx := { ctx with
    cls
    effects := Effects.ofSig sig
    ret := sig.ret
    scopes := [params]
    inLoop := false }
  return { decl with body := ← ctx.checkBlock decl.body }

/-- Checks the initializer of a field of `cls`, which may change nothing. -/
def checkInitializer (ctx : CheckContext) (cls : ClassId) (ty : Ty) (decl : FieldDecl) :
    Except CheckError FieldDecl := do
  let ctx := { ctx with cls, effects := {}, ret := ty, scopes := [∅], inLoop := false }
  let init ← decl.init.mapM fun init => chargeTo decl.span (ctx.need ty (ctx.checkExpr init))
  return { decl with init }

end CheckContext

end Attire
