import Attire.Number.Scaled
import Attire.Typing.Context

namespace Attire

/-! Checking of expressions.  The result is the type and the expression with its notes. -/

abbrev Checked := Ty × Expr

def checked (ty : Ty) (form : Form) : Checked := (ty, .mk (some ⟨ty, none⟩) form)

def checkedAs (ty : Ty) (meaning : Meaning) (form : Form) : Checked :=
  (ty, .mk (some ⟨ty, some meaning⟩) form)

/-- A checked expression that has a value. -/
def needValue (result : Except CheckCause Checked) : Except CheckCause Checked := do
  let (ty, expr) ← result
  if ty.isValue then return (ty, expr)
  throw .voidValue

namespace CheckContext

/-- A checked expression whose value may stand where `expected` is wanted. -/
def need (ctx : CheckContext) (expected : Ty) (result : Except CheckCause Checked) :
    Except CheckCause Expr := do
  let (ty, expr) ← needValue result
  if ctx.accepts expected ty then return expr
  throw (ctx.mismatch expected ty)

def checkBinary (ctx : CheckContext) (op : BinaryOp) (l r : Ty) : Except CheckCause Ty :=
  let invalid : CheckCause := .invalidOperands op.symbol (ctx.describe l) (ctx.describe r)
  match op with
  | .add =>
    match l, r with
    | .num, .num => .ok .num
    | .text, other | other, .text =>
      if ctx.castable other .text then .ok .text else .error invalid
    | _, _ => .error invalid
  | .sub | .mul | .div | .rem =>
    match l, r with
    | .num, .num => .ok .num
    | _, _ => .error invalid
  | .eq | .ne =>
    if l.comparable r ctx.classes.hierarchy then .ok .bool else .error invalid
  | .lt | .le | .gt | .ge =>
    match l, r with
    | .num, .num | .text, .text => .ok .bool
    | _, _ => .error invalid
  | .and | .or =>
    match l, r with
    | .bool, .bool => .ok .bool
    | _, _ => .error invalid

/-- The type that the elements of an array literal share.  `null` joins any nullable type. -/
def commonType (ctx : CheckContext) (types : List Ty) : Except CheckCause Ty := do
  let some common := types.find? fun ty => !ty.same .null | throw .emptyArrayLiteral
  let fits (ty : Ty) : Bool := ty.same common || (ty.same .null && common.isNullable)
  match types.find? fun ty => !fits ty with
  | some other => throw (.mixedArrayLiteral (ctx.describe common) (ctx.describe other))
  | none => return common

def countArgs (sig : MethodSig) (args : List Expr) : Except CheckCause Unit :=
  if args.length = sig.params.length then .ok ()
  else .error (.argumentCount sig.name sig.params.length args.length)

/-- The position that a number literal names in a tuple. -/
def tuplePosition? (length : Nat) : Expr → Option Nat
  | .mk _ (.num value) => (position? value).filter (· < length)
  | _ => none

mutual

def checkExpr (ctx : CheckContext) : Expr → Except CheckCause Checked
  | .mk _ form => checkForm ctx form

def checkForm (ctx : CheckContext) : Form → Except CheckCause Checked
  | .num value => .ok (checked .num (.num value))
  | .text value => .ok (checked .text (.text value))
  | .bool value => .ok (checked .bool (.bool value))
  | .null => .ok (checked .null .null)
  | .this => .ok (checked (.object ctx.cls) .this)
  | .caller => .ok (checked ((ctx.rootClass.map Ty.object).getD .null) .caller)
  | .random => .ok (checked .num .random)
  | .name path =>
    match ctx.localOfPath? path with
    | some ty => .ok (checked ty (.name path))
    | none => do
      match ← resolve (ctx.names.resolve path) with
      | .fabric id => return checkedAs (.array .text) (.fabric id) (.name path)
      | .module _ | .cls _ => throw (.notAValue path.text)
  | .field object name => do
    let (objectTy, object) ← needValue (checkExpr ctx object)
    let cls ← ctx.objectClass objectTy name
    let info ← ctx.lookupField cls name
    return checkedAs info.ty (.field info) (.field object name)
  | .index object index => do
    let (objectTy, object) ← needValue (checkExpr ctx object)
    match objectTy with
    | .array element =>
      let index ← ctx.need .num (checkExpr ctx index)
      return checked element (.index object index)
    | .text =>
      let index ← ctx.need .num (checkExpr ctx index)
      return checked .text (.index object index)
    | .map key value =>
      let index ← ctx.need key (checkExpr ctx index)
      return checked value (.index object index)
    | .tuple elements =>
      match tuplePosition? elements.length index with
      | some position =>
        let (_, index) ← checkExpr ctx index
        return checkedAs (elements.getD position .void) (.tupleIndex position)
          (.index object index)
      | none => throw (.tupleIndex elements.length)
    | other => throw (.notIndexable (ctx.describe other))
  | .call object method args => do
    let (objectTy, object) ← needValue (checkExpr ctx object)
    let cls ← ctx.objectClass objectTy method
    let sig ← ctx.lookupMethod cls method
    ctx.require (callRequirement sig (ctx.receiverPlace object)) s!"Calling '{method}'"
    countArgs sig args
    let args ← checkArgs ctx sig.params args
    return checkedAs sig.ret (.method sig) (.call object method args)
  | .superCall method args => do
    let (parent, sig) ← ctx.lookupSuper method (ctx.classes.parents ctx.cls)
    ctx.require (callRequirement sig ⟨.this, false⟩) s!"Calling 'super.{method}'"
    countArgs sig args
    let args ← checkArgs ctx sig.params args
    return checkedAs sig.ret (.superMethod parent sig) (.superCall method args)
  | .new ty => do
    match ← ctx.resolveType ty with
    | .object cls => return checkedAs (.object cls) (.cls cls) (.new ty)
    | .array element => return checked (.array element) (.new ty)
    | .map key value => return checked (.map key value) (.new ty)
    | .set element => return checked (.set element) (.new ty)
    | other => throw (.notInstantiable (ctx.describe other))
  | .binary op left right => do
    let (l, left) ← needValue (checkExpr ctx left)
    let (r, right) ← needValue (checkExpr ctx right)
    return checked (← ctx.checkBinary op l r) (.binary op left right)
  | .unary op operand => do
    let ty : Ty :=
      match op with
      | .neg => .num
      | .not => .bool
    let operand ← ctx.need ty (checkExpr ctx operand)
    return checked ty (.unary op operand)
  | .array elements => do
    let (types, elements) ← checkValues ctx elements
    return checked (.array (← ctx.commonType types)) (.array elements)
  | .tuple elements => do
    let (types, elements) ← checkValues ctx elements
    return checked (.tuple types) (.tuple elements)
  | .cast value ty => do
    let (source, value) ← needValue (checkExpr ctx value)
    let target ← ctx.resolveType ty
    if ctx.castable source target then
      return checked target (.cast value ty)
    throw (.invalidCast (ctx.describe source) (ctx.describe target))
  | .clone value => do
    let (ty, value) ← needValue (checkExpr ctx value)
    if ctx.isClonable ty then
      return checked ty (.clone value)
    throw (.notClonable (ctx.describe ty))
  | .len value => do
    let (ty, value) ← needValue (checkExpr ctx value)
    match ty with
    | .text | .array _ | .map _ _ | .set _ => return checked .num (.len value)
    | other => throw (.invalidOperands "len" (ctx.describe other) "")
  | .has collection key => do
    let (ty, collection) ← needValue (checkExpr ctx collection)
    match ty with
    | .map keyTy _ | .set keyTy =>
      let key ← ctx.need keyTy (checkExpr ctx key)
      return checked .bool (.has collection key)
    | other => throw (.invalidOperands "has" (ctx.describe other) "")
  | .is value path => do
    let (ty, value) ← needValue (checkExpr ctx value)
    let _ ← ctx.objectClass ty "is"
    let cls ← ctx.resolveClass path
    return checkedAs .bool (.cls cls) (.is value path)
  | .suggest steps => do
    return checked .suggestion (.suggest (← checkSteps ctx steps))

def checkArgs (ctx : CheckContext) : List Ty → List Expr → Except CheckCause (List Expr)
  | param :: params, arg :: args => do
    let arg ← ctx.need param (checkExpr ctx arg)
    return arg :: (← checkArgs ctx params args)
  | _, _ => .ok []

def checkValues (ctx : CheckContext) : List Expr → Except CheckCause (List Ty × List Expr)
  | [] => .ok ([], [])
  | element :: rest => do
    let (ty, element) ← needValue (checkExpr ctx element)
    let (types, elements) ← checkValues ctx rest
    return (ty :: types, element :: elements)

def checkStep (ctx : CheckContext) : SuggestStep → Except CheckCause SuggestStep
  | .extend _ target path => do
    let (ty, target) ← needValue (checkExpr ctx target)
    let _ ← ctx.objectClass ty "extend"
    return .extend (some (← ctx.resolveClass path)) target path
  | .retract _ target path => do
    let (ty, target) ← needValue (checkExpr ctx target)
    let _ ← ctx.objectClass ty "extend"
    return .retract (some (← ctx.resolveClass path)) target path
  | .call _ target method args => do
    let (ty, target) ← needValue (checkExpr ctx target)
    let cls ← ctx.objectClass ty method
    let sig ← ctx.lookupMethod cls method
    countArgs sig args
    return .call (some sig) target method (← checkArgs ctx sig.params args)

def checkSteps (ctx : CheckContext) : List SuggestStep → Except CheckCause (List SuggestStep)
  | [] => .ok []
  | step :: rest => do
    let step ← checkStep ctx step
    return step :: (← checkSteps ctx rest)

end

end CheckContext

end Attire
