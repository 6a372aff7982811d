import Attire.Lowering.Basic

namespace Attire.Lower

/-! Compilation of expressions. -/

def binaryCode (op : BinaryOp) (concat : Bool) (left right : Code) : Code :=
  match op with
  | .add => if concat then .concat left right else .arith .add left right
  | .sub => .arith .sub left right
  | .mul => .arith .mul left right
  | .div => .arith .div left right
  | .rem => .arith .rem left right
  | .eq => .equal false left right
  | .ne => .equal true left right
  | .lt => .compare .lt left right
  | .le => .compare .le left right
  | .gt => .compare .gt left right
  | .ge => .compare .ge left right
  | .and => .logic true left right
  | .or => .logic false left right

/-- Whether an operator joins texts, which only the type of its result shows. -/
def addsText (op : BinaryOp) (result : Expr) : Lower Bool := do
  if op = .add then
    return (← typeOf result).same .text
  return false

mutual

def lowerExpr (fabrics : Fabrics) : Expr → Lower Code
  | .mk note form => lowerForm fabrics note form

def lowerForm (fabrics : Fabrics) (note : Option Note) : Form → Lower Code
  | .num value => return .num value
  | .text value => return .text value
  | .bool value => return .bool value
  | .null => return .null
  | .this => return .this
  | .caller => return .caller
  | .random => return .random
  | .name path => do
    match ← localOfPath? path with
    | some slot => return .local slot
    | none =>
      match note.bind Note.meaning with
      | some (.fabric id) =>
        match fabrics id with
        | some value => return .const value
        | none => missing "fabric value"
      | _ => missing "name"
  | .field object _ => do
    match note.bind Note.meaning with
    | some (.field info) => return .getField (← lowerExpr fabrics object) info.key info.ty
    | _ => missing "field"
  | .index object index => do
    match note.bind Note.meaning with
    | some (.tupleIndex position) => return .tupleGet (← lowerExpr fabrics object) position
    | _ =>
      let kind ← indexKind object
      let ty ← typeOf (.mk note .null)
      let object ← lowerExpr fabrics object
      return .index object kind (← lowerExpr fabrics index) ty
  | .call object _ args => do
    match note.bind Note.meaning with
    | some (.method sig) =>
      let object ← lowerExpr fabrics object
      return .call object sig.slot (← lowerExprs fabrics args) sig.ret
    | _ => missing "method"
  | .superCall _ args => do
    match note.bind Note.meaning with
    | some (.superMethod parent sig) =>
      return .superCall parent sig.slot (← lowerExprs fabrics args)
    | _ => missing "super method"
  | .new _ => do
    match ← typeOf (.mk note .null) with
    | .object cls => return .new cls
    | .array _ => return .newArray
    | .map _ _ => return .newMap
    | .set _ => return .newSet
    | _ => missing "instantiated type"
  | .binary op left right => do
    let concat ← addsText op (.mk note .null)
    let left ← lowerExpr fabrics left
    return binaryCode op concat left (← lowerExpr fabrics right)
  | .unary op operand => do
    let operand ← lowerExpr fabrics operand
    match op with
    | .neg => return .neg operand
    | .not => return .not operand
  | .array elements => return .array (← lowerExprs fabrics elements)
  | .tuple elements => return .tuple (← lowerExprs fabrics elements)
  | .cast value _ => do
    let target ← typeOf (.mk note .null)
    return .cast (← lowerExpr fabrics value) target
  | .clone value => return .clone (← lowerExpr fabrics value)
  | .len value => return .len (← lowerExpr fabrics value)
  | .has collection key => do
    let collection ← lowerExpr fabrics collection
    return .has collection (← lowerExpr fabrics key)
  | .is value _ => do
    match note.bind Note.meaning with
    | some (.cls cls) => return .is (← lowerExpr fabrics value) cls
    | _ => missing "class"
  | .suggest steps => return .suggest (← lowerSteps fabrics steps)

def lowerExprs (fabrics : Fabrics) : List Expr → Lower (List Code)
  | [] => return []
  | expr :: rest => do
    let code ← lowerExpr fabrics expr
    return code :: (← lowerExprs fabrics rest)

def lowerStep (fabrics : Fabrics) : SuggestStep → Lower (Option StepCode)
  | .extend (some cls) target _ => return some (.extend (← lowerExpr fabrics target) cls)
  | .retract (some cls) target _ => return some (.retract (← lowerExpr fabrics target) cls)
  | .call (some sig) target _ args => do
    let target ← lowerExpr fabrics target
    return some (.call target sig.slot (← lowerExprs fabrics args))
  | .extend none _ _ | .retract none _ _ | .call none _ _ _ => do
    let _ ← missing "suggestion step"
    return none

def lowerSteps (fabrics : Fabrics) : List SuggestStep → Lower (List StepCode)
  | [] => return []
  | step :: rest => do
    let step ← lowerStep fabrics step
    let rest ← lowerSteps fabrics rest
    return step.toList ++ rest

end

end Attire.Lower
