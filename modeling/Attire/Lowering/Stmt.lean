import Attire.Lowering.Expr

namespace Attire.Lower

/-! Compilation of statements, methods and initializers. -/

/-- The new value of a location. -/
def combine (op : CompoundOp) (ty : Ty) (current operand : Code) : Code :=
  match op, ty with
  | .add, .text => .concat current operand
  | .add, .suggestion => .merge current operand
  | .add, _ => .arith .add current operand
  | .sub, _ => .arith .sub current operand
  | .mul, _ => .arith .mul current operand
  | .div, _ => .arith .div current operand

def missingInstr (what : String) : Lower Instr := return .eval (← missing what)

def lowerAssign (fabrics : Fabrics) (target value : Expr) : Lower Instr := do
  match target.form with
  | .name path =>
    match ← localOfPath? path with
    | some slot => return .store slot (← lowerExpr fabrics value)
    | none => missingInstr "local"
  | .field object _ =>
    match target.meaning? with
    | some (.field info) =>
      let object ← lowerExpr fabrics object
      return .setField object info.key (← lowerExpr fabrics value)
    | _ => missingInstr "field"
  | .index object index =>
    let kind ← indexKind object
    let object ← lowerExpr fabrics object
    let index ← lowerExpr fabrics index
    return .setIndex object kind index (← lowerExpr fabrics value)
  | _ => missingInstr "assignable location"

/-- Updates a location.  Its parts are evaluated once, into scratch slots, and read again for the
current value. -/
def lowerUpdate (fabrics : Fabrics) (op : CompoundOp) (ty : Ty) (target value : Expr) :
    Lower Instr := do
  match target.form with
  | .name path =>
    match ← localOfPath? path with
    | some slot =>
      let operand ← lowerExpr fabrics value
      return .store slot (combine op ty (.local slot) operand)
    | none => missingInstr "local"
  | .field object _ =>
    match target.meaning? with
    | some (.field info) =>
      let slot ← scratch
      let object ← lowerExpr fabrics object
      let current := Code.getField (.local slot) info.key info.ty
      let operand ← lowerExpr fabrics value
      return .setField (.tee slot object) info.key (combine op ty current operand)
    | _ => missingInstr "field"
  | .index object index =>
    let kind ← indexKind object
    if kind = .text then
      missingInstr "assignable location"
    else
      let container ← onSlots Slots.alloc
      let key ← onSlots Slots.alloc
      onSlots fun slots => ((), (slots.deferRelease container).deferRelease key)
      let object ← lowerExpr fabrics object
      let index ← lowerExpr fabrics index
      let current := Code.index (.local container) kind (.local key) ty
      let operand ← lowerExpr fabrics value
      return .setIndex (.tee container object) kind (.tee key index)
        (combine op ty current operand)
  | _ => missingInstr "assignable location"

def lowerCompound (fabrics : Fabrics) (op : CompoundOp) (target value : Expr) : Lower Instr := do
  let ty ← typeOf target
  match op, ty with
  | .add, .array _ | .add, .set _ =>
    let target ← lowerExpr fabrics target
    return .append target (← lowerExpr fabrics value)
  | .sub, .map _ _ | .sub, .set _ =>
    let target ← lowerExpr fabrics target
    return .remove target (← lowerExpr fabrics value)
  | _, _ => lowerUpdate fabrics op ty target value

def lowerInit (fabrics : Fabrics) (note : Option Ty) : Option Expr → Lower Code
  | some init => lowerExpr fabrics init
  | none =>
    match note with
    | some ty => return .default ty true
    | none => missing "local type"

/-- Frees the scratch slots of a statement. -/
def flush : Lower (List Instr) := do
  match ← onSlots Slots.flush with
  | some slots => return [.release slots]
  | none => return []

mutual

def lowerStmt (fabrics : Fabrics) : Stmt → Lower (List Instr)
  | .let note name _ init _ => do
    let value ← lowerInit fabrics note init
    let slot ← mint
    bind name slot
    return [.store slot value]
  | .assign target value _ => return [← lowerAssign fabrics target value]
  | .compound op target value _ => return [← lowerCompound fabrics op target value]
  | .expr expr _ => return [.eval (← lowerExpr fabrics expr)]
  | .if cond yes no _ => do
    let cond ← lowerExpr fabrics cond
    let yes ← inBlock (lowerStmts fabrics yes)
    let no ← inBlock (lowerStmts fabrics no)
    return [.branch cond yes no]
  | .while cond body _ => do
    let cond ← lowerExpr fabrics cond
    let body ← inBlock (lowerStmts fabrics body)
    return [.while cond body]
  | .for none _ _ _ _ _ _ _ => do
    let _ ← missing "loop"
    return []
  | .for (some plan) key value _ _ iter body _ => do
    let source ← lowerExpr fabrics iter
    inBlock do
      let first ← mint
      bind key first
      let second ←
        match value, plan.second with
        | some name, some _ => do
          let slot ← mint
          bind name slot
          pure (some slot)
        | _, _ => pure none
      let body ← inBlock (lowerStmts fabrics body)
      return [.forEach source plan.kind first second body]
  | .return value _ => do
    match value with
    | some value => return [.return (← lowerExpr fabrics value)]
    | none => return [.return .null]
  | .break _ => return [.break]
  | .continue _ => return [.continue]
  | .extend (some cls) target _ _ => return [.extend (← lowerExpr fabrics target) cls]
  | .retract (some cls) target _ _ => return [.retract (← lowerExpr fabrics target) cls]
  | .extend none _ _ _ | .retract none _ _ _ => do
    let _ ← missing "class"
    return []
  | .enforce suggestion _ => return [.enforce (← lowerExpr fabrics suggestion)]

def lowerStmts (fabrics : Fabrics) : List Stmt → Lower (List Instr)
  | [] => return []
  | stmt :: rest => do
    let instrs ← lowerStmt fabrics stmt
    let released ← flush
    return instrs ++ released ++ (← lowerStmts fabrics rest)

end

/-- The routine that a compilation yields, unless some information was missing. -/
def finish (name : String) (arity : Nat) (ret : Ty) (run : Lower (List Instr)) :
    Except LoweringError Routine :=
  let (body, state) := run.run {}
  match state.missing with
  | some what => .error ⟨name, what⟩
  | none => .ok { name, arity, slots := state.slots.count, ret, body }

def bindParams : List Param → Lower Unit
  | [] => return
  | param :: rest => do
    let slot ← mint
    bind param.name slot
    bindParams rest

end Attire.Lower

namespace Attire

def lowerMethod (fabrics : Fabrics) (className : String) (sig : MethodSig) (decl : MethodDecl) :
    Except LoweringError Routine :=
  Lower.finish (className ++ "." ++ decl.name) sig.params.length sig.ret <| Lower.inBlock do
    Lower.bindParams decl.params
    Lower.inBlock (Lower.lowerStmts fabrics decl.body)

def lowerInitializer (fabrics : Fabrics) (className : String) (decl : FieldDecl) (ty : Ty) :
    Except LoweringError Routine :=
  Lower.finish (className ++ "." ++ decl.name) 0 ty <| Lower.inBlock do
    return [.return (← Lower.lowerInit fabrics (some ty) decl.init)]

end Attire
