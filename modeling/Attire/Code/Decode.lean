import Attire.Code.Basic
import Attire.Number.Read
import Attire.Ty.Decode

namespace Attire

/-! Reading code from its listing, where types have their JSON form. -/

namespace Listing

def asClass (json : Json) : Option ClassId := json.natural?.map ClassId.mk

def asField : Json → Option FieldKey
  | .list [owner, index] => do return ⟨← asClass owner, ← index.natural?⟩
  | _ => none

def asSlot : Json → Option MethodSlot
  | .list [origin, name] => do return ⟨← asClass origin, ← name.text?⟩
  | _ => none

def asIndexKind : Json → Option IndexKind
  | .string "array" => some .array
  | .string "map" => some .map
  | .string "str" => some .text
  | _ => none

def asIterKind : Json → Option IterKind
  | .string "str" => some .text
  | .string "array" => some .array
  | .string "map" => some .map
  | .string "set" => some .set
  | _ => none

/-- Expressions without parts. -/
def asLeaf : String → Option Code
  | "null" => some .null
  | "this" => some .this
  | "caller" => some .caller
  | "newarray" => some .newArray
  | "newmap" => some .newMap
  | "newset" => some .newSet
  | "random" => some .random
  | _ => none

/-- Expressions with one part, which is one as well. -/
def asUnary : String → Option (Code → Code)
  | "not" => some .not
  | "neg" => some .neg
  | "clone" => some .clone
  | "len" => some .len
  | _ => none

/-- Expressions with two parts, which are such as well. -/
def asBinary : String → Option (Code → Code → Code)
  | "add" => some (.arith .add)
  | "sub" => some (.arith .sub)
  | "mul" => some (.arith .mul)
  | "div" => some (.arith .div)
  | "rem" => some (.arith .rem)
  | "lt" => some (.compare .lt)
  | "le" => some (.compare .le)
  | "gt" => some (.compare .gt)
  | "ge" => some (.compare .ge)
  | "concat" => some .concat
  | "eq" => some (.equal false)
  | "ne" => some (.equal true)
  | "and" => some (.logic true)
  | "or" => some (.logic false)
  | "merge" => some .merge
  | "has" => some .has
  | _ => none

def asStep (code : Json → Option Code) : Json → Option StepCode
  | .list [.string "extend", target, cls] => do return .extend (← code target) (← asClass cls)
  | .list [.string "retract", target, cls] => do return .retract (← code target) (← asClass cls)
  | .list [.string "call", target, slot, .list args] => do
    return .call (← code target) (← asSlot slot) (← args.mapM code)
  | _ => none

/-- Expressions with parts of several kinds. -/
def asMixed (code : Json → Option Code) (name : String) (parts : List Json) : Option Code := do
  match name, parts with
  | "num", [.string text] => return .num (← numberOfText? text)
  | "str", [.string content] => return .text content
  | "bool", [.bool value] => return .bool value
  | "default", [ty, .bool constructed] => return .default (← Ty.decode? ty) constructed
  | "local", [slot] => return .local (← slot.natural?)
  | "tee", [slot, value] => return .tee (← slot.natural?) (← code value)
  | "getfield", [object, key, ty] =>
    return .getField (← code object) (← asField key) (← Ty.decode? ty)
  | "index", [object, kind, index, ty] =>
    return .index (← code object) (← asIndexKind kind) (← code index) (← Ty.decode? ty)
  | "tupleget", [tuple, index] => return .tupleGet (← code tuple) (← index.natural?)
  | "call", [object, slot, .list args, ret] =>
    return .call (← code object) (← asSlot slot) (← args.mapM code) (← Ty.decode? ret)
  | "supercall", [parent, slot, .list args] =>
    return .superCall (← asClass parent) (← asSlot slot) (← args.mapM code)
  | "new", [cls] => return .new (← asClass cls)
  | "array", [.list elements] => return .array (← elements.mapM code)
  | "tuple", [.list elements] => return .tuple (← elements.mapM code)
  | "cast", [value, ty] => return .cast (← code value) (← Ty.decode? ty)
  | "is", [value, cls] => return .is (← code value) (← asClass cls)
  | "suggest", [.list steps] => return .suggest (← steps.mapM (asStep code))
  | _, _ => none

/-- Expressions, to a nesting of at most `steps`. -/
def asNestedCode : Nat → Json → Option Code
  | 0, _ => none
  | steps + 1, json =>
    match json with
    | .list (.string name :: parts) =>
      match parts, asLeaf name, asUnary name, asBinary name with
      | [], some code, _, _ => some code
      | [part], _, some make, _ => (asNestedCode steps part).map make
      | [left, right], _, _, some make => do
        let left ← asNestedCode steps left
        return make left (← asNestedCode steps right)
      | parts, _, _, _ => asMixed (asNestedCode steps) name parts
    | _ => none

def asCode : Json → Option Code := asNestedCode (Json.depthLimit + 1)

/-- Statements, their blocks read by `block`. -/
def asStatement (block : Json → Option (List Instr)) (name : String) (parts : List Json) :
    Option Instr := do
  match name, parts with
  | "eval", [code] => return .eval (← asCode code)
  | "store", [slot, value] => return .store (← slot.natural?) (← asCode value)
  | "setfield", [object, key, value] =>
    return .setField (← asCode object) (← asField key) (← asCode value)
  | "setindex", [target, kind, index, value] =>
    return .setIndex (← asCode target) (← asIndexKind kind) (← asCode index) (← asCode value)
  | "append", [target, value] => return .append (← asCode target) (← asCode value)
  | "remove", [target, value] => return .remove (← asCode target) (← asCode value)
  | "if", [cond, yes, no] => return .branch (← asCode cond) (← block yes) (← block no)
  | "while", [cond, body] => return .while (← asCode cond) (← block body)
  | "foreach", [source, kind, first, second, body] =>
    return .forEach (← asCode source) (← asIterKind kind) (← first.natural?) second.natural?
      (← block body)
  | "break", [] => return .break
  | "continue", [] => return .continue
  | "return", [value] => return .return (← asCode value)
  | "extend", [target, cls] => return .extend (← asCode target) (← asClass cls)
  | "retract", [target, cls] => return .retract (← asCode target) (← asClass cls)
  | "enforce", [suggestion] => return .enforce (← asCode suggestion)
  | "release", [.list slots] => return .release (← slots.mapM Json.natural?)
  | _, _ => none

/-- Statements, to a nesting of at most `steps`. -/
def asNestedInstr : Nat → Json → Option Instr
  | 0, _ => none
  | steps + 1, json =>
    match json with
    | .list (.string name :: parts) =>
      asStatement
        (fun body => body.items?.bind fun instrs => instrs.mapM (asNestedInstr steps)) name parts
    | _ => none

def asInstr : Json → Option Instr := asNestedInstr (Json.depthLimit + 1)

end Listing

/-- A routine by its parts.  A listing need not name it. -/
def Routine.decode? (json : Json) : Option Routine := do
  return {
    name := ((json.member? "name").bind Json.text?).getD ""
    arity := ← (← json.member? "arity").natural?
    slots := ← (← json.member? "slots").natural?
    ret := ← Ty.decode? (← json.member? "ret")
    body := ← (← (← json.member? "body").items?).mapM Listing.asInstr }

end Attire
