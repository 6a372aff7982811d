import Attire.Code.Basic
import Attire.Json.Basic

namespace Attire

/-! Listings of compiled code: every expression and statement is a list of its name and its
parts. -/

namespace Listing

def natural (number : Nat) : Json := .number (.natural number)

def ofType (ty : Ty) : Json := .string ty.toText

def ofField (key : FieldKey) : Json := .list [natural key.owner.index, natural key.index]

def ofSlot (slot : MethodSlot) : Json := .list [natural slot.origin.index, .string slot.name]

def ofIndexKind : IndexKind → Json
  | .array => .string "array"
  | .map => .string "map"
  | .text => .string "str"

def ofIterKind : IterKind → Json
  | .text => .string "str"
  | .array => .string "array"
  | .map => .string "map"
  | .set => .string "set"

def arithName : ArithOp → String
  | .add => "add"
  | .sub => "sub"
  | .mul => "mul"
  | .div => "div"
  | .rem => "rem"

def compareName : CompareOp → String
  | .lt => "lt"
  | .le => "le"
  | .gt => "gt"
  | .ge => "ge"

def form (name : String) (parts : List Json) : Json := .list (.string name :: parts)

mutual

/-- The listing of an expression.  Constants are shown by `constant`. -/
def ofCode (constant : Value → Json) : Code → Json
  | .num number => form "num" [.string (numberText number)]
  | .text content => form "str" [.string content]
  | .bool value => form "bool" [.bool value]
  | .null => form "null" []
  | .default ty constructed => form "default" [ofType ty, .bool constructed]
  | .local slot => form "local" [natural slot]
  | .tee slot value => form "tee" [natural slot, ofCode constant value]
  | .this => form "this" []
  | .caller => form "caller" []
  | .const value => form "const" [constant value]
  | .getField object key ty => form "getfield" [ofCode constant object, ofField key, ofType ty]
  | .index object kind index ty =>
    form "index" [ofCode constant object, ofIndexKind kind, ofCode constant index, ofType ty]
  | .tupleGet tuple index => form "tupleget" [ofCode constant tuple, natural index]
  | .call object slot args ret =>
    form "call" [ofCode constant object, ofSlot slot, .list (ofCodes constant args), ofType ret]
  | .superCall parent slot args =>
    form "supercall" [natural parent.index, ofSlot slot, .list (ofCodes constant args)]
  | .new cls => form "new" [natural cls.index]
  | .newArray => form "newarray" []
  | .newMap => form "newmap" []
  | .newSet => form "newset" []
  | .array elements => form "array" [.list (ofCodes constant elements)]
  | .tuple elements => form "tuple" [.list (ofCodes constant elements)]
  | .arith op left right => form (arithName op) [ofCode constant left, ofCode constant right]
  | .concat left right => form "concat" [ofCode constant left, ofCode constant right]
  | .compare op left right => form (compareName op) [ofCode constant left, ofCode constant right]
  | .equal negate left right =>
    form (if negate then "ne" else "eq") [ofCode constant left, ofCode constant right]
  | .logic conjunction left right =>
    form (if conjunction then "and" else "or") [ofCode constant left, ofCode constant right]
  | .not operand => form "not" [ofCode constant operand]
  | .neg operand => form "neg" [ofCode constant operand]
  | .merge left right => form "merge" [ofCode constant left, ofCode constant right]
  | .cast value ty => form "cast" [ofCode constant value, ofType ty]
  | .clone value => form "clone" [ofCode constant value]
  | .len value => form "len" [ofCode constant value]
  | .has collection key => form "has" [ofCode constant collection, ofCode constant key]
  | .random => form "random" []
  | .is value cls => form "is" [ofCode constant value, natural cls.index]
  | .suggest steps => form "suggest" [.list (ofSteps constant steps)]

def ofCodes (constant : Value → Json) : List Code → List Json
  | [] => []
  | code :: rest => ofCode constant code :: ofCodes constant rest

def ofStep (constant : Value → Json) : StepCode → Json
  | .extend target cls => form "extend" [ofCode constant target, natural cls.index]
  | .retract target cls => form "retract" [ofCode constant target, natural cls.index]
  | .call target slot args =>
    form "call" [ofCode constant target, ofSlot slot, .list (ofCodes constant args)]

def ofSteps (constant : Value → Json) : List StepCode → List Json
  | [] => []
  | step :: rest => ofStep constant step :: ofSteps constant rest

end

mutual

def ofInstr (constant : Value → Json) : Instr → Json
  | .eval code => form "eval" [ofCode constant code]
  | .store slot value => form "store" [natural slot, ofCode constant value]
  | .setField object key value =>
    form "setfield" [ofCode constant object, ofField key, ofCode constant value]
  | .setIndex target kind index value =>
    form "setindex" [
      ofCode constant target,
      ofIndexKind kind,
      ofCode constant index,
      ofCode constant value]
  | .append target value => form "append" [ofCode constant target, ofCode constant value]
  | .remove target value => form "remove" [ofCode constant target, ofCode constant value]
  | .branch cond yes no =>
    form "if" [ofCode constant cond, .list (ofBlock constant yes), .list (ofBlock constant no)]
  | .while cond body => form "while" [ofCode constant cond, .list (ofBlock constant body)]
  | .forEach source kind first second body =>
    form "foreach" [
      ofCode constant source,
      ofIterKind kind,
      natural first,
      (second.map natural).getD .null,
      .list (ofBlock constant body)]
  | .break => form "break" []
  | .continue => form "continue" []
  | .return value => form "return" [ofCode constant value]
  | .extend target cls => form "extend" [ofCode constant target, natural cls.index]
  | .retract target cls => form "retract" [ofCode constant target, natural cls.index]
  | .enforce suggestion => form "enforce" [ofCode constant suggestion]
  | .release slots => form "release" [.list (slots.map natural)]

def ofBlock (constant : Value → Json) : List Instr → List Json
  | [] => []
  | instr :: rest => ofInstr constant instr :: ofBlock constant rest

end

end Listing

def Routine.listing (constant : Value → Json) (routine : Routine) : Json := .object [
  ("name", .string routine.name),
  ("arity", Listing.natural routine.arity),
  ("slots", Listing.natural routine.slots),
  ("ret", Listing.ofType routine.ret),
  ("body", .list (Listing.ofBlock constant routine.body))]

end Attire
