import Attire.Typing.Effects
import Attire.Typing.Resolve

namespace Attire

/-! What can be wrong with a checked body. -/

inductive CheckCause
  | resolve (cause : ResolveCause)
  | typeMismatch (expected actual : String)
  | inheritanceConflict (cls name : String)
  | undefinedMember (cls name : String)
  | notAnObject (name ty : String)
  | methodAsValue (name : String)
  | notAValue (name : String)
  | voidValue
  | argumentCount (method : String) (expected actual : Nat)
  | invalidOperands (op left right : String)
  | invalidCompound (op ty : String)
  | notIndexable (ty : String)
  | tupleIndex (length : Nat)
  | emptyArrayLiteral
  | mixedArrayLiteral (first other : String)
  | invalidCast (source target : String)
  | notClonable (ty : String)
  | notInstantiable (ty : String)
  | notIterable (ty : String)
  | setHasNoKeys
  | loopBinding (declared actual : String)
  | notAssignable
  | cannotInferType (name : String)
  | duplicateLocal (name : String)
  | missingReturnValue (expected : String)
  | outsideLoop (keyword : String)
  | noSuperMethod (cls name : String)
  | mutationDenied (action : String) (required : Requirement)
  | immutableFabric (name : String)
deriving DecidableEq, Repr

def CheckCause.message : CheckCause → String
  | resolve cause => cause.message
  | typeMismatch expected actual => s!"Type mismatch: expected {expected}, got {actual}"
  | inheritanceConflict cls name =>
    s!"'{name}' is inherited inconsistently by '{cls}' and cannot be used"
  | undefinedMember cls name => s!"'{cls}' has no member '{name}'"
  | notAnObject name ty => s!"Cannot access '{name}' on non-object type '{ty}'"
  | methodAsValue name => s!"Method '{name}' must be called"
  | notAValue name => s!"'{name}' is not a value"
  | voidValue => "Expression has no value"
  | argumentCount method expected actual =>
    s!"Method '{method}' expects {expected} argument(s), got {actual}"
  | invalidOperands op left right => s!"Operator '{op}' cannot be applied to {left} and {right}"
  | invalidCompound op ty => s!"Operator '{op}' is not supported on {ty}"
  | notIndexable ty => s!"Type '{ty}' cannot be indexed"
  | tupleIndex length => s!"Tuple index must be an integer literal below {length}"
  | emptyArrayLiteral => "Empty array literal; use \x60new\x60 to create an empty array"
  | mixedArrayLiteral first other =>
    s!"Array literal elements must share one type: {first} and {other}"
  | invalidCast source target => s!"Cannot cast {source} to {target}"
  | notClonable ty => s!"Type '{ty}' is not clonable"
  | notInstantiable ty => s!"Type '{ty}' cannot be instantiated"
  | notIterable ty => s!"Type '{ty}' cannot be iterated"
  | setHasNoKeys => "Invalid loop binding: sets have no keys; use a single loop variable"
  | loopBinding declared actual =>
    s!"Invalid loop binding: declared {declared} but the collection yields {actual}"
  | notAssignable => "Expression cannot be assigned to"
  | cannotInferType name => s!"Cannot infer the type of '{name}'"
  | duplicateLocal name => s!"Duplicate variable '{name}'"
  | missingReturnValue expected => s!"Missing return value of type {expected}"
  | outsideLoop keyword => s!"'{keyword}' outside of a loop"
  | noSuperMethod cls name => s!"No parent of '{cls}' defines method '{name}'"
  | mutationDenied action required => s!"{action} requires a {required.qualifier} method"
  | immutableFabric name => s!"Fabric '{name}' is immutable"

structure CheckError where
  cause : CheckCause
  span : Span
deriving DecidableEq, Repr

def CheckError.message (error : CheckError) : String := error.cause.message

end Attire
