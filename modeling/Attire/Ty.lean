import Attire.ClassId

namespace Attire

/-! Types of the language. -/

inductive Ty
  | num
  | text
  | bool
  | void
  | null
  | object (cls : ClassId)
  | array (element : Ty)
  | tuple (elements : List Ty)
  | map (key value : Ty)
  | set (element : Ty)
  | suggestion
  | method (owner : ClassId) (name : String) (mutating mutatingThis : Bool) (ret : Ty)
      (params : List Ty)
deriving Inhabited, Repr

/-- The callable contract of a method, with its dispatch identity. -/
structure MethodSig where
  owner : ClassId
  name : String
  mutating : Bool := false
  mutatingThis : Bool := false
  ret : Ty := .void
  params : List Ty := []
deriving Inhabited, Repr

namespace MethodSig

def slot (sig : MethodSig) : MethodSlot := ⟨sig.owner, sig.name⟩

def toTy (sig : MethodSig) : Ty :=
  .method sig.owner sig.name sig.mutating sig.mutatingThis sig.ret sig.params

end MethodSig

namespace Ty

mutual

/-- Equality of types.  The owner and the name of a method are identity, not contract. -/
def same : Ty → Ty → Bool
  | num, num => true
  | text, text => true
  | bool, bool => true
  | void, void => true
  | null, null => true
  | object a, object b => a = b
  | array a, array b => same a b
  | tuple as, tuple bs => sameAll as bs
  | map ak av, map bk bv => same ak bk && same av bv
  | set a, set b => same a b
  | suggestion, suggestion => true
  | method _ _ mutating mutatingThis ret params, method _ _ mutating' mutatingThis' ret' params' =>
    mutating = mutating' && mutatingThis = mutatingThis' && same ret ret' && sameAll params params'
  | _, _ => false

def sameAll : List Ty → List Ty → Bool
  | [], [] => true
  | a :: as, b :: bs => same a b && sameAll as bs
  | _, _ => false

end

/-- Whether `null` is a value of the type. -/
def isNullable : Ty → Bool
  | object _ | array _ | map _ _ | set _ | null => true
  | _ => false

def isContainer : Ty → Bool
  | array _ | map _ _ | set _ => true
  | _ => false

/-- Objects and containers live in the heap and have an identity. -/
def isReference : Ty → Bool
  | object _ => true
  | ty => ty.isContainer

def isPrimitive (ty : Ty) : Bool := !ty.isReference

/-- Whether a value of the type can be stored or passed. -/
def isValue : Ty → Bool
  | void | method .. => false
  | _ => true

def class? : Ty → Option ClassId
  | object cls => some cls
  | _ => none

mutual

/-- The text of a type, with classes written by `className` and methods by `methodText`. -/
def write (className : ClassId → String) (methodText : String → String → String → String) :
    Ty → String
  | num => "num"
  | text => "string"
  | bool => "bool"
  | void => "void"
  | null => "null"
  | suggestion => "suggestion"
  | object cls => className cls
  | array element => "array<" ++ write className methodText element ++ ">"
  | set element => "set<" ++ write className methodText element ++ ">"
  | map key value =>
    "map<" ++ write className methodText key ++ ", " ++ write className methodText value ++ ">"
  | tuple elements => "(" ++ ", ".intercalate (writeAll className methodText elements) ++ ")"
  | method _ name _ _ ret params =>
    methodText name (", ".intercalate (writeAll className methodText params))
      (write className methodText ret)

def writeAll (className : ClassId → String) (methodText : String → String → String → String) :
    List Ty → List String
  | [] => []
  | ty :: rest => write className methodText ty :: writeAll className methodText rest

end

/-- The text of a type where classes have no names. -/
def toText (ty : Ty) : String :=
  ty.write (fun cls => s!"object#{cls.index}") (fun name _ _ => s!"method {name}")

/-- The text of a type for a reader. -/
def describe (className : ClassId → String) (ty : Ty) : String :=
  ty.write className (fun _ params ret => s!"({params}) => {ret}")

end Ty

/-- Equality of contracts: owner and name do not count. -/
def MethodSig.sameContract (a b : MethodSig) : Bool :=
  a.mutating = b.mutating && a.mutatingThis = b.mutatingThis && a.ret.same b.ret &&
    Ty.sameAll a.params b.params

end Attire
