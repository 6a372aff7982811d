import Attire.Span
import Attire.Ty

namespace Attire

/-! Members of classes, as they are declared and as they are inherited. -/

structure FieldInfo where
  key : FieldKey
  name : String
  ty : Ty
deriving Inhabited, Repr

/-- Two inherited fields are one if their storage, name and type agree. -/
def FieldInfo.same (a b : FieldInfo) : Bool :=
  a.key = b.key && a.name = b.name && a.ty.same b.ty

/-- What a class has under a name.  A conflict is harmless until something uses the name. -/
inductive Entry (α : Type)
  | member (value : α)
  | conflict
deriving Inhabited, Repr

namespace Entry

def member? {α : Type} : Entry α → Option α
  | member value => some value
  | conflict => none

def isConflict {α : Type} : Entry α → Bool
  | member _ => false
  | conflict => true

/-- The entry for a name that two parents have. -/
def meet {α : Type} (agree : α → α → Bool) : Entry α → Entry α → Entry α
  | member a, member b => if agree a b then member a else conflict
  | _, _ => conflict

end Entry

/-- A field that the class itself declares. -/
structure OwnField where
  name : String
  ty : Ty
  span : Span
deriving Inhabited, Repr

/-- The contract that a method declares, whatever it overrides. -/
structure MethodSpec where
  name : String
  params : List Ty := []
  ret : Ty := .void
  mutating : Bool := false
  mutatingThis : Bool := false
  isOverride : Bool := false
  span : Span := {}
deriving Inhabited, Repr

/-- The signature of a method that `owner` introduces.  What may mutate anything may mutate its
receiver. -/
def MethodSpec.signature (spec : MethodSpec) (owner : ClassId) : MethodSig where
  owner := owner
  name := spec.name
  mutating := spec.mutating
  mutatingThis := spec.mutatingThis || spec.mutating
  ret := spec.ret
  params := spec.params

inductive MemberSpec
  | field (declared : OwnField)
  | method (declared : MethodSpec)
deriving Inhabited, Repr

end Attire
