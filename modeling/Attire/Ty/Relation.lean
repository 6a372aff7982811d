import Attire.Ty

namespace Attire

/-! Subtyping and castability over a class hierarchy. -/

/-- The parent graph of the classes, with as many edges as `edges`. -/
structure Hierarchy where
  parents : ClassId → List ClassId
  className : ClassId → String
  edges : Nat

namespace Hierarchy

/-- Searches upward from the classes of `stack`.  A class is expanded once, so the stack gets no
more entries than there are edges. -/
def search (classes : Hierarchy) (ancestor : ClassId) : Nat → List ClassId → List ClassId → Bool
  | 0, _, _ => false
  | _, [], _ => false
  | steps + 1, current :: stack, visited =>
    if current ∈ visited then
      search classes ancestor steps stack visited
    else
      ancestor ∈ classes.parents current ||
        search classes ancestor steps (classes.parents current ++ stack) (current :: visited)

/-- Whether `cls` is `ancestor` or inherits from it. -/
def isSubclass (classes : Hierarchy) (cls ancestor : ClassId) : Bool :=
  cls = ancestor || classes.search ancestor (classes.edges + 1) [cls] []

end Hierarchy

inductive Relation
  | exact
  | subtype
  | castable
deriving DecidableEq, Repr

namespace Ty

mutual

/-- Whether a type stands in a relation to another one.  `null` and the nullable types stand
in both loose relations to each other. -/
def relates (relation : Relation) (classes : Hierarchy) (a b : Ty) : Bool :=
  if relation = .exact then
    a.same b
  else if (a.same null && b.isNullable) || (b.same null && a.isNullable) then
    true
  else
    match a, b with
    | object c, object d =>
      classes.isSubclass c d || (relation = .castable && classes.isSubclass d c)
    | array a, array b => relates relation classes a b
    | set a, set b => relates relation classes a b
    | map ak av, map bk bv => relates relation classes ak bk && relates relation classes av bv
    | tuple as, tuple bs => relatesAll relation classes as bs
    | a, text => if relation = .castable then a.isValue else a.same text
    | a, b => a.same b

def relatesAll (relation : Relation) (classes : Hierarchy) : List Ty → List Ty → Bool
  | [], [] => true
  | a :: as, b :: bs => relates relation classes a b && relatesAll relation classes as bs
  | _, _ => false

end

/-- Whether a value of type `value` may be stored where `ty` is expected. -/
def accepts (ty value : Ty) (classes : Hierarchy) : Bool := relates .subtype classes value ty

def isObject : Ty → Bool
  | object _ => true
  | _ => false

/-- Whether it makes sense to test values of the two types for equality. -/
def comparable (a b : Ty) (classes : Hierarchy) : Bool :=
  a.isValue && b.isValue &&
    (relates .subtype classes a b || relates .subtype classes b a ||
      (a.isObject && b.isObject && relates .castable classes a b))

end Ty

end Attire
