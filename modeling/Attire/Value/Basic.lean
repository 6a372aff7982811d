import Attire.ClassId
import Attire.Id
import Attire.Number.Layout

namespace Attire

/-! Values that programs compute with. -/

/-- A heap entity: the place where it lives, which is its identity, and the identifier that it
shows. -/
structure Ref where
  address : Nat
  id : Id
deriving DecidableEq, Inhabited, Repr

mutual

inductive Value
  | null
  | num (number : Float)
  | bool (value : Bool)
  | text (text : String)
  | object (ref : Ref)
  | array (ref : Ref)
  | map (ref : Ref)
  | set (ref : Ref)
  | tuple (items : List Value)
  /-- A batch of steps.  Two batches are the same if they carry the same stamp. -/
  | suggestion (stamp : Nat) (steps : List Step)

inductive Step
  | extend (target : Value) (cls : ClassId)
  | retract (target : Value) (cls : ClassId)
  | call (target caller : Value) (slot : MethodSlot) (args : List Value)

end

instance : Inhabited Value := ⟨.null⟩

namespace Value

/-- The number held; anything else reads as zero. -/
def asNum : Value → Float
  | num number => number
  | _ => 0.0

/-- The boolean held; anything else reads as false. -/
def asBool : Value → Bool
  | bool value => value
  | _ => false

def ref? : Value → Option Ref
  | object ref | array ref | map ref | set ref => some ref
  | _ => none

mutual

/-- Equality in the language: numbers and texts by value, entities and suggestions by identity,
tuples item by item. -/
def same : Value → Value → Bool
  | null, null => true
  | num a, num b => a == b
  | bool a, bool b => a = b
  | text a, text b => a = b
  | object a, object b => a.address = b.address
  | array a, array b => a.address = b.address
  | map a, map b => a.address = b.address
  | set a, set b => a.address = b.address
  | tuple as, tuple bs => sameAll as bs
  | suggestion a _, suggestion b _ => a = b
  | _, _ => false

def sameAll : List Value → List Value → Bool
  | [], [] => true
  | a :: as, b :: bs => same a b && sameAll as bs
  | _, _ => false

end

mutual

/-- The text that concatenation and casts make of a value. -/
def toText : Value → String
  | null => "null"
  | num number => numberText number
  | bool true => "true"
  | bool false => "false"
  | text content => content
  | tuple items => "(" ++ ", ".intercalate (toTexts items) ++ ")"
  | suggestion _ steps => s!"suggestion({steps.length} steps)"
  | object ref | array ref | map ref | set ref => "#" ++ ref.id.text

def toTexts : List Value → List String
  | [] => []
  | value :: rest => toText value :: toTexts rest

end

end Value

end Attire
