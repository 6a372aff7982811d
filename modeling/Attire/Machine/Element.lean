import Attire.Machine.Basic
import Attire.Number.Scaled

namespace Attire

/-! Operators on values and access to the elements of containers. -/

def ArithOp.apply : ArithOp → Float → Float → Float
  | add, a, b => a + b
  | sub, a, b => a - b
  | mul, a, b => a * b
  | div, a, b => a / b
  | rem, a, b => remainder a b

def CompareOp.numbers : CompareOp → Float → Float → Bool
  | lt, a, b => a < b
  | le, a, b => a ≤ b
  | gt, a, b => b < a
  | ge, a, b => b ≤ a

def CompareOp.texts : CompareOp → String → String → Bool
  | lt, a, b => a < b
  | le, a, b => !decide (b < a)
  | gt, a, b => b < a
  | ge, a, b => !decide (a < b)

/-- Numbers and texts have an order; no other two values have. -/
def CompareOp.apply : CompareOp → Value → Value → Bool
  | op, .num a, .num b => op.numbers a b
  | op, .text a, .text b => op.texts a b
  | _, _, _ => false

/-- One suggestion after another; anything else counts as an empty one. -/
def mergeSteps : Value → Value → List Step
  | .suggestion _ a, .suggestion _ b => a ++ b
  | .suggestion _ a, _ => a
  | _, .suggestion _ b => b
  | _, _ => []

namespace Heap

/-- The number of characters of a text, or of elements of a container. -/
def length (heap : Heap) : Value → Nat
  | .text content => content.length
  | .array ref => ((heap.array? ref).map Array.size).getD 0
  | .map ref => ((heap.map? ref).map Ordered.size).getD 0
  | .set ref => ((heap.set? ref).map Ordered.size).getD 0
  | _ => 0

def hasKey (heap : Heap) (collection : Value) (key : MapKey) : Bool :=
  match collection with
  | .map ref => (heap.map? ref).any fun entries => entries.contains key
  | .set ref => (heap.set? ref).any fun entries => entries.contains key
  | _ => false

/-- The element that an index leads to, if there is one. -/
def element? (heap : Heap) (container : Value) (kind : IndexKind) (index : Value) :
    Option Value :=
  match container, kind with
  | .array ref, .array => do
    let items ← heap.array? ref
    items[← position? index.asNum]?
  | .map ref, .map => do
    let entries ← heap.map? ref
    (← entries.get? (MapKey.ofValue index)).2
  | .text content, .text => do
    let c ← content.toList[← position? index.asNum]?
    return .text (String.singleton c)
  | _, _ => none

/-- Overwrites an element of an array, or adds one right behind the last. -/
def putAt (index : Float) (value : Value) (items : Array Value) : Array Value :=
  match position? index with
  | some position =>
    if position < items.size then items.setIfInBounds position value
    else if position = items.size then items.push value
    else items
  | none => items

def putElement (heap : Heap) (container : Value) (kind : IndexKind) (index value : Value) :
    Heap :=
  match container, kind with
  | .array ref, .array => heap.modifyArray ref (putAt index.asNum value)
  | .map ref, .map =>
    heap.modifyMap ref fun entries => entries.insert (MapKey.ofValue index) (index, value)
  | _, _ => heap

def addElement (heap : Heap) (container value : Value) : Heap :=
  match container with
  | .array ref => heap.modifyArray ref fun items => items.push value
  | .set ref => heap.modifySet ref fun entries => entries.insert (MapKey.ofValue value) value
  | _ => heap

def removeElement (heap : Heap) (container : Value) (key : MapKey) : Heap :=
  match container with
  | .map ref => heap.modifyMap ref fun entries => entries.erase key
  | .set ref => heap.modifySet ref fun entries => entries.erase key
  | _ => heap

/-- The values of a loop's variables, in order.  With two variables, texts and arrays bind the
position first. -/
def rounds (heap : Heap) (source : Value) (kind : IterKind) (pairs : Bool) :
    List (Value × Option Value) :=
  let numbered (items : List Value) : List (Value × Option Value) :=
    if pairs then items.mapIdx fun position item => (.num (Float.ofNat position), some item)
    else items.map fun item => (item, none)
  match source, kind with
  | .text content, .text => numbered (content.toList.map fun c => .text (String.singleton c))
  | .array ref, .array => numbered ((heap.array? ref).getD #[]).toList
  | .map ref, .map =>
    ((heap.map? ref).getD ∅).values.map fun (key, value) => (key, some value)
  | .set ref, .set => ((heap.set? ref).getD ∅).values.map fun item => (item, none)
  | _, _ => []

end Heap

end Attire
