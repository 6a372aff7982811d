import Attire.Id
import Attire.Text.Bytes

namespace Attire

/-! The odometer by its wheels: it counts on the digits of the upcoming identifier, and knows other
identifiers by their texts alone. -/

structure Label where
  text : String
deriving DecidableEq, Inhabited, Repr

namespace Label

/-- Accepts what the odometer can show: digits, and no leading zero except in `0` itself. -/
def parse? (text : String) : Option Label :=
  if text.toList = [] ∨ 1 < (bytes text).length ∧ text.toList.head? = some '0' then none
  else if text.toList.all fun c => (Base36.digitValue? c).isSome then some ⟨text⟩
  else none

def digits (label : Label) : List Nat := label.text.toList.filterMap Base36.digitValue?

/-- Shorter texts are smaller, and texts of one length compare byte by byte. -/
def order (a b : Label) : Ordering :=
  (compare (bytes a.text).length (bytes b.text).length).then
    (compare (bytes a.text) (bytes b.text))

instance : Ord Label := ⟨order⟩

end Label

def Id.label (id : Id) : Label := ⟨id.text⟩

structure Wheels where
  /-- The most significant digit first. -/
  digits : List Nat := [0]
  minted : Nat := 0
deriving DecidableEq, Inhabited, Repr

namespace Wheels

/-- Digits of a number, the least significant first. -/
def lowDigits (number : Nat) : List Nat :=
  number % 36 :: if number / 36 = 0 then [] else lowDigits (number / 36)
termination_by number
decreasing_by omega

def startingAt (number : Nat) : Wheels := { digits := (lowDigits number).reverse }

/-- The identifier that the next call of `next` hands out. -/
def peek (wheels : Wheels) : Label := ⟨String.ofList (wheels.digits.map Base36.digitChar)⟩

/-- Turns wheels by one, the least significant first.  A wheel that comes round to zero turns the
one behind it, and behind the last a new wheel begins with one. -/
def turn : List Nat → List Nat
  | [] => [1]
  | digit :: rest => if digit + 1 < 36 then (digit + 1) :: rest else 0 :: turn rest

def increment (digits : List Nat) : List Nat := (turn digits.reverse).reverse

def next (wheels : Wheels) : Label × Wheels :=
  (wheels.peek, { digits := increment wheels.digits, minted := wheels.minted + 1 })

/-- Makes sure that `label` is never handed out again. -/
def advancePast (wheels : Wheels) (label : Label) : Wheels :=
  if (compare label wheels.peek).isGE then { wheels with digits := increment label.digits }
  else wheels

end Wheels

end Attire
