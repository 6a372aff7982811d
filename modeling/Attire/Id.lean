import Attire.Text.Base36

namespace Attire

/-! Identifiers of heap entities and the odometer that hands them out. -/

/-- An identifier is a number, shown to the base 36.  Shorter numerals are smaller, and
numerals of one length compare digit by digit, so the order is that of the numbers. -/
structure Id where
  number : Nat
deriving DecidableEq, Inhabited, Repr

namespace Id

def text (id : Id) : String := Base36.encode id.number

def ofText? (text : String) : Option Id := (Base36.decode? text).map Id.mk

instance : Ord Id := ⟨fun a b => compare a.number b.number⟩

instance : LE Id := ⟨fun a b => a.number ≤ b.number⟩

instance : LT Id := ⟨fun a b => a.number < b.number⟩

instance (a b : Id) : Decidable (a ≤ b) := inferInstanceAs (Decidable (a.number ≤ b.number))

instance (a b : Id) : Decidable (a < b) := inferInstanceAs (Decidable (a.number < b.number))

end Id

structure Odometer where
  upcoming : Nat := 0
  minted : Nat := 0
deriving DecidableEq, Inhabited, Repr

namespace Odometer

def startingAt (number : Nat) : Odometer := { upcoming := number }

/-- The identifier that the next call of `next` hands out. -/
def peek (odometer : Odometer) : Id := ⟨odometer.upcoming⟩

def next (odometer : Odometer) : Id × Odometer :=
  (odometer.peek, { upcoming := odometer.upcoming + 1, minted := odometer.minted + 1 })

/-- Makes sure that `id` is never handed out again. -/
def advancePast (odometer : Odometer) (id : Id) : Odometer :=
  if odometer.peek ≤ id then { odometer with upcoming := id.number + 1 } else odometer

end Odometer

end Attire
