import Attire.Number.Scaled

namespace Attire

/-! The shortest decimal that reads back as a given double, and of several such the
nearest one. -/

/-- Where a value goes that lies halfway between two neighbours. -/
inductive Tie
  | above
  | even
deriving DecidableEq, Repr

/-- Whether a tie goes to the lower neighbour. -/
def Tie.takesBelow (tie : Tie) (below : Nat) : Bool := tie = even && below % 2 = 0

/-- A decimal `digits * 10 ^ exponent`. -/
structure Decimal where
  digits : Nat
  exponent : Int
deriving DecidableEq, Repr

namespace Decimal

/-- Moves trailing zeros of the digits into the exponent. -/
def trim : Nat → Decimal → Decimal
  | 0, decimal => decimal
  | steps + 1, decimal =>
    if decimal.digits ≠ 0 ∧ decimal.digits % 10 = 0 then
      trim steps ⟨decimal.digits / 10, decimal.exponent + 1⟩
    else
      decimal

end Decimal

/-- The reals that round to a double, in quarters of its unit in the last place. -/
structure Rounding where
  value : Nat
  low : Nat
  high : Nat
  closed : Bool
  exponent : Int

namespace Rounding

/-- The gap below a power of two is half the gap above it. -/
def ofScaled (number : Scaled) : Rounding where
  value := 4 * number.coefficient
  low := 4 * number.coefficient -
    (if number.coefficient = Scaled.leadingBit ∧ -1074 < number.exponent then 1 else 2)
  high := 4 * number.coefficient + 2
  closed := number.coefficient % 2 = 0
  exponent := number.exponent - 2

/-- Brings a decimal exponent and a binary exponent to whole factors: the decimal grid and
the interval's bounds over one denominator. -/
def factors (interval : Rounding) (exponent : Int) : Nat × Nat :=
  let tens := Nat.pow 10 exponent.natAbs
  let twos := 1 <<< interval.exponent.natAbs
  let grid := (if 0 ≤ exponent then tens else 1) * (if interval.exponent < 0 then twos else 1)
  let binary := (if 0 ≤ interval.exponent then twos else 1) * (if exponent < 0 then tens else 1)
  (grid, binary)

/-- The grid point nearest the value among its two neighbours that lie in the interval. -/
def nearest? (interval : Rounding) (tie : Tie) (exponent : Int) : Option Nat :=
  let (grid, binary) := interval.factors exponent
  let value := interval.value * binary
  let inside (point : Nat) : Bool :=
    if interval.closed then
      interval.low * binary ≤ point * grid && point * grid ≤ interval.high * binary
    else
      interval.low * binary < point * grid && point * grid < interval.high * binary
  let below := value / grid
  let above := below + 1
  match inside below && below ≠ 0, inside above with
  | true, true =>
    let toBelow := value - below * grid
    let toAbove := above * grid - value
    if toBelow < toAbove || (toBelow = toAbove && tie.takesBelow below) then some below
    else some above
  | true, false => some below
  | false, true => some above
  | false, false => none

/-- Refines the grid, one digit at a time, until a point of it lies in the interval. -/
def refine (interval : Rounding) (tie : Tie) : Nat → Int → Decimal
  | 0, exponent => ⟨interval.value, exponent⟩
  | steps + 1, exponent =>
    match interval.nearest? tie exponent with
    | some point => Decimal.trim 20 ⟨point, exponent⟩
    | none => refine interval tie steps (exponent - 1)

end Rounding

/-- The number of decimal digits of a natural number. -/
def decimalLength (number : Nat) : Nat := (Nat.toDigits 10 number).length

/-- The least `k` with `value < 10 ^ k`. -/
def Scaled.decimalBound (number : Scaled) : Int :=
  if 0 ≤ number.exponent then
    decimalLength (number.coefficient <<< number.exponent.toNat)
  else
    let places := (-number.exponent).toNat
    (decimalLength ((number.coefficient * Nat.pow 10 places) >>> places) : Int) - places

/-- Shortest decimal of a finite number, without its sign. -/
def Scaled.shortest (tie : Tie) (number : Scaled) : Decimal :=
  if number.coefficient = 0 then ⟨0, 0⟩
  else (Rounding.ofScaled number).refine tie 20 (number.decimalBound - 1)

end Attire
