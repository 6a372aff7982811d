namespace Attire

/-! Finite numbers as a whole coefficient times a power of two. -/

structure Scaled where
  negative : Bool
  coefficient : Nat
  exponent : Int
deriving DecidableEq, Repr

namespace Scaled

/-- The bit of the coefficient that every normal double has and none stores. -/
abbrev leadingBit : Nat := 1 <<< 52

/-- The bit of the sign in the pattern of a double. -/
abbrev signBit : Nat := 1 <<< 63

/-- The 52 fraction bits, the 11 exponent bits and the sign of a double.
Infinities and NaN have no such form. -/
def ofFloat? (x : Float) : Option Scaled :=
  let bits : Nat := x.toBits.toNat
  let fraction : Nat := bits % leadingBit
  let biased : Nat := bits / leadingBit % 2048
  let negative := bits / signBit = 1
  if biased = 2047 then
    none
  else if biased = 0 then
    some ⟨negative, fraction, -1074⟩
  else
    some ⟨negative, leadingBit + fraction, biased - 1075⟩

/-- Doubles the coefficient until it fills 53 bits or the exponent is the least one. -/
def normalize : Nat → Nat → Int → Nat × Int
  | 0, coefficient, exponent => (coefficient, exponent)
  | steps + 1, coefficient, exponent =>
    if coefficient < leadingBit ∧ -1074 < exponent then
      normalize steps (2 * coefficient) (exponent - 1)
    else
      (coefficient, exponent)

/-- The double with this value, for a coefficient below `2 ^ 53` and an exponent in range. -/
def toFloat (number : Scaled) : Float :=
  let (coefficient, exponent) := normalize 53 number.coefficient number.exponent
  let sign := if number.negative then signBit else 0
  let magnitude :=
    if coefficient < leadingBit then
      coefficient
    else
      (exponent + 1075).toNat * leadingBit + (coefficient - leadingBit)
  Float.ofBits (UInt64.ofNat (sign + magnitude))

/-- Remainder of a division that truncates toward zero; it has the sign of the dividend. -/
def remainder (dividend divisor : Scaled) : Scaled :=
  let exponent := min dividend.exponent divisor.exponent
  let align (number : Scaled) := number.coefficient <<< (number.exponent - exponent).toNat
  ⟨dividend.negative, align dividend % align divisor, exponent⟩

/-- The value as a natural number, when it is one. -/
def toNat? (number : Scaled) : Option Nat :=
  if number.coefficient = 0 then
    some 0
  else if number.negative then
    none
  else if 0 ≤ number.exponent then
    some (number.coefficient <<< number.exponent.toNat)
  else
    let unit := 1 <<< (-number.exponent).toNat
    if number.coefficient % unit = 0 then some (number.coefficient / unit) else none

end Scaled

/-- The exact remainder of two numbers.  There is none of an infinity or by zero, and an
infinite divisor leaves a finite dividend as it is. -/
def remainder (x y : Float) : Float :=
  match Scaled.ofFloat? x, Scaled.ofFloat? y with
  | some dividend, some divisor =>
    if divisor.coefficient = 0 then 0.0 / 0.0
    else if dividend.coefficient = 0 then x
    else (Scaled.remainder dividend divisor).toFloat
  | some _, none => if y.isNaN then y else x
  | none, _ => 0.0 / 0.0

/-- The position that a number names in a sequence. -/
def position? (x : Float) : Option Nat :=
  (Scaled.ofFloat? x).bind Scaled.toNat?

end Attire
