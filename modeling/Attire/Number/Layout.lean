import Attire.Number.Shortest

namespace Attire

/-! How a decimal is written out. -/

/-- Decimals `0.d₁d₂… * 10 ^ point` with `point` in the range are positional; the others are
written with one digit before the decimal point and a signed exponent. -/
structure NumberLayout where
  positional : Int → Bool
  wholeSuffix : String
  zero : String
  notANumber : String
  infinity : String
  /-- Where a double goes that lies halfway between two shortest decimals. -/
  tie : Tie

namespace NumberLayout

/-- Numbers in the language's own texts: never an exponent, no point in a whole number. -/
def plain : NumberLayout where
  positional := fun _ => true
  wholeSuffix := ""
  zero := "0"
  notANumber := "NaN"
  infinity := "Infinity"
  tie := .above

/-- Numbers in stored texts: whole numbers keep a decimal place, and an exponent stands below
`10 ^ -5` and from `10 ^ 16` on. -/
def stored : NumberLayout where
  positional := fun point => -5 < point && point ≤ 16
  wholeSuffix := ".0"
  zero := "0.0"
  notANumber := "NaN"
  infinity := "Infinity"
  tie := .even

def zeros (count : Nat) : List Char := List.replicate count '0'

def writePositional (layout : NumberLayout) (digits : List Char) (exponent : Int) : String :=
  if 0 ≤ exponent then
    String.ofList (digits ++ zeros exponent.toNat) ++ layout.wholeSuffix
  else
    let places := (-exponent).toNat
    if places < digits.length then
      String.ofList
        (digits.take (digits.length - places) ++ '.' :: digits.drop (digits.length - places))
    else
      String.ofList ('0' :: '.' :: zeros (places - digits.length) ++ digits)

def writeExponent (digits : List Char) (point : Int) : String :=
  let fraction := if digits.length ≤ 1 then [] else '.' :: digits.drop 1
  let exponent := point - 1
  let sign := if exponent < 0 then "-" else "+"
  String.ofList (digits.take 1 ++ fraction) ++ "e" ++ sign ++ toString exponent.natAbs

def writeMagnitude (layout : NumberLayout) (decimal : Decimal) : String :=
  if decimal.digits = 0 then
    layout.zero
  else
    let digits := Nat.toDigits 10 decimal.digits
    let point := digits.length + decimal.exponent
    if layout.positional point then layout.writePositional digits decimal.exponent
    else writeExponent digits point

def write (layout : NumberLayout) (x : Float) : String :=
  match Scaled.ofFloat? x with
  | some number =>
    (if number.negative then "-" else "") ++ layout.writeMagnitude (number.shortest layout.tie)
  | none =>
    if x.isNaN then layout.notANumber
    else if x < 0.0 then "-" ++ layout.infinity
    else layout.infinity

end NumberLayout

/-- The text of a number: `NaN`, `Infinity`, `-Infinity`, `-0`, or its shortest decimal. -/
def numberText (x : Float) : String := NumberLayout.plain.write x

end Attire
