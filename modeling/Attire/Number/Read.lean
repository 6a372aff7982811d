namespace Attire

/-! Reading the texts of numbers. -/

namespace DecimalText

def digitsValue? (digits : List Char) : Option Nat :=
  if digits.all Char.isDigit then
    some (digits.foldl (fun number c => 10 * number + (c.toNat - '0'.toNat)) 0)
  else
    none

def signed? : List Char → Option Int
  | '-' :: digits => if digits.isEmpty then none else (digitsValue? digits).map fun n => -(n : Int)
  | '+' :: digits => if digits.isEmpty then none else (digitsValue? digits).map Int.ofNat
  | digits => if digits.isEmpty then none else (digitsValue? digits).map Int.ofNat

def isMark (c : Char) : Bool := c = 'e' || c = 'E'

/-- The double next to `digits * 10 ^ exponent`.  Beyond these bounds it is zero or infinite. -/
def nearest (digits : Nat) (exponent : Int) : Float :=
  let length := (Nat.toDigits 10 digits).length
  if digits = 0 || exponent + length < -400 then 0.0
  else if 400 < exponent then 1.0 / 0.0
  else Float.ofScientific digits (exponent < 0) exponent.natAbs

/-- A decimal without a sign: digits, a point among them, an exponent. -/
def magnitude? (text : List Char) : Option Float := do
  let mantissa := text.takeWhile fun c => !isMark c
  let whole := mantissa.takeWhile (· ≠ '.')
  let fraction := (mantissa.drop whole.length).drop 1
  let exponent ←
    match text.drop mantissa.length with
    | [] => some 0
    | _ :: rest => signed? rest
  if whole.isEmpty && fraction.isEmpty then
    none
  return nearest (← digitsValue? (whole ++ fraction)) (exponent - fraction.length)

def unsigned? (text : List Char) : Option Float :=
  if text = "NaN".toList then some (0.0 / 0.0)
  else if text = "Infinity".toList then some (1.0 / 0.0)
  else magnitude? text

end DecimalText

/-- The number that a text denotes, if it denotes one. -/
def numberOfText? (text : String) : Option Float :=
  match text.toList with
  | '-' :: rest => (DecimalText.unsigned? rest).map fun x => -x
  | '+' :: rest => DecimalText.unsigned? rest
  | rest => DecimalText.unsigned? rest

end Attire
