import Attire.Json.Basic

namespace Attire.Json

/-! The values of number and text literals. -/

/-- Ten to a power, as a double. -/
def powerOfTen (exponent : Nat) : Float := Float.ofScientific 1 false exponent

/-- Takes digits while the number stays below `UInt64.size`, and leaves the others. -/
def absorb (high : Nat) : List Char → Nat × List Char
  | [] => (high, [])
  | c :: rest =>
    let longer := 10 * high + (c.toNat - '0'.toNat)
    if longer < UInt64.size then absorb longer rest else (high, c :: rest)

/-- Scales by powers of ten, at most `10 ^ 308` in one step.  Too large a result is none. -/
def scale? : Nat → Float → Int → Option Float
  | 0, _, _ => some 0.0
  | steps + 1, size, exponent =>
    if exponent.natAbs ≤ 308 then
      if 0 ≤ exponent then
        let scaled := size * powerOfTen exponent.natAbs
        if scaled.isInf then none else some scaled
      else
        some (size / powerOfTen exponent.natAbs)
    else if size == 0.0 then
      some 0.0
    else if 0 ≤ exponent then
      none
    else
      scale? steps (size / powerOfTen 308) (exponent + 308)

/-- A number literal by its parts. -/
structure NumberLiteral where
  negative : Bool
  whole : List Char
  fraction : List Char
  exponent : Option Int

namespace NumberLiteral

/-- The leading digits that fit 64 bits, times a power of ten. -/
def real? (literal : NumberLiteral) : Option Float :=
  let (whole, wholeRest) := absorb 0 literal.whole
  let (leading, fractionRest) := absorb whole literal.fraction
  let exponent : Int := wholeRest.length + fractionRest.length - literal.fraction.length
  let size := scale? 4 (Float.ofNat leading) (exponent + literal.exponent.getD 0)
  size.map fun size => if literal.negative then -size else size

/-- Zero with a sign is a double: whole numbers have one zero only. -/
def value (literal : NumberLiteral) : Json :=
  let (whole, rest) := absorb 0 literal.whole
  if literal.fraction.isEmpty && literal.exponent.isNone && rest.isEmpty then
    if literal.negative then
      if 0 < whole ∧ whole ≤ 1 <<< 63 then .number (.negative whole)
      else .number (.real (-Float.ofNat whole))
    else
      .number (.natural whole)
  else
    match literal.real? with
    | some value => .number (.real value)
    | none => .flawed

end NumberLiteral

/-- A text literal is a run of characters and of halves of surrogate pairs. -/
inductive TextPiece
  | char (c : Char)
  | surrogate (unit : Nat)

def joinPieces : List TextPiece → Option (List Char)
  | [] => some []
  | .char c :: rest => (joinPieces rest).map (c :: ·)
  | .surrogate high :: .surrogate low :: rest =>
    if high < 0xDC00 ∧ 0xDC00 ≤ low then
      let code := 0x10000 + (high - 0xD800) * 0x400 + (low - 0xDC00)
      (joinPieces rest).map (Char.ofNat code :: ·)
    else
      none
  | .surrogate _ :: _ => none

def hexValue? (c : Char) : Option Nat :=
  if '0' ≤ c ∧ c ≤ '9' then some (c.toNat - 48)
  else if 'a' ≤ c ∧ c ≤ 'f' then some (c.toNat - 87)
  else if 'A' ≤ c ∧ c ≤ 'F' then some (c.toNat - 55)
  else none

def unitPiece (unit : Nat) : TextPiece :=
  if 0xD800 ≤ unit ∧ unit < 0xE000 then .surrogate unit else .char (Char.ofNat unit)

def shortEscape? : Char → Option Char
  | '"' => some '"'
  | '\\' => some '\\'
  | '/' => some '/'
  | 'b' => some (Char.ofNat 8)
  | 'f' => some (Char.ofNat 12)
  | 'n' => some '\n'
  | 'r' => some '\r'
  | 't' => some '\t'
  | _ => none

/-- Reads the text after an opening quote. -/
def readPieces : List Char → Option (List TextPiece × List Char)
  | [] => none
  | '"' :: rest => some ([], rest)
  | '\\' :: 'u' :: a :: b :: c :: d :: rest => do
    let a ← hexValue? a
    let b ← hexValue? b
    let c ← hexValue? c
    let d ← hexValue? d
    let (pieces, rest) ← readPieces rest
    return (unitPiece (((a * 16 + b) * 16 + c) * 16 + d) :: pieces, rest)
  | '\\' :: e :: rest => do
    let c ← shortEscape? e
    let (pieces, rest) ← readPieces rest
    return (.char c :: pieces, rest)
  | c :: rest =>
    if c.toNat < 32 then none
    else (readPieces rest).map fun (pieces, rest) => (.char c :: pieces, rest)

/-- The text after an opening quote; it has no value if a surrogate stands alone. -/
def readText (input : List Char) : Option (Option String × List Char) :=
  (readPieces input).map fun (pieces, rest) => ((joinPieces pieces).map String.ofList, rest)

def digits (input : List Char) : List Char × List Char :=
  (input.takeWhile Char.isDigit, input.dropWhile Char.isDigit)

def decimalValue (digits : List Char) : Nat :=
  digits.foldl (fun number c => 10 * number + (c.toNat - '0'.toNat)) 0

def readExponent (input : List Char) : Option (Option Int × List Char) :=
  match input with
  | e :: rest =>
    if e = 'e' ∨ e = 'E' then
      let (negative, rest) :=
        match rest with
        | '-' :: rest => (true, rest)
        | '+' :: rest => (false, rest)
        | rest => (false, rest)
      let (ds, rest) := digits rest
      if ds.isEmpty then none
      else
        let size : Int := decimalValue ds
        some (some (if negative then -size else size), rest)
    else
      some (none, input)
  | [] => some (none, [])

/-- The digits after a point, of which there is at least one. -/
def readFraction (input : List Char) : Option (List Char × List Char) :=
  match input with
  | '.' :: rest =>
    let (ds, rest) := digits rest
    if ds.isEmpty then none else some (ds, rest)
  | _ => some ([], input)

def readNumber (input : List Char) : Option (Json × List Char) := do
  let (negative, rest) :=
    match input with
    | '-' :: rest => (true, rest)
    | _ => (false, input)
  let (whole, rest) := digits rest
  if whole.isEmpty || (whole.length > 1 && whole.head? = some '0') then
    none
  let (fraction, rest) ← readFraction rest
  let (exponent, rest) ← readExponent rest
  return ((NumberLiteral.mk negative whole fraction exponent).value, rest)

end Attire.Json
