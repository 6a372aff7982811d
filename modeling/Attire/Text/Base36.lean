namespace Attire.Base36

/-! Numerals to the base 36, with the digits `0` to `9` and `a` to `z`. -/

def digitChar (digit : Nat) : Char :=
  if digit < 10 then Char.ofNat (48 + digit) else Char.ofNat (87 + digit)

def digitValue? (c : Char) : Option Nat :=
  if '0' ≤ c ∧ c ≤ '9' then some (c.toNat - 48)
  else if 'a' ≤ c ∧ c ≤ 'z' then some (c.toNat - 87)
  else none

/-- Digits of `number` before `low`, most significant first, at most `steps` of them. -/
def digitsFrom : Nat → Nat → List Char → List Char
  | 0, _, low => low
  | steps + 1, number, low =>
    let digits := digitChar (number % 36) :: low
    if number < 36 then digits else digitsFrom steps (number / 36) digits

/-- A number has at most one digit more than its size. -/
def digits (number : Nat) : List Char := digitsFrom (number + 1) number []

def encode (number : Nat) : String := String.ofList (digits number)

def valueFrom? (high : Nat) : List Char → Option Nat
  | [] => some high
  | c :: rest => (digitValue? c).bind fun digit => valueFrom? (36 * high + digit) rest

/-- Refuses the empty text, leading zeros and anything that is no digit. -/
def decode? (text : String) : Option Nat :=
  match text.toList with
  | [] => none
  | '0' :: _ :: _ => none
  | cs => valueFrom? 0 cs

end Attire.Base36
