namespace Attire

/-! JSON values as they are read and written. -/

/-- Whole numbers that fit 64 bits stay whole; every other literal is a double. -/
inductive Numeral
  | natural (number : Nat)
  | negative (number : Nat)
  | real (number : Float)
deriving Repr

def Numeral.toFloat : Numeral → Float
  | .natural number => Float.ofNat number
  | .negative number => -Float.ofNat number
  | .real number => number

/-- `flawed` stands for a literal that is well formed but has no value: a number beyond the
doubles, a text with half a surrogate pair, or an object with such a text among its names. -/
inductive Json
  | null
  | bool (value : Bool)
  | number (value : Numeral)
  | string (value : String)
  | list (items : List Json)
  | object (members : List (String × Json))
  | flawed
deriving Repr, Inhabited

namespace Json

/-- The containers that may stand inside of each other in a text. -/
def depthLimit : Nat := 127

mutual

/-- Whether a value has no flaw and no more than `room` containers inside of each other. -/
def sound (room : Nat) : Json → Bool
  | list items => 0 < room && soundItems (room - 1) items
  | object members => 0 < room && soundMembers (room - 1) members
  | flawed => false
  | _ => true

def soundItems (room : Nat) : List Json → Bool
  | [] => true
  | item :: rest => sound room item && soundItems room rest

def soundMembers (room : Nat) : List (String × Json) → Bool
  | [] => true
  | (_, value) :: rest => sound room value && soundMembers room rest

end

end Json

end Attire
