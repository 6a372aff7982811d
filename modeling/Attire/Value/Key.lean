import Attire.Text.Quoted
import Attire.Value.Basic

namespace Attire

/-! The canonical keys by which maps and sets are ordered. -/

mutual

/-- Text by which tuples are compared: two tuples have the same one exactly if they are equal. -/
def Value.encode : Value → String
  | .null => "null"
  | .bool true => "true"
  | .bool false => "false"
  | .num number => numberText number
  | .text content => Quoted.quote content
  | .tuple items => "[" ++ ",".intercalate (Value.encodeAll items) ++ "]"
  | .suggestion stamp _ => s!"suggestion:{stamp}"
  | .object ref | .array ref | .map ref | .set ref => "#" ++ ref.id.text

def Value.encodeAll : List Value → List String
  | [] => []
  | value :: rest => Value.encode value :: Value.encodeAll rest

end

/-- Place of a number in the canonical order: numerically, `-0` before `0`, and NaN last. -/
def numberRank (number : Float) : Nat :=
  if number.isNaN then
    UInt64.size
  else
    let bits := number.toBits.toNat
    if Scaled.signBit ≤ bits then UInt64.size - 1 - bits else Scaled.signBit + bits

/-- Keys of different kinds are ordered as the constructors are listed. -/
inductive MapKey
  | null
  | bool (value : Bool)
  | num (rank : Nat)
  | text (text : String)
  | ref (id : Id)
  | encoded (text : String)
deriving DecidableEq, Repr

namespace MapKey

def kind : MapKey → Nat
  | null => 0
  | bool _ => 1
  | num _ => 2
  | text _ => 3
  | ref _ => 4
  | encoded _ => 5

def order : MapKey → MapKey → Ordering
  | bool a, bool b => compare a.toNat b.toNat
  | num a, num b => compare a b
  | text a, text b => compare a b
  | ref a, ref b => compare a b
  | encoded a, encoded b => compare a b
  | a, b => compare a.kind b.kind

instance : Ord MapKey := ⟨order⟩

def ofValue : Value → MapKey
  | .null => null
  | .bool value => bool value
  | .num number => num (numberRank number)
  | .text content => text content
  | .object entity | .array entity | .map entity | .set entity => ref entity.id
  | .tuple items => encoded (Value.encode (.tuple items))
  | .suggestion stamp steps => encoded (Value.encode (.suggestion stamp steps))

end MapKey

end Attire
