import Attire.Json.View
import Attire.Ty

namespace Attire

/-! The JSON form of types: names of the plain ones, and objects with one member for the others. -/

namespace Ty

/-- Types, to a nesting of at most `steps`. -/
def decodeNested : Nat → Json → Option Ty
  | 0, _ => none
  | steps + 1, json =>
    match json with
    | .string "num" => some num
    | .string "string" => some text
    | .string "bool" => some bool
    | .string "void" => some void
    | .string "null" => some null
    | .string "suggestion" => some suggestion
    | .object [("object", cls)] => cls.natural?.map fun index => object ⟨index⟩
    | .object [("array", element)] => (decodeNested steps element).map array
    | .object [("set", element)] => (decodeNested steps element).map set
    | .object [("map", .list [key, value])] => do
      let key ← decodeNested steps key
      return map key (← decodeNested steps value)
    | .object [("tuple", elements)] => do
      return tuple (← (← elements.items?).mapM (decodeNested steps))
    | .object [("method", sig)] => do
      let ret ← ((sig.member? "ret").map (decodeNested steps)).getD (some void)
      let params ← ((sig.member? "params").bind Json.items?).getD [] |>.mapM (decodeNested steps)
      return method ⟨← (← sig.member? "owner").natural?⟩ (← (← sig.member? "name").text?)
        (sig.flag "mutating") (sig.flag "mutating_this") ret params
    | _ => none

def decode? (json : Json) : Option Ty := decodeNested (Json.depthLimit + 1) json

end Ty

/-- A signature by its parts.  Without a type it returns nothing, and without parameters it has
none. -/
def MethodSig.decode? (json : Json) : Option MethodSig := do
  let ret ← ((json.member? "ret").map Ty.decode?).getD (some .void)
  return {
    owner := ⟨((json.member? "owner").bind Json.natural?).getD 0⟩
    name := ← (← json.member? "name").text?
    mutating := json.flag "mutating"
    mutatingThis := json.flag "mutating_this"
    ret
    params := ← ((json.member? "params").bind Json.items?).getD [] |>.mapM Ty.decode? }

end Attire
