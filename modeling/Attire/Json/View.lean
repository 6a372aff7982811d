import Attire.Json.Basic

namespace Attire

/-! Looking into JSON values. -/

namespace Json

def natural? : Json → Option Nat
  | number (.natural value) => some value
  | _ => none

def text? : Json → Option String
  | string value => some value
  | _ => none

def bool? : Json → Option Bool
  | bool value => some value
  | _ => none

def items? : Json → Option (List Json)
  | list items => some items
  | _ => none

/-- The first member with a name. -/
def member? (name : String) : Json → Option Json
  | object members => (members.find? fun member => member.1 = name).map Prod.snd
  | _ => none

def flag (name : String) (json : Json) : Bool := ((json.member? name).bind bool?).getD false

end Json

end Attire
