import Attire.Json.Basic
import Attire.Number.Layout
import Attire.Text.Quoted

namespace Attire.Json

/-! JSON texts over several lines, two blanks to a level. -/

def numeralText : Numeral → String
  | .natural size => toString size
  | .negative size => "-" ++ toString size
  | .real value => NumberLayout.stored.write value

def indent (level : Nat) : String := String.ofList (List.replicate (2 * level) ' ')

/-- Parts on lines of their own between two brackets, or the brackets alone. -/
def block (opening closing : String) (level : Nat) (parts : List String) : String :=
  if parts.isEmpty then
    opening ++ closing
  else
    let lines := parts.map fun part => indent (level + 1) ++ part
    opening ++ "\n" ++ ",\n".intercalate lines ++ "\n" ++ indent level ++ closing

mutual

def prettyAt (level : Nat) : Json → String
  | null => "null"
  | bool true => "true"
  | bool false => "false"
  | number value => numeralText value
  | string value => Quoted.quote value
  | list items => block "[" "]" level (prettyItems (level + 1) items)
  | object members => block "\x7b" "\x7d" level (prettyMembers (level + 1) members)
  | flawed => "null"

def prettyItems (level : Nat) : List Json → List String
  | [] => []
  | item :: rest => prettyAt level item :: prettyItems level rest

def prettyMembers (level : Nat) : List (String × Json) → List String
  | [] => []
  | (name, value) :: rest =>
    (Quoted.quote name ++ ": " ++ prettyAt level value) :: prettyMembers level rest

end

def pretty (json : Json) : String := prettyAt 0 json

end Attire.Json
