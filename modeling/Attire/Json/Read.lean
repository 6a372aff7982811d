import Attire.Json.Literal

namespace Attire.Json

/-! Reading JSON texts. -/

def skipBlank (input : List Char) : List Char :=
  input.dropWhile fun c => c = ' ' || c = '\t' || c = '\n' || c = '\r'

def readWord (word : List Char) (value : Json) (input : List Char) :
    Option (Json × List Char) :=
  if word.isPrefixOf input then some (value, input.drop word.length) else none

/-- An object with a name that has no value has none itself. -/
def ofMembers (members : List (Option String × Json)) : Json :=
  match members.mapM fun (name, value) => name.map fun name => (name, value) with
  | some members => .object members
  | none => .flawed

mutual

/-- Reads one value.  Every step takes a character, so as many steps as there are characters
are enough. -/
def readValue : Nat → List Char → Option (Json × List Char)
  | 0, _ => none
  | steps + 1, input =>
    match skipBlank input with
    | 'n' :: rest => readWord ['u', 'l', 'l'] .null rest
    | 't' :: rest => readWord ['r', 'u', 'e'] (.bool true) rest
    | 'f' :: rest => readWord ['a', 'l', 's', 'e'] (.bool false) rest
    | '"' :: rest =>
      (readText rest).map fun (text, rest) => ((text.map Json.string).getD .flawed, rest)
    | '[' :: rest =>
      match skipBlank rest with
      | ']' :: rest => some (.list [], rest)
      | rest => (readItems steps rest).map fun (items, rest) => (.list items, rest)
    | '{' :: rest =>
      match skipBlank rest with
      | '}' :: rest => some (.object [], rest)
      | rest => (readMembers steps rest).map fun (members, rest) => (ofMembers members, rest)
    | rest => readNumber rest

def readItems : Nat → List Char → Option (List Json × List Char)
  | 0, _ => none
  | steps + 1, input =>
    (readValue steps input).bind fun (item, rest) =>
      match skipBlank rest with
      | ']' :: rest => some ([item], rest)
      | ',' :: rest =>
        (readItems steps rest).map fun (items, rest) => (item :: items, rest)
      | _ => none

def readMembers : Nat → List Char → Option (List (Option String × Json) × List Char)
  | 0, _ => none
  | steps + 1, input =>
    match skipBlank input with
    | '"' :: rest =>
      (readText rest).bind fun (name, rest) =>
        match skipBlank rest with
        | ':' :: rest =>
          (readValue steps rest).bind fun (value, rest) =>
            match skipBlank rest with
            | '}' :: rest => some ([(name, value)], rest)
            | ',' :: rest =>
              (readMembers steps rest).map fun (members, rest) => ((name, value) :: members, rest)
            | _ => none
        | _ => none
    | _ => none

end

/-- The value of a text that holds one value and nothing else. -/
def ofText? (text : String) : Option Json :=
  let input := text.toList
  (readValue (2 * input.length + 2) input).bind fun (value, rest) =>
    if (skipBlank rest).isEmpty then some value else none

end Attire.Json
