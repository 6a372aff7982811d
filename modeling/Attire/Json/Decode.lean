import Attire.Json.Basic

namespace Attire.Json

/-! Decoding JSON values.  A decoder is told how many containers it may enter one in another. -/

abbrev Decoder (α : Type) := Nat → Json → Option α

def asText : Decoder String
  | _, string value => some value
  | _, _ => none

def asBool : Decoder Bool
  | _, bool value => some value
  | _, _ => none

def asNumber : Decoder Float
  | _, number value => some value.toFloat
  | _, _ => none

/-- A whole number below `limit`. -/
def asNatural (limit : Nat) : Decoder Nat
  | _, number (.natural value) => if value < limit then some value else none
  | _, _ => none

def asNullable {α : Type} (item : Decoder α) : Decoder (Option α)
  | _, null => some none
  | room, json => (item room json).map some

def asList {α : Type} (item : Decoder α) : Decoder (List α)
  | room + 1, list items => items.mapM (item room)
  | _, _ => none

/-- A name: a text, or an object whose one member has that name and no value. -/
def asName : Decoder String
  | _, string value => some value
  | _ + 1, object [(name, null)] => some name
  | _, _ => none

/-- The members of a record and the room for their values. -/
structure Fields where
  room : Nat
  members : List (String × Json)

namespace Fields

def get? (fields : Fields) (name : String) : Option (Option Json) :=
  match fields.members.filter fun entry => entry.1 = name with
  | [] => some none
  | [(_, value)] => some (some value)
  | _ => none

def required {α : Type} (fields : Fields) (name : String) (item : Decoder α) : Option α := do
  let some value ← fields.get? name | none
  item fields.room value

def withDefault {α : Type} (fields : Fields) (name : String) (item : Decoder α)
    (default : α) : Option α := do
  match ← fields.get? name with
  | some value => item fields.room value
  | none => return default

def optional {α : Type} (fields : Fields) (name : String) (item : Decoder α) :
    Option (Option α) :=
  fields.withDefault name (asNullable item) none

end Fields

def asFields : Decoder Fields
  | room + 1, object members => some ⟨room, members⟩
  | _, _ => none

/-- A record whose values may also be listed in the order of their names. -/
def asRecord (names : List String) : Decoder Fields
  | room + 1, list items =>
    if items.length ≤ names.length then some ⟨room, names.zip items⟩ else none
  | room, json => asFields room json

/-- A tagged value: its tag, what it contains, and the room for that. -/
structure Node where
  tag : String
  content : Option Json
  room : Nat

namespace Node

def unit {α : Type} (node : Node) (value : α) : Option α :=
  match node.content with
  | none | some null => some value
  | some _ => none

def fields (node : Node) : Option Fields := node.content.bind (asFields node.room)

def record (node : Node) (names : List String) : Option Fields :=
  node.content.bind (asRecord names node.room)

def value {α : Type} (node : Node) (item : Decoder α) : Option α :=
  node.content.bind (item node.room)

end Node

/-- A tagged value with its parts under the given names, or as a list of the two.  Content that
comes before its tag is read to its end, whatever the tag makes of it. -/
def asNode (tagName contentName : String) : Decoder Node
  | room, object members => do
    let fields ← asFields room (object members)
    let tag ← fields.required tagName asName
    let content ← fields.get? contentName
    let first := members.find? fun entry => entry.1 = tagName || entry.1 = contentName
    let early := first.any fun entry => entry.1 = contentName
    if early && !(content.all (sound fields.room)) then
      none
    return ⟨tag, content, fields.room⟩
  | room + 1, list [tag, content] => do return ⟨← asName room tag, some content, room⟩
  | _, _ => none

end Attire.Json
