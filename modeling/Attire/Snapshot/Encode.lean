import Attire.Json.Print
import Attire.Snapshot.Basic

namespace Attire

/-! The JSON form of snapshots. -/

/-- Numbers without a literal travel as texts. -/
def encodeNumber (number : Float) : Json :=
  if number.isFinite then .number (.real number) else .string (numberText number)

def tagged (kind : String) (value : Json) : Json :=
  .object [("kind", .string kind), ("value", value)]

mutual

def SnapValue.encode : SnapValue → Json
  | .null => .object [("kind", .string "null")]
  | .num number => tagged "num" (encodeNumber number)
  | .bool value => tagged "bool" (.bool value)
  | .text value => tagged "str" (.string value)
  | .ref id => tagged "ref" (.string id)
  | .tuple items => tagged "tuple" (.list (SnapValue.encodeAll items))
  | .suggestion steps => tagged "suggestion" (.list (SnapStep.encodeAll steps))

def SnapValue.encodeAll : List SnapValue → List Json
  | [] => []
  | value :: rest => SnapValue.encode value :: SnapValue.encodeAll rest

def SnapStep.encode : SnapStep → Json
  | .extend target cls => .object [
      ("step", .string "extend"),
      ("target", SnapValue.encode target),
      ("class", .string cls)]
  | .retract target cls => .object [
      ("step", .string "retract"),
      ("target", SnapValue.encode target),
      ("class", .string cls)]
  | .call target caller origin method args => .object [
      ("step", .string "call"),
      ("target", SnapValue.encode target),
      ("caller", SnapValue.encode caller),
      ("origin", .string origin),
      ("method", .string method),
      ("args", .list (SnapValue.encodeAll args))]

def SnapStep.encodeAll : List SnapStep → List Json
  | [] => []
  | step :: rest => SnapStep.encode step :: SnapStep.encodeAll rest

end

def Ordered.encode {α : Type} (item : α → Json) (table : Ordered String α) : Json :=
  .object (table.entries.map fun entry => (entry.1, item entry.2))

def SnapObject.encode (object : SnapObject) : Json := .object [
  ("classes", .list (object.classes.map Json.string)),
  ("fields", object.fields.encode SnapValue.encode)]

namespace Snapshot

def encode (snapshot : Snapshot) : Json :=
  let items (values : List SnapValue) : Json := .list (SnapValue.encodeAll values)
  let pairs (entries : List (SnapValue × SnapValue)) : Json :=
    .list (entries.map fun (key, value) => .list [key.encode, value.encode])
  .object [
    ("root", snapshot.root.encode),
    ("objects", snapshot.objects.encode SnapObject.encode),
    ("arrays", snapshot.arrays.encode items),
    ("maps", snapshot.maps.encode pairs),
    ("sets", snapshot.sets.encode items)]

def toText (snapshot : Snapshot) : String := snapshot.encode.pretty

end Snapshot

end Attire
