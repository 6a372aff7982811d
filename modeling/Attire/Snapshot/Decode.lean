import Attire.Json.Decode
import Attire.Json.Read
import Attire.Snapshot.Basic

namespace Attire

/-! Reading snapshots from their JSON form. -/

namespace SnapDecode

open Json (Decoder Fields asText asBool asList)

/-- A number, or the text of one that has no literal. -/
def asNumber : Decoder Float
  | _, .number value => some value.toFloat
  | _, .string "NaN" => some (0.0 / 0.0)
  | _, .string "Infinity" => some (1.0 / 0.0)
  | _, .string "-Infinity" => some (-1.0 / 0.0)
  | _, _ => none

/-- An object as a table of its members.  Of several members with one name the last one counts. -/
def asTable {α : Type} (item : Decoder α) : Decoder (Ordered String α) := fun room json => do
  let fields ← Json.asFields room json
  let entries ← fields.members.mapM fun (name, value) => do
    return (name, ← item fields.room value)
  return Ordered.ofList entries

def asPair {α : Type} (item : Decoder α) : Decoder (α × α) := fun room json => do
  match ← asList item room json with
  | [first, second] => return (first, second)
  | _ => none

/-- The tag and the parts of a step.  A step is read to its end before its tag counts, and its
parts may be listed after the tag. -/
def asParts (partNames : String → List String) : Decoder (String × Fields) :=
  fun room json => do
    if !json.sound room then
      none
    match json with
    | .object members =>
      let fields : Fields := ⟨room - 1, members⟩
      return (← fields.required "step" asText, fields)
    | .list (.string tag :: parts) =>
      let names := partNames tag
      if parts.length = names.length then
        return (tag, ⟨room - 1, names.zip parts⟩)
      none
    | _ => none

def stepParts : String → List String
  | "call" => ["target", "caller", "origin", "method", "args"]
  | _ => ["target", "class"]

def asStep (value : Decoder SnapValue) : Decoder SnapStep := fun room json => do
  let (tag, fields) ← asParts stepParts room json
  match tag with
  | "extend" =>
    return .extend (← fields.required "target" value) (← fields.required "class" asText)
  | "retract" =>
    return .retract (← fields.required "target" value) (← fields.required "class" asText)
  | "call" =>
    return .call (← fields.required "target" value) (← fields.required "caller" value)
      (← fields.required "origin" asText) (← fields.required "method" asText)
      (← fields.required "args" (asList value))
  | _ => none

def asNested : Nat → Decoder SnapValue
  | 0 => fun _ _ => none
  | steps + 1 => fun room json => do
    let node ← Json.asNode "kind" "value" room json
    match node.tag with
    | "null" => node.unit .null
    | "num" => return .num (← node.value asNumber)
    | "bool" => return .bool (← node.value asBool)
    | "str" => return .text (← node.value asText)
    | "ref" => return .ref (← node.value asText)
    | "tuple" => return .tuple (← node.value (asList (asNested steps)))
    | "suggestion" => return .suggestion (← node.value (asList (asStep (asNested steps))))
    | _ => none

/-- A value inside of another one has less room. -/
def asValue : Decoder SnapValue := fun room json => asNested (room + 1) room json

def asObject : Decoder SnapObject := fun room json => do
  let fields ← Json.asRecord ["classes", "fields"] room json
  return {
    classes := ← fields.required "classes" (asList asText)
    fields := ← fields.withDefault "fields" (asTable asValue) ∅ }

def asSnapshot : Decoder Snapshot := fun room json => do
  let fields ← Json.asRecord ["root", "objects", "arrays", "maps", "sets"] room json
  return {
    root := ← fields.required "root" asValue
    objects := ← fields.withDefault "objects" (asTable asObject) ∅
    arrays := ← fields.withDefault "arrays" (asTable (asList asValue)) ∅
    maps := ← fields.withDefault "maps" (asTable (asList (asPair asValue))) ∅
    sets := ← fields.withDefault "sets" (asTable (asList asValue)) ∅ }

end SnapDecode

def Snapshot.decode? (json : Json) : Option Snapshot := SnapDecode.asSnapshot Json.depthLimit json

def Snapshot.ofText? (text : String) : Option Snapshot :=
  (Json.ofText? text).bind Snapshot.decode?

end Attire
