import Attire.Json.Basic
import Attire.Machine.Basic

namespace Attire

/-! Values as a host sees them, containers with their contents. -/

namespace View

/-- A number by its text, so that none is lost. -/
def number (number : Float) : Json := .object [("num", .string (numberText number))]

def className (machine : Machine) (id : ClassId) : Json :=
  .string (((machine.classes.get? id).map ClassDef.qualifiedName).getD id.describe)

/-- The containers met so far; their contents are not shown again. -/
abbrev Show (α : Type) := StateM (List Nat) α

def tagged (tag : String) (value : Json) : Json := .object [(tag, value)]

/-- A container, with its contents when it is met for the first time. -/
def container (kind : String) (ref : Ref) (name : String) (contents : Show (List Json)) :
    Show Json := do
  let header := (kind, Json.string ref.id.text)
  if ref.address ∈ (← get) then
    return .object [header]
  modify fun met => ref.address :: met
  return .object [header, (name, .list (← contents))]

mutual

/-- Shows a value to a nesting of at most `steps`. -/
def value (machine : Machine) : Nat → Value → Show Json
  | 0, _ => return .null
  | steps + 1, item =>
    match item with
    | .null => return .null
    | .bool value => return .bool value
    | .num x => return number x
    | .text content => return .string content
    | .object ref => return tagged "object" (.string ref.id.text)
    | .tuple items => return tagged "tuple" (.list (← items.mapM (value machine steps)))
    | .array ref =>
      container "array" ref "items" do
        ((machine.heap.array? ref).getD #[]).toList.mapM (value machine steps)
    | .set ref =>
      container "set" ref "items" do
        ((machine.heap.set? ref).getD ∅).values.mapM (value machine steps)
    | .map ref =>
      container "map" ref "entries" do
        ((machine.heap.map? ref).getD ∅).values.mapM fun (key, item) => do
          let key ← value machine steps key
          return .list [key, ← value machine steps item]
    | .suggestion _ batch =>
      return tagged "suggestion" (.list (← batch.mapM (step machine steps)))

def step (machine : Machine) : Nat → Step → Show Json
  | 0, _ => return .null
  | steps + 1, item =>
    match item with
    | .extend target cls =>
      return tagged "extend" (.list [← value machine steps target, className machine cls])
    | .retract target cls =>
      return tagged "retract" (.list [← value machine steps target, className machine cls])
    | .call target caller slot args => do
      let target ← value machine steps target
      let args ← args.mapM (value machine steps)
      let caller ← value machine steps caller
      return tagged "call" (.list [target, .string slot.describe, .list args, caller])

end

end View

/-- A value with the contents of all containers that it leads to, to a nesting of at most
`steps`. -/
def Machine.view (machine : Machine) (steps : Nat) (value : Value) : Json :=
  ((View.value machine steps value).run []).1

end Attire
