import Attire.Ty

namespace Attire

/-! What a method may change, and what its parts need. -/

structure Effects where
  mutating : Bool := false
  mutatingThis : Bool := false
deriving DecidableEq, Inhabited, Repr

inductive Requirement
  | none
  | mutatingThis
  | mutating
deriving DecidableEq, Repr

def Requirement.qualifier : Requirement → String
  | none => "plain"
  | mutatingThis => "mutating this"
  | mutating => "mutating"

namespace Effects

/-- What may mutate anything may mutate its receiver. -/
def ofFlags (mutating mutatingThis : Bool) : Effects where
  mutating := mutating
  mutatingThis := mutatingThis || mutating

def ofSig (sig : MethodSig) : Effects := ofFlags sig.mutating sig.mutatingThis

def allows (effects : Effects) : Requirement → Bool
  | .none => true
  | .mutatingThis => effects.mutatingThis
  | .mutating => effects.mutating

end Effects

/-- Where the chain of members that leads to a location starts. -/
inductive Root
  | this
  | «local»
  | fabric (name : String)
  | other
deriving DecidableEq, Repr

/-- A location: its root, and whether another object lies on the way to it. -/
structure Place where
  root : Root
  crossesObject : Bool := false
deriving DecidableEq, Repr

/-- Writing inside of `this` needs less than writing elsewhere.  Behind another object, only a
primitive slot still counts as inside. -/
def writeRequirement (place : Place) (primitiveSlot : Bool) : Requirement :=
  if place.root = .this ∧ (!place.crossesObject ∨ primitiveSlot) then .mutatingThis
  else .mutating

def callRequirement (sig : MethodSig) (receiver : Place) : Requirement :=
  if sig.mutating then .mutating
  else if !sig.mutatingThis then .none
  else if receiver.root = .this then .mutatingThis
  else .mutating

end Attire
