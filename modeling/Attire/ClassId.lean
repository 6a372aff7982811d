namespace Attire

/-! Names of classes, of dispatch slots and of stored fields. -/

/-- The place of a class in the registry. -/
structure ClassId where
  index : Nat
deriving DecidableEq, Inhabited, Repr

def ClassId.describe (id : ClassId) : String := s!"ClassId({id.index})"

/-- What a call dispatches on.  An override keeps the slot of the method that it overrides. -/
structure MethodSlot where
  origin : ClassId
  name : String
deriving DecidableEq, Inhabited, Repr

def MethodSlot.describe (slot : MethodSlot) : String := s!"{slot.name}@{slot.origin.index}"

/-- Where an object stores a field: the class that declares it and its place among that
class's own fields. -/
structure FieldKey where
  owner : ClassId
  index : Nat
deriving DecidableEq, Inhabited, Repr

end Attire
