import Attire.ClassId

namespace Attire

/-- The place of a module in the registry. -/
structure ModuleId where
  index : Nat
deriving DecidableEq, Inhabited, Repr

/-- A fabric: its module and its place among that module's fabrics. -/
structure FabricId where
  module : ModuleId
  index : Nat
deriving DecidableEq, Inhabited, Repr

/-- What a name at module level stands for. -/
inductive Target
  | module (id : ModuleId)
  | cls (id : ClassId)
  | fabric (id : FabricId)
deriving DecidableEq, Inhabited, Repr

end Attire
