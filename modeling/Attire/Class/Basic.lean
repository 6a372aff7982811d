import Attire.Class.Member
import Attire.Code.Basic
import Attire.ModuleId
import Attire.Table
import Attire.Ty.Relation

namespace Attire

/-! Classes and the registry of all of them. -/

structure ClassDef where
  id : ClassId
  name : String
  /-- The address of the declaring module, `#`, and the name. -/
  qualifiedName : String
  module : ModuleId
  parents : List ClassId := []
  methods : Table String (Entry MethodSig) := ∅
  fields : Table String (Entry FieldInfo) := ∅
  ownFields : List OwnField := []
  ownMethods : List MethodSig := []
  bodies : Table MethodSlot Routine := ∅
  initializers : Table String Routine := ∅
  span : Span := {}
deriving Inhabited

namespace ClassDef

/-- The method usable under a name. -/
def method? (cls : ClassDef) (name : String) : Option MethodSig :=
  (cls.methods.get? name).bind Entry.member?

/-- The field usable under a name. -/
def field? (cls : ClassDef) (name : String) : Option FieldInfo :=
  (cls.fields.get? name).bind Entry.member?

def ownFieldKey? (cls : ClassDef) (name : String) : Option FieldKey :=
  (cls.ownFields.findIdx? fun field => field.name = name).map fun index => ⟨cls.id, index⟩

/-- The keys of the fields that the class declares, in order. -/
def ownFieldKeys (cls : ClassDef) : List (FieldKey × OwnField) :=
  cls.ownFields.mapIdx fun index field => (⟨cls.id, index⟩, field)

end ClassDef

structure ClassRegistry where
  classes : Array ClassDef := #[]
  byName : Table String ClassId := ∅
deriving Inhabited

namespace ClassRegistry

def size (registry : ClassRegistry) : Nat := registry.classes.size

def get? (registry : ClassRegistry) (id : ClassId) : Option ClassDef :=
  registry.classes[id.index]?

def contains (registry : ClassRegistry) (id : ClassId) : Bool := id.index < registry.size

def modify (registry : ClassRegistry) (id : ClassId) (change : ClassDef → ClassDef) :
    ClassRegistry :=
  { registry with classes := registry.classes.modify id.index change }

def qualifiedName (url name : String) : String := url ++ "#" ++ name

/-- The class with a qualified name. -/
def find? (registry : ClassRegistry) (qualifiedName : String) : Option ClassId :=
  registry.byName.get? qualifiedName

/-- Enters a class that has no members yet. -/
def declare (registry : ClassRegistry) (name url : String) (module : ModuleId) (span : Span) :
    ClassId × ClassRegistry :=
  let id : ClassId := ⟨registry.size⟩
  let qualified := qualifiedName url name
  (id, {
    classes := registry.classes.push { id, name, qualifiedName := qualified, module, span }
    byName := registry.byName.insert qualified id })

/-- Keeps the first `count` classes and forgets the names of the others. -/
def truncate (registry : ClassRegistry) (count : Nat) : ClassRegistry where
  classes := registry.classes.extract 0 count
  byName := (registry.classes.toList.drop count).foldl
    (fun names cls => names.erase cls.qualifiedName) registry.byName

def parents (registry : ClassRegistry) (id : ClassId) : List ClassId :=
  match registry.get? id with
  | some cls => cls.parents
  | none => []

/-- The name of a class, or its number if it is not registered. -/
def className (registry : ClassRegistry) (id : ClassId) : String :=
  match registry.get? id with
  | some cls => cls.name
  | none => id.describe

def edges (registry : ClassRegistry) : Nat :=
  registry.classes.foldl (fun count cls => count + cls.parents.length) 0

def hierarchy (registry : ClassRegistry) : Hierarchy where
  parents := registry.parents
  className := registry.className
  edges := registry.edges

def isSubclass (registry : ClassRegistry) (cls ancestor : ClassId) : Bool :=
  registry.hierarchy.isSubclass cls ancestor

def describe (registry : ClassRegistry) (ty : Ty) : String := ty.describe registry.className

end ClassRegistry

end Attire
