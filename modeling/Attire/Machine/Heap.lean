import Attire.Class.Manifest
import Attire.Ordered
import Attire.RandomStream
import Attire.Value.Key

namespace Attire

/-! Objects and containers. -/

/-- An object keeps its identity while the classes that it wears come and go.  It stores fields of
the classes of its manifest. -/
structure Object where
  worn : List ClassId
  manifest : List ClassId := []
  /-- The classes of the manifest as a set. -/
  types : List ClassId := []
  table : MethodTable := {}
  fields : Table FieldKey Value := ∅
  random : RandomStream := {}
deriving Inhabited

/-- Whether the object is an instance of a class at present. -/
def Object.embodies (object : Object) (cls : ClassId) : Bool := cls ∈ object.types

abbrev MapEntries := Ordered MapKey (Value × Value)

abbrev SetEntries := Ordered MapKey Value

inductive Entity
  | object (object : Object)
  | array (items : Array Value)
  | map (entries : MapEntries)
  | set (entries : SetEntries)
deriving Inhabited

structure Cell where
  id : Id
  entity : Entity
deriving Inhabited

structure Heap where
  cells : Array Cell := #[]
deriving Inhabited

namespace Heap

def size (heap : Heap) : Nat := heap.cells.size

def entity? (heap : Heap) (ref : Ref) : Option Entity :=
  heap.cells[ref.address]?.map Cell.entity

def object? (heap : Heap) (ref : Ref) : Option Object :=
  match heap.entity? ref with
  | some (.object object) => some object
  | _ => none

def array? (heap : Heap) (ref : Ref) : Option (Array Value) :=
  match heap.entity? ref with
  | some (.array items) => some items
  | _ => none

def map? (heap : Heap) (ref : Ref) : Option MapEntries :=
  match heap.entity? ref with
  | some (.map entries) => some entries
  | _ => none

def set? (heap : Heap) (ref : Ref) : Option SetEntries :=
  match heap.entity? ref with
  | some (.set entries) => some entries
  | _ => none

/-- A new entity with the given identifier. -/
def alloc (heap : Heap) (id : Id) (entity : Entity) : Ref × Heap :=
  (⟨heap.size, id⟩, ⟨heap.cells.push ⟨id, entity⟩⟩)

def modify (heap : Heap) (ref : Ref) (change : Entity → Entity) : Heap :=
  ⟨heap.cells.modify ref.address fun cell => { cell with entity := change cell.entity }⟩

def modifyObject (heap : Heap) (ref : Ref) (change : Object → Object) : Heap :=
  heap.modify ref fun
    | .object object => .object (change object)
    | entity => entity

def modifyArray (heap : Heap) (ref : Ref) (change : Array Value → Array Value) : Heap :=
  heap.modify ref fun
    | .array items => .array (change items)
    | entity => entity

def modifyMap (heap : Heap) (ref : Ref) (change : MapEntries → MapEntries) : Heap :=
  heap.modify ref fun
    | .map entries => .map (change entries)
    | entity => entity

def modifySet (heap : Heap) (ref : Ref) (change : SetEntries → SetEntries) : Heap :=
  heap.modify ref fun
    | .set entries => .set (change entries)
    | entity => entity

end Heap

end Attire
