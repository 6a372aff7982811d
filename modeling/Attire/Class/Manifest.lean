import Attire.Class.Basic

namespace Attire

/-! The classes that an object embodies, and the methods that it answers with. -/

/-- Lists a class after its ancestors.  `seen` holds the classes entered so far; the depth of a
chain of classes is bounded by `steps`. -/
def visitClass (parents : ClassId → List ClassId) :
    Nat → ClassId → List ClassId × List ClassId → List ClassId × List ClassId
  | 0, _, state => state
  | steps + 1, cls, (seen, listed) =>
    if cls ∈ seen then
      (seen, listed)
    else
      let (seen, listed) := (parents cls).foldl
        (fun state parent => visitClass parents steps parent state) (cls :: seen, listed)
      (seen, listed ++ [cls])

namespace ClassRegistry

/-- The worn classes and all of their ancestors, each once, parents before children. -/
def manifest (registry : ClassRegistry) (worn : List ClassId) : List ClassId :=
  (worn.foldl
    (fun state cls => visitClass registry.parents (registry.size + 1) cls state) ([], [])).2

end ClassRegistry

/-- A method table; tables with one stamp are one table. -/
structure MethodTable where
  stamp : Nat := 0
  methods : Table MethodSlot Routine := ∅
deriving Inhabited

namespace MethodTable

def get? (table : MethodTable) (slot : MethodSlot) : Option Routine := table.methods.get? slot

def size (table : MethodTable) : Nat := table.methods.size

end MethodTable

/-- The methods of a manifest: the bodies of its classes, later ones over earlier ones. -/
def ClassRegistry.methodsOf (registry : ClassRegistry) (manifest : List ClassId) :
    Table MethodSlot Routine :=
  manifest.foldl
    (fun methods cls =>
      match registry.get? cls with
      | some cls => methods.overlay cls.bodies
      | none => methods)
    ∅

/-- Method tables of manifests, built one class at a time and kept. -/
structure TableCache where
  tables : Table (List ClassId) MethodTable := ∅
  hits : Nat := 0
  misses : Nat := 0
deriving Inhabited

namespace TableCache

/-- The table kept for a manifest, or one newly built.  Every table built gets a stamp of its
own. -/
def layer (cache : TableCache) (manifest : List ClassId)
    (build : Unit → Table MethodSlot Routine) : MethodTable × TableCache :=
  match cache.tables.get? manifest with
  | some table => (table, { cache with hits := cache.hits + 1 })
  | none =>
    let misses := cache.misses + 1
    let table : MethodTable := ⟨misses, build ()⟩
    (table, { cache with tables := cache.tables.insert manifest table, misses })

def layers (registry : ClassRegistry) (below : List ClassId) (table : MethodTable)
    (cache : TableCache) : List ClassId → MethodTable × TableCache
  | [] => (table, cache)
  | cls :: rest =>
    let manifest := below ++ [cls]
    let (next, cache) := cache.layer manifest fun _ =>
      match registry.get? cls with
      | some cls => table.methods.overlay cls.bodies
      | none => table.methods
    layers registry manifest next cache rest

/-- The method table of a manifest. -/
def request (cache : TableCache) (registry : ClassRegistry) (manifest : List ClassId) :
    MethodTable × TableCache :=
  let (empty, cache) := cache.layer [] fun _ => ∅
  layers registry [] empty cache manifest

/-- Forgets the tables that mention a class at or after `first`. -/
def evictFrom (cache : TableCache) (first : Nat) : TableCache :=
  { cache with
    tables := cache.tables.restrict fun manifest => manifest.all fun cls => cls.index < first }

end TableCache

end Attire
