import Attire.Ordered

namespace Attire

/-! Snapshots: everything that can be reached from a value, without the heap.  Entities refer to
each other by identifier, classes have their qualified names. -/

mutual

inductive SnapValue
  | null
  | num (number : Float)
  | bool (value : Bool)
  | text (value : String)
  | ref (id : String)
  | tuple (items : List SnapValue)
  | suggestion (steps : List SnapStep)

inductive SnapStep
  | extend (target : SnapValue) (cls : String)
  | retract (target : SnapValue) (cls : String)
  | call (target caller : SnapValue) (origin method : String) (args : List SnapValue)

end

instance : Inhabited SnapValue := ⟨.null⟩

structure SnapObject where
  /-- The classes worn, in order. -/
  classes : List String
  /-- Fields by the qualified name of their class, a dot, and their name. -/
  fields : Ordered String SnapValue := ∅
deriving Inhabited

structure Snapshot where
  root : SnapValue
  objects : Ordered String SnapObject := ∅
  arrays : Ordered String (List SnapValue) := ∅
  maps : Ordered String (List (SnapValue × SnapValue)) := ∅
  sets : Ordered String (List SnapValue) := ∅
deriving Inhabited

mutual

/-- Equality of snapshots, in which NaN differs from itself and zeros are equal. -/
def SnapValue.same : SnapValue → SnapValue → Bool
  | .null, .null => true
  | .num a, .num b => a == b
  | .bool a, .bool b => a = b
  | .text a, .text b => a = b
  | .ref a, .ref b => a = b
  | .tuple as, .tuple bs => SnapValue.sameAll as bs
  | .suggestion as, .suggestion bs => SnapStep.sameAll as bs
  | _, _ => false

def SnapValue.sameAll : List SnapValue → List SnapValue → Bool
  | [], [] => true
  | a :: as, b :: bs => SnapValue.same a b && SnapValue.sameAll as bs
  | _, _ => false

def SnapStep.same : SnapStep → SnapStep → Bool
  | .extend a c, .extend b d => SnapValue.same a b && c = d
  | .retract a c, .retract b d => SnapValue.same a b && c = d
  | .call a c o m as, .call b d p n bs =>
    SnapValue.same a b && SnapValue.same c d && o = p && m = n && SnapValue.sameAll as bs
  | _, _ => false

def SnapStep.sameAll : List SnapStep → List SnapStep → Bool
  | [], [] => true
  | a :: as, b :: bs => SnapStep.same a b && SnapStep.sameAll as bs
  | _, _ => false

end

def Ordered.same {κ : Type} {α : Type} [DecidableEq κ] (agree : α → α → Bool)
    (a b : Ordered κ α) : Bool :=
  a.size = b.size && (a.entries.zip b.entries).all fun (x, y) => x.1 = y.1 && agree x.2 y.2

def SnapObject.same (a b : SnapObject) : Bool :=
  a.classes = b.classes && a.fields.same SnapValue.same b.fields

namespace Snapshot

def same (a b : Snapshot) : Bool :=
  let samePairs (xs ys : List (SnapValue × SnapValue)) : Bool :=
    SnapValue.sameAll (xs.map Prod.fst) (ys.map Prod.fst) &&
      SnapValue.sameAll (xs.map Prod.snd) (ys.map Prod.snd)
  a.root.same b.root && a.objects.same SnapObject.same b.objects &&
    a.arrays.same SnapValue.sameAll b.arrays && a.maps.same samePairs b.maps &&
    a.sets.same SnapValue.sameAll b.sets

/-- The number of entities. -/
def count (snapshot : Snapshot) : Nat :=
  snapshot.objects.size + snapshot.arrays.size + snapshot.maps.size + snapshot.sets.size

end Snapshot

end Attire
