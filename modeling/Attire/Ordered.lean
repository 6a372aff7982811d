namespace Attire

/-! Tables kept in strictly increasing key order. -/

structure Ordered (κ : Type u) (α : Type v) where
  entries : List (κ × α) := []
deriving Inhabited, Repr

namespace Ordered

variable {κ : Type u} {α : Type v}

instance : EmptyCollection (Ordered κ α) := ⟨{ entries := [] }⟩

def size (table : Ordered κ α) : Nat := table.entries.length

def isEmpty (table : Ordered κ α) : Bool := table.entries.isEmpty

def keys (table : Ordered κ α) : List κ := table.entries.map Prod.fst

def values (table : Ordered κ α) : List α := table.entries.map Prod.snd

variable [Ord κ]

/-- Stops at the first key that is not below the one sought. -/
def find (key : κ) : List (κ × α) → Option α
  | [] => none
  | (other, value) :: rest =>
    match compare key other with
    | .lt => none
    | .eq => some value
    | .gt => find key rest

def put (key : κ) (value : α) : List (κ × α) → List (κ × α)
  | [] => [(key, value)]
  | (other, old) :: rest =>
    match compare key other with
    | .lt => (key, value) :: (other, old) :: rest
    | .eq => (key, value) :: rest
    | .gt => (other, old) :: put key value rest

def drop (key : κ) : List (κ × α) → List (κ × α)
  | [] => []
  | (other, old) :: rest =>
    match compare key other with
    | .lt => (other, old) :: rest
    | .eq => rest
    | .gt => (other, old) :: drop key rest

def get? (table : Ordered κ α) (key : κ) : Option α := find key table.entries

def contains (table : Ordered κ α) (key : κ) : Bool := (table.get? key).isSome

def insert (table : Ordered κ α) (key : κ) (value : α) : Ordered κ α :=
  ⟨put key value table.entries⟩

def erase (table : Ordered κ α) (key : κ) : Ordered κ α := ⟨drop key table.entries⟩

def ofList (entries : List (κ × α)) : Ordered κ α :=
  entries.foldl (fun table entry => table.insert entry.1 entry.2) ∅

end Ordered

end Attire
