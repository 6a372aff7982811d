namespace Attire

/-! Finite tables.  A key keeps the place at which it was first entered. -/

structure Table (κ : Type u) (α : Type v) where
  entries : List (κ × α) := []
deriving Inhabited, Repr

namespace Table

variable {κ : Type u} {α : Type v} {β : Type w}

instance : EmptyCollection (Table κ α) := ⟨{ entries := [] }⟩

def size (table : Table κ α) : Nat := table.entries.length

def keys (table : Table κ α) : List κ := table.entries.map Prod.fst

def values (table : Table κ α) : List α := table.entries.map Prod.snd

def mapValues (f : α → β) (table : Table κ α) : Table κ β :=
  ⟨table.entries.map fun entry => (entry.1, f entry.2)⟩

/-- Drops every entry whose key fails `keep`. -/
def restrict (keep : κ → Bool) (table : Table κ α) : Table κ α :=
  ⟨table.entries.filter fun entry => keep entry.1⟩

variable [DecidableEq κ]

def find (key : κ) : List (κ × α) → Option α
  | [] => none
  | (other, value) :: rest => if other = key then some value else find key rest

def put (key : κ) (value : α) : List (κ × α) → List (κ × α)
  | [] => [(key, value)]
  | (other, old) :: rest =>
    if other = key then (key, value) :: rest else (other, old) :: put key value rest

def get? (table : Table κ α) (key : κ) : Option α := find key table.entries

def contains (table : Table κ α) (key : κ) : Bool := (table.get? key).isSome

def insert (table : Table κ α) (key : κ) (value : α) : Table κ α :=
  ⟨put key value table.entries⟩

def erase (table : Table κ α) (key : κ) : Table κ α := table.restrict (· ≠ key)

def insertIfNew (table : Table κ α) (key : κ) (value : α) : Table κ α :=
  if table.contains key then table else table.insert key value

/-- Lays `upper` over `lower`: a key of both gets the value of `upper`. -/
def overlay (lower upper : Table κ α) : Table κ α :=
  upper.entries.foldl (fun table entry => table.insert entry.1 entry.2) lower

@[simp] theorem get?_empty (key : κ) : (∅ : Table κ α).get? key = none := rfl

@[simp] theorem get?_insert_self (table : Table κ α) (key : κ) (value : α) :
    (table.insert key value).get? key = some value := by
  obtain ⟨entries⟩ := table
  simp only [insert, get?]
  induction entries with
  | nil => simp [put, find]
  | cons entry rest ih =>
    obtain ⟨other, old⟩ := entry
    by_cases h : other = key <;> simp [put, find, h, ih]

theorem get?_insert_of_ne (table : Table κ α) {key other : κ} (value : α)
    (hne : other ≠ key) : (table.insert key value).get? other = table.get? other := by
  obtain ⟨entries⟩ := table
  simp only [insert, get?]
  induction entries with
  | nil => simp [put, find, Ne.symm hne]
  | cons entry rest ih =>
    obtain ⟨third, old⟩ := entry
    by_cases h : third = key
    · subst h
      simp [put, find, Ne.symm hne]
    · by_cases h' : third = other
      · subst h'
        simp [put, find, h]
      · simp [put, find, h, h', ih]

end Table

end Attire
