namespace Attire

/-! Frame slots.  Variables keep theirs; a scratch slot is free again after the statement that
used it. -/

structure Slots where
  next : Nat := 0
  /-- Scratch slots that are free, the one to be taken first in front. -/
  free : List Nat := []
  /-- Scratch slots of the present statement. -/
  pending : List Nat := []
deriving DecidableEq, Inhabited, Repr

namespace Slots

def mint (slots : Slots) : Nat × Slots := (slots.next, { slots with next := slots.next + 1 })

def alloc (slots : Slots) : Nat × Slots :=
  match slots.free with
  | slot :: free => (slot, { slots with free })
  | [] => slots.mint

def deferRelease (slots : Slots) (slot : Nat) : Slots :=
  { slots with pending := slots.pending ++ [slot] }

/-- Frees the slots of the present statement, and lists them if there are any. -/
def flush (slots : Slots) : Option (List Nat) × Slots :=
  match slots.pending with
  | [] => (none, slots)
  | released => (some released, { slots with free := released ++ slots.free, pending := [] })

def count (slots : Slots) : Nat := slots.next

end Slots

end Attire
