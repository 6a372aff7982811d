import Attire.Code.Basic
import Attire.Lowering.Slots
import Attire.Syntax.Basic
import Attire.Table

namespace Attire

/-! Compilation of checked bodies.  It reads what checking found out from the notes of the tree; the
first note that is missing makes the whole compilation fail. -/

structure LoweringError where
  routine : String
  what : String
deriving DecidableEq, Repr

def LoweringError.message (error : LoweringError) : String :=
  s!"No type information for {error.what} in '{error.routine}'"

structure LoweringState where
  slots : Slots := {}
  /-- The slots of the variables of the blocks around the present place, innermost first. -/
  scopes : List (Table String Nat) := []
  missing : Option String := none
deriving Inhabited

abbrev Lower (α : Type) := StateM LoweringState α

/-- The values of the fabrics that a body can mention. -/
abbrev Fabrics := FabricId → Option Value

namespace Lower

def findSlot (name : String) : List (Table String Nat) → Option Nat
  | [] => none
  | scope :: outer =>
    match scope.get? name with
    | some slot => some slot
    | none => findSlot name outer

def local? (name : String) : Lower (Option Nat) := return findSlot name (← get).scopes

def localOfPath? : Path → Lower (Option Nat)
  | [name] => local? name
  | _ => return none

def bind (name : String) (slot : Nat) : Lower Unit := modify fun state =>
  match state.scopes with
  | [] => state
  | scope :: outer => { state with scopes := scope.insert name slot :: outer }

def onSlots {α : Type} (change : Slots → α × Slots) : Lower α := modifyGet fun state =>
  let (answer, slots) := change state.slots
  (answer, { state with slots })

def mint : Lower Nat := onSlots Slots.mint

/-- A scratch slot for the present statement. -/
def scratch : Lower Nat := onSlots fun slots =>
  let (slot, slots) := slots.alloc
  (slot, slots.deferRelease slot)

/-- Notes that a piece of information is missing. -/
def missing (what : String) : Lower Code := do
  modify fun state => { state with missing := state.missing.or (some what) }
  return .null

/-- Runs inside of a block of its own. -/
def inBlock {α : Type} (run : Lower α) : Lower α := do
  modify fun state => { state with scopes := ∅ :: state.scopes }
  let answer ← run
  modify fun state => { state with scopes := state.scopes.tail }
  return answer

def typeOf (expr : Expr) : Lower Ty := do
  match expr.ty? with
  | some ty => return ty
  | none =>
    let _ ← missing "expression type"
    return .void

def indexKind (object : Expr) : Lower IndexKind := do
  match ← typeOf object with
  | .map _ _ => return .map
  | .text => return .text
  | _ => return .array

end Lower

end Attire
