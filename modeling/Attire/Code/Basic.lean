import Attire.Ty
import Attire.Ty.Collection
import Attire.Value.Basic

namespace Attire

/-! Compiled method bodies and field initializers.  Every name is resolved; variables live in
numbered slots of a frame. -/

inductive ArithOp
  | add
  | sub
  | mul
  | div
  | rem
deriving DecidableEq, Repr

inductive CompareOp
  | lt
  | le
  | gt
  | ge
deriving DecidableEq, Repr

mutual

/-- Expressions. -/
inductive Code
  | num (number : Float)
  | text (text : String)
  | bool (value : Bool)
  | null
  /-- The default value of a type; a constructed one has empty containers for null ones. -/
  | default (ty : Ty) (constructed : Bool)
  | «local» (slot : Nat)
  /-- Stores a value in a slot and yields it. -/
  | tee (slot : Nat) (value : Code)
  | this
  | caller
  | const (value : Value)
  | getField (object : Code) (field : FieldKey) (ty : Ty)
  | index (object : Code) (kind : IndexKind) (index : Code) (ty : Ty)
  | tupleGet (tuple : Code) (index : Nat)
  | call (object : Code) (slot : MethodSlot) (args : List Code) (ret : Ty)
  | superCall (parent : ClassId) (slot : MethodSlot) (args : List Code)
  | new (cls : ClassId)
  | newArray
  | newMap
  | newSet
  | array (elements : List Code)
  | tuple (elements : List Code)
  | arith (op : ArithOp) (left right : Code)
  | concat (left right : Code)
  | compare (op : CompareOp) (left right : Code)
  | equal (negate : Bool) (left right : Code)
  /-- `and` when the flag is set, else `or`; the right side runs only if the left side leaves
  the answer open. -/
  | logic (conjunction : Bool) (left right : Code)
  | not (operand : Code)
  | neg (operand : Code)
  | merge (left right : Code)
  | cast (value : Code) (target : Ty)
  | clone (value : Code)
  | len (value : Code)
  | has (collection key : Code)
  | random
  | is (value : Code) (cls : ClassId)
  | suggest (steps : List StepCode)

inductive StepCode
  | extend (target : Code) (cls : ClassId)
  | retract (target : Code) (cls : ClassId)
  | call (target : Code) (slot : MethodSlot) (args : List Code)

end

instance : Inhabited Code := ⟨.null⟩

/-- Statements. -/
inductive Instr
  | eval (code : Code)
  | store (slot : Nat) (value : Code)
  | setField (object : Code) (field : FieldKey) (value : Code)
  | setIndex (target : Code) (kind : IndexKind) (index value : Code)
  | append (target value : Code)
  | remove (target value : Code)
  | branch (cond : Code) (yes no : List Instr)
  | «while» (cond : Code) (body : List Instr)
  | forEach (source : Code) (kind : IterKind) (first : Nat) (second : Option Nat)
      (body : List Instr)
  | «break»
  | «continue»
  | «return» (value : Code)
  | extend (target : Code) (cls : ClassId)
  | retract (target : Code) (cls : ClassId)
  | enforce (suggestion : Code)
  /-- Clears scratch slots whose statement is over. -/
  | release (slots : List Nat)
deriving Inhabited

/-- A compiled body.  The arguments come in the first `arity` slots of its frame; a body that ends
without a return yields the default of `ret`. -/
structure Routine where
  name : String
  arity : Nat
  slots : Nat
  ret : Ty
  body : List Instr
deriving Inhabited

end Attire
