import Attire.ModuleId
import Attire.Span
import Attire.Table

namespace Attire

/-! The names that a module sees and the names that it exports. -/

inductive Origin
  | «local»
  | nonlocal
deriving DecidableEq, Repr

structure Binding where
  target : Target
  origin : Origin
  span : Span
deriving DecidableEq, Repr

/-- A name that two wildcards bring with different targets stands for nothing. -/
inductive SymbolEntry
  | bound (binding : Binding)
  | ambiguous
deriving DecidableEq, Repr

structure SymbolTable where
  entries : Table String SymbolEntry := ∅
deriving Inhabited, Repr

namespace SymbolTable

def size (symbols : SymbolTable) : Nat := symbols.entries.size

def lookup (symbols : SymbolTable) (name : String) : Option Binding :=
  match symbols.entries.get? name with
  | some (.bound binding) => some binding
  | some .ambiguous | none => none

def isAmbiguous (symbols : SymbolTable) (name : String) : Bool :=
  symbols.entries.get? name = some .ambiguous

/-- Enters a name that the module declares itself, which no other such declaration has. -/
def defineLocal? (symbols : SymbolTable) (name : String) (target : Target) (span : Span) :
    Option SymbolTable :=
  match symbols.lookup name with
  | some ⟨_, .local, _⟩ => none
  | _ => some ⟨symbols.entries.insert name (.bound ⟨target, .local, span⟩)⟩

/-- The entry of a name after a wildcard has brought it. -/
def bring (target : Target) (span : Span) : Option SymbolEntry → SymbolEntry
  | none => .bound ⟨target, .nonlocal, span⟩
  | some .ambiguous => .ambiguous
  | some (.bound old) =>
    if old.origin = .local ∨ old.target = target then .bound old else .ambiguous

def defineNonlocal (symbols : SymbolTable) (name : String) (target : Target) (span : Span) :
    SymbolTable :=
  ⟨symbols.entries.insert name (bring target span (symbols.entries.get? name))⟩

end SymbolTable

/-- The names that importers of a module see. -/
abbrev ExportTable := Table String Target

end Attire
