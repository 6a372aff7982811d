import Attire.Import.Module
import Attire.Syntax.Basic

namespace Attire

/-! What dotted names and type expressions stand for. -/

inductive ResolveCause
  | missingCopyright (url : String)
  | licenseCount (url : String) (count : Nat)
  | duplicateSymbol (name : String)
  | undefinedSymbol (name : String)
  | invalidPathStep (path step parent : String)
  | notAClass (path : String)
  | notAModule (path : String)
  | mainRedeclared
  | raggedFabric (name : String)
  | missingRootClass (name : String)
  | emptyPath
deriving DecidableEq, Repr

def ResolveCause.message : ResolveCause → String
  | missingCopyright url => s!"Module '{url}' has no copyright declaration"
  | licenseCount url count => s!"Module '{url}' must declare exactly one license, found {count}"
  | duplicateSymbol name => s!"Duplicate symbol '{name}'"
  | undefinedSymbol name => s!"Undefined symbol '{name}'"
  | invalidPathStep path step parent =>
    s!"Cannot resolve '{step}' in '{path}': '{parent}' is not a module"
  | notAClass path => s!"'{path}' is not a class"
  | notAModule path => s!"'{path}' is not a module"
  | mainRedeclared => "Main class declared more than once"
  | raggedFabric name => s!"Lines of fabric '{name}' must all have the same length"
  | missingRootClass name => s!"Core module does not define root class '{name}'"
  | emptyPath => "Empty name"

/-- What goes wrong with a whole module has no place in it. -/
structure ResolveError where
  cause : ResolveCause
  span : Option Span := none
deriving DecidableEq, Repr

def ResolveError.message (error : ResolveError) : String := error.cause.message

/-- The modules and symbols that names are looked up in. -/
structure NameScope where
  modules : ModuleRegistry
  symbols : SymbolTable

namespace NameScope

/-- Follows the steps of a path through export tables.  `walked` is the path up to the present
target. -/
def follow (scope : NameScope) (path : Path) (target : Target) (walked : Path) :
    List String → Except ResolveCause Target
  | [] => .ok target
  | step :: rest =>
    match target with
    | .module id =>
      match scope.modules.export? id step with
      | some next => follow scope path next (walked ++ [step]) rest
      | none => .error (.undefinedSymbol (Path.text (walked ++ [step])))
    | _ => .error (.invalidPathStep path.text step (walked.getLast?.getD ""))

def resolve (scope : NameScope) (path : Path) : Except ResolveCause Target :=
  match path with
  | [] => .error .emptyPath
  | first :: rest =>
    match scope.symbols.lookup first with
    | some binding => scope.follow path binding.target [first] rest
    | none => .error (.undefinedSymbol first)

def resolveClass (scope : NameScope) (path : Path) : Except ResolveCause ClassId := do
  match ← scope.resolve path with
  | .cls id => return id
  | _ => .error (.notAClass path.text)

def resolveModule (scope : NameScope) (path : Path) : Except ResolveCause ModuleId := do
  match ← scope.resolve path with
  | .module id => return id
  | _ => .error (.notAModule path.text)

mutual

def resolveType (scope : NameScope) : TypeExpr → Except ResolveCause Ty
  | .num => .ok .num
  | .text => .ok .text
  | .bool => .ok .bool
  | .void => .ok .void
  | .suggestion => .ok .suggestion
  | .array element => do return .array (← resolveType scope element)
  | .set element => do return .set (← resolveType scope element)
  | .map key value => do
    let key ← resolveType scope key
    return .map key (← resolveType scope value)
  | .tuple elements => do return .tuple (← resolveTypes scope elements)
  | .named path => do return .object (← scope.resolveClass path)

def resolveTypes (scope : NameScope) : List TypeExpr → Except ResolveCause (List Ty)
  | [] => .ok []
  | ty :: rest => do
    let ty ← resolveType scope ty
    return ty :: (← resolveTypes scope rest)

end

end NameScope

end Attire
