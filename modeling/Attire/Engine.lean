import Attire.Import.Build
import Attire.Machine.Eval
import Attire.Snapshot.Capture
import Attire.Snapshot.Restore

namespace Attire

/-! Engines: programs that are imported and then run by a host. -/

inductive EngineError
  | «import» (error : ImportError)
  | runtime (error : RuntimeError)
  | unknownModule (url : String)
  | noMainClass (url : String)
  | unknownClass (url name : String)
deriving DecidableEq, Repr

namespace EngineError

def message : EngineError → String
  | «import» error => error.message
  | runtime error => "Runtime error: " ++ error.message
  | unknownModule url => s!"Module '{url}' is not loaded"
  | noMainClass url => s!"Module '{url}' has no main class"
  | unknownClass url name => s!"Module '{url}' has no class '{name}'"

/-- The messages of the errors underneath, from the nearest to the deepest. -/
def causes : EngineError → List String
  | «import» error => error.causes
  | runtime error => [error.message]
  | _ => []

end EngineError

/-- Why a host operation yields nothing: an error, or too few steps allowed. -/
inductive EngineHalt
  | error (error : EngineError)
  | exhausted
deriving DecidableEq, Repr

/-- A host operation changes the workspace, also when it fails. -/
abbrev Host (α : Type) := EStateM EngineHalt Workspace α

namespace Workspace

def ofSources (options : Options) (sources : Sources) : Workspace where
  options := options
  sources := sources
  machine := { callLimit := options.maxCallDepth }

def run {α : Type} (action : Run α) : Host α := fun workspace =>
  match action.run workspace.machine with
  | .ok answer machine => .ok answer { workspace with machine }
  | .error (.error error) machine => .error (.error (.runtime error)) { workspace with machine }
  | .error .exhausted machine => .error .exhausted { workspace with machine }

def refuse {α : Type} (error : EngineError) : Host α := throw (.error error)

def «import» (url : String) : Host ModuleId := fun workspace =>
  match (importModule url).run workspace with
  | .ok id workspace => .ok id workspace
  | .error error workspace => .error (.error (.import error)) workspace

def getModule (url : String) : Host Module := do
  match (← get).modules.getByUrl? url with
  | some module => return module
  | none => refuse (.unknownModule url)

/-- The class that a module calls by a name. -/
def findClass (url name : String) : Host ClassId := do
  match (← getModule url).symbols.lookup name with
  | some ⟨.cls id, _, _⟩ => return id
  | _ => refuse (.unknownClass url name)

def instantiate (steps : Nat) (url name : String) : Host Ref := do
  let cls ← findClass url name
  let _ ← run Machine.advanceTick
  run (Machine.instantiate steps cls)

/-- Calls a method in a tick of its own. -/
def call (steps : Nat) (ref : Ref) (name : String) (args : List Value) : Host Value := do
  let _ ← run Machine.advanceTick
  run (Machine.call steps ref name .null args)

/-- Imports a module, makes an object of its main class, and calls its entry method if it has
one. -/
def runMain (steps : Nat) (url : String) : Host Ref := do
  let _ ← «import» url
  let some main := (← getModule url).main | refuse (.noMainClass url)
  let _ ← run Machine.advanceTick
  let ref ← run (Machine.instantiate steps main)
  let workspace ← get
  let entry := workspace.options.entryMethod
  let method := (workspace.machine.heap.object? ref).bind fun object =>
    workspace.machine.findMethod? object entry
  if method.isSome then
    let _ ← run (Machine.call steps ref entry .null [])
  return ref

def snapshot (workspace : Workspace) (root : Value) : Snapshot := workspace.machine.capture root

def restore (steps : Nat) (snapshot : Snapshot) : Host Value :=
  run (Machine.restore steps snapshot)

end Workspace

end Attire
