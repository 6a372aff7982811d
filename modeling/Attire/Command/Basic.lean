import Attire.Command.Arguments
import Attire.Command.Files
import Attire.Command.Report
import Attire.Engine
import Attire.Import.Location
import Attire.Snapshot.Decode
import Attire.Snapshot.Encode

namespace Attire

/-! The commands: check a module, run its main class, restore a snapshot of its objects. -/

namespace Command

variable {m : Type → Type} [Monad m]

/-- A command in progress over files of some kind. -/
abbrev Progress (m : Type → Type) (α : Type) := ExceptT Failure m α

def joinPath (directory name : String) : String :=
  String.ofList (Directory.join directory.toList name.toList)

def readFile (files : FileSystem m) (path : String) : Progress m (Except FileError String) :=
  ExceptT.lift (files.read path)

/-- The settings of the given file, or else of the one in the root directory, if there is one. -/
def loadOptions (files : FileSystem m) (invocation : Invocation) : Progress m Options := do
  let usual := joinPath invocation.root "weft.toml"
  let path ←
    match invocation.config with
    | some path => pure (some path)
    | none => do
      let found ← ExceptT.lift (files.isFile usual)
      pure (if found then some usual else none)
  match path with
  | none => return {}
  | some path =>
    let message := "Failed to load configuration from " ++ path
    match ← readFile files path with
    | .error error =>
      throw ⟨message, ["Failed to read configuration file: " ++ error.message, error.message]⟩
    | .ok text =>
      match Options.ofToml text with
      | .ok options => return options
      | .error error => throw ⟨message, [error.message]⟩

/-- The source of a module below a root directory. -/
def fetch (files : FileSystem m) (directory : Directory) (url : String) :
    m (Except FetchError String) :=
  match directory.pathFor? url with
  | none => return .error (.invalidUrl url)
  | some path => do
    match ← files.read path with
    | .ok text => return .ok text
    | .error .missing => return .error (.notFound url)
    | .error error => return .error (.unreadable path error.message)

/-- The modules that a source imports itself. -/
def dependencies : Except FetchError String → List String
  | .ok text =>
    let declarations := ((ModuleTree.ofText? text).map ModuleTree.declarations).getD []
    declarations.filterMap fun
      | .import url _ _ => some url
      | _ => none
  | .error _ => []

/-- The sources of modules and of everything that they import. -/
def gather (files : FileSystem m) (directory : Directory) :
    Nat → List String → Sources → m Sources
  | 0, _, sources => return sources
  | _, [], sources => return sources
  | steps + 1, url :: rest, sources => do
    if sources.contains url then
      gather files directory steps rest sources
    else
      let source ← fetch files directory url
      gather files directory steps (dependencies source ++ rest) (sources.insert url source)

/-- A workspace with the sources that a module needs. -/
def openWorkspace (files : FileSystem m) (steps : Nat) (invocation : Invocation) (url : String) :
    Progress m Workspace := do
  let options ← loadOptions files invocation
  let directory : Directory := { root := invocation.root }
  let sources ← ExceptT.lift (gather files directory steps [options.coreUrl, url] ∅)
  return Workspace.ofSources options sources

def perform {α : Type} (host : Host α) (workspace : Workspace) : Progress m (α × Workspace) :=
  match host.run workspace with
  | .ok answer workspace => return (answer, workspace)
  | .error (.error error) _ => throw ⟨error.message, error.causes⟩
  | .error .exhausted _ => throw ⟨"Too few steps allowed", []⟩

def padRight (width : Nat) (text : String) : String :=
  text ++ String.ofList (List.replicate (width - text.length) ' ')

def moduleLine (module : Module) : String :=
  let digest := String.ofList (module.checksum.toList.take 12)
  s!"{padRight 24 module.url} {digest} ({module.classes.length} classes)\n"

def moduleJson (module : Module) : Json := .object [
  ("checksum", .string module.checksum),
  ("classes", .number (.natural module.classes.length)),
  ("license", .string module.license),
  ("url", .string module.url)]

/-- Imports a module and lists everything that was imported. -/
def check (files : FileSystem m) (steps : Nat) (invocation : Invocation) (url : String)
    (asJson : Bool) : Progress m String := do
  let workspace ← openWorkspace files steps invocation url
  let (_, workspace) ← perform (Workspace.import url) workspace
  let modules := workspace.modules.modules.toList
  if asJson then
    return (Json.list (modules.map moduleJson)).pretty ++ "\n"
  else
    return String.join (modules.map moduleLine) ++ s!"ok: {url}\n"

/-- Runs the main class of a module and shows what can be reached from the main object. -/
def run (files : FileSystem m) (steps : Nat) (invocation : Invocation) (url : String)
    (output : Option String) : Progress m String := do
  let workspace ← openWorkspace files steps invocation url
  let (main, workspace) ← perform (Workspace.runMain steps url) workspace
  let snapshot := workspace.snapshot (.object main)
  match output with
  | none => return snapshot.toText ++ "\n"
  | some path =>
    match ← ExceptT.lift (files.write path snapshot.toText) with
    | .ok () => return s!"Wrote {snapshot.count} entities to {path}\n"
    | .error error => throw ⟨"Failed to write " ++ path, [error.message]⟩

/-- Rebuilds what a snapshot holds and shows it again. -/
def restore (files : FileSystem m) (steps : Nat) (invocation : Invocation) (url path : String) :
    Progress m String := do
  let workspace ← openWorkspace files steps invocation url
  match ← readFile files path with
  | .error error => throw ⟨"Failed to read " ++ path, [error.message]⟩
  | .ok text =>
    let some snapshot := Snapshot.ofText? text | throw ⟨"Invalid snapshot in " ++ path, []⟩
    let (_, workspace) ← perform (Workspace.import url) workspace
    let (root, workspace) ← perform (Workspace.restore steps snapshot) workspace
    return (workspace.snapshot root).toText ++ "\n"

def execute (files : FileSystem m) (steps : Nat) (invocation : Invocation) : Progress m String :=
  match invocation.action with
  | .check url asJson => check files steps invocation url asJson
  | .run url output => run files steps invocation url output
  | .restore url path => restore files steps invocation url path

def usage : String :=
  "Usage: weft [--root DIRECTORY] [--config FILE] check URL [--json]\n" ++
  "       weft [--root DIRECTORY] [--config FILE] run URL [--output FILE]\n" ++
  "       weft [--root DIRECTORY] [--config FILE] restore URL SNAPSHOT\n"

def refuse : Refusal → Outcome
  | .help => { output := usage }
  | .version => { output := "weft 0.2.0\n" }
  | .mistaken => { code := 2, errors := usage }

end Command

/-- Carries out a command line. -/
def runCommand {m : Type → Type} [Monad m] (files : FileSystem m) (steps : Nat)
    (args : List String) : m Outcome :=
  match Invocation.ofArgs args with
  | .error refusal => return Command.refuse refusal
  | .ok invocation => do
    match ← (Command.execute files steps invocation).run with
    | .ok output => return { output }
    | .error failure => return { code := 1, errors := failure.report }

end Attire
