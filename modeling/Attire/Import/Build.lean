import Attire.Import.Body
import Attire.Import.Error
import Attire.Import.Hierarchy
import Attire.Machine.Basic
import Attire.Options
import Attire.Sha256
import Attire.Syntax.Decode

namespace Attire

/-! Importing modules.  A module is read, the modules that it needs are imported, its names are
resolved, and its classes are composed, checked and compiled. -/

/-- Source texts by the addresses of their modules. -/
abbrev Sources := Table String (Except FetchError String)

def Sources.fetch (sources : Sources) (url : String) : Except FetchError String :=
  (sources.get? url).getD (.error (.notFound url))

structure Workspace where
  options : Options := {}
  sources : Sources := ∅
  modules : ModuleRegistry := {}
  machine : Machine := {}
deriving Inhabited

/-- An import changes the workspace, also when it fails. -/
abbrev Importing (α : Type) := EStateM ImportError Workspace α

/-- Copyright notices and the one license of a module. -/
def notices (url : String) (tree : ModuleTree) :
    Except ResolveCause (List String × String) :=
  let copyright := tree.declarations.filterMap fun
    | .copyright text _ => some text
    | _ => none
  let licenses := tree.declarations.filterMap fun
    | .license text _ => some text
    | _ => none
  if copyright.isEmpty then .error (.missingCopyright url)
  else
    match licenses with
    | [license] => .ok (copyright, license)
    | _ => .error (.licenseCount url licenses.length)

/-- A module under construction. -/
structure ModuleDraft where
  id : ModuleId
  url : String
  privileged : Bool
  symbols : SymbolTable := {}
  exports : ExportTable := ∅
  main : Option ClassId := none
  classes : List (ClassId × ClassDecl) := []
  fabrics : List Value := []
deriving Inhabited

namespace ModuleDraft

def addLocal (draft : ModuleDraft) (name : String) (target : Target) (span : Span) :
    Except ResolveError ModuleDraft :=
  match draft.symbols.defineLocal? name target span with
  | some symbols => .ok { draft with symbols }
  | none => .error ⟨.duplicateSymbol name, some span⟩

def exportIf (draft : ModuleDraft) (exported : Bool) (name : String) (target : Target) :
    ModuleDraft :=
  if exported then { draft with exports := draft.exports.insert name target } else draft

def scope (draft : ModuleDraft) (modules : ModuleRegistry) : NameScope :=
  ⟨modules, draft.symbols⟩

/-- The names that the module's aliases and wildcards bring, in the order of declaration. -/
def addNames (modules : ModuleRegistry) (draft : ModuleDraft) :
    Decl → Except ResolveError ModuleDraft
  | .«alias» name path exported span => do
    let target ← ((draft.scope modules).resolve path).mapError fun cause => ⟨cause, some span⟩
    let draft ← draft.addLocal name target span
    return draft.exportIf exported name target
  | .wildcard path span => do
    let source ← ((draft.scope modules).resolveModule path).mapError fun cause =>
      ⟨cause, some span⟩
    let exports := ((modules.get? source).map Module.exports).getD ∅
    let symbols := exports.entries.foldl
      (fun symbols entry => symbols.defineNonlocal entry.1 entry.2 span) draft.symbols
    return { draft with symbols }
  | _ => .ok draft

def addMain (modules : ModuleRegistry) (draft : ModuleDraft) : Decl → Except ResolveError ModuleDraft
  | .main path span =>
    if draft.main.isSome then
      .error ⟨.mainRedeclared, some span⟩
    else do
      let cls ← ((draft.scope modules).resolveClass path).mapError fun cause =>
        ⟨cause, some span⟩
      return { draft with main := some cls }
  | _ => .ok draft

/-- A class of the core module, which may be this one. -/
def coreClass? (draft : ModuleDraft) (modules : ModuleRegistry) (options : Options)
    (name : String) : Option ClassId :=
  let symbols :=
    if draft.url = options.coreUrl then some draft.symbols
    else (modules.getByUrl? options.coreUrl).map Module.symbols
  match symbols.bind fun symbols => symbols.lookup name with
  | some ⟨.cls id, _, _⟩ => some id
  | _ => none

def fabric? (draft : ModuleDraft) (modules : ModuleRegistry) (id : FabricId) : Option Value :=
  if id.module = draft.id then draft.fabrics[id.index]? else modules.fabric? id

end ModuleDraft

/-- All lines of a fabric have as many characters as the first one. -/
def isRagged (lines : List String) : Bool :=
  lines.any fun line => some line.length ≠ lines.head?.map String.length

namespace Workspace

def orFail {α ε : Type} (wrap : ε → ImportError) (result : Except ε α) : Importing α :=
  match result with
  | .ok value => return value
  | .error error => throw (wrap error)

def onMachine {α : Type} (change : Machine → α × Machine) : Importing α :=
  modifyGet fun workspace =>
    let (answer, machine) := change workspace.machine
    (answer, { workspace with machine })

def onClasses {α : Type} (change : ClassRegistry → α × ClassRegistry) : Importing α :=
  onMachine fun machine =>
    let (answer, classes) := change machine.classes
    (answer, { machine with classes })

/-- The array that holds the lines of a fabric. -/
def weave (lines : List String) : Importing Value := onMachine fun machine =>
  match (Machine.newArray (lines.map Value.text).toArray).run machine with
  | .ok value machine => (value, machine)
  | .error _ machine => (.null, machine)

/-- Enters a class or a fabric of the module. -/
def declare (draft : ModuleDraft) (decl : Decl) : Importing ModuleDraft := do
  let wrap := ImportError.resolve draft.url
  match decl with
  | .cls cls =>
    let id ← onClasses fun classes => classes.declare cls.name draft.url draft.id cls.span
    let draft := { draft with classes := draft.classes ++ [(id, cls)] }
    let draft ← orFail wrap (draft.addLocal cls.name (.cls id) cls.span)
    return draft.exportIf cls.exported cls.name (.cls id)
  | .fabric fabric =>
    if isRagged fabric.lines then
      throw (wrap ⟨.raggedFabric fabric.name, some fabric.span⟩)
    let target := Target.fabric ⟨draft.id, draft.fabrics.length⟩
    let value ← weave fabric.lines
    let draft := { draft with fabrics := draft.fabrics ++ [value] }
    let draft ← orFail wrap (draft.addLocal fabric.name target fabric.span)
    return draft.exportIf fabric.exported fabric.name target
  | _ => return draft

/-- Composes, checks and compiles the classes of a module whose names are known. -/
def complete (draft : ModuleDraft) : Importing Unit := do
  let url := draft.url
  let workspace ← get
  let modules := workspace.modules
  let options := workspace.options
  let root := draft.coreClass? modules options options.rootClass
  if root.isNone && !draft.privileged then
    throw (.resolve url ⟨.missingRootClass options.rootClass, none⟩)
  let names := draft.scope modules
  let specs ← orFail (.resolve url) <| draft.classes.mapM fun (id, decl) => do
    return (id, ← classSpec names draft.privileged root id decl)
  let classes ← orFail (.compose url) (composeAll workspace.machine.classes specs)
  let ctx : CheckContext := {
    classes
    names
    rootClass := root
    clonableClass := draft.coreClass? modules options options.clonableClass }
  let bodies := draft.classes.flatMap fun (id, decl) => Body.ofClass classes id decl
  let bodies ← orFail (.check url) (bodies.mapM (Body.check ctx))
  let installations ←
    orFail (.lowering url) (bodies.mapM (Body.lower classes (draft.fabric? modules)))
  onClasses fun _ => ((), (installations.filterMap id).foldl Installation.apply classes)

/-- How many classes stay after a failed import that began with `mark` of them: those of all
modules that were completed. -/
def ownedClasses (modules : ModuleRegistry) (mark : Nat) : Nat :=
  modules.modules.foldl
    (fun count module => module.classes.foldl (fun count id => max count (id.index + 1)) count)
    mark

/-- Takes back the classes of a module that failed. -/
def rollBack (mark : Nat) : Importing Unit := modify fun workspace =>
  let keep := ownedClasses workspace.modules mark
  match (Machine.truncateClasses keep).run workspace.machine with
  | .ok _ machine | .error _ machine => { workspace with machine }

/-- Every module but the core module needs the core module.  `load` imports one module. -/
def loadCore (load : String → Importing ModuleId) (options : Options) (url : String) :
    Importing (Option ModuleId) :=
  if url = options.coreUrl then return none else some <$> load options.coreUrl

/-- The modules that a declaration imports, under the names that it gives them. -/
def loadImport (load : String → Importing ModuleId) :
    Decl → Importing (Option (String × ModuleId × Span))
  | .import dependency name span => do return some (name, ← load dependency, span)
  | _ => return none

/-- Imports the dependencies of a module and builds it. -/
def build (load : String → Importing ModuleId) (url : String) (tree : ModuleTree) :
    Importing ModuleDraft := do
  let options := (← get).options
  let core ← loadCore load options url
  let imports ← tree.declarations.filterMapM (loadImport load)
  let modules := (← get).modules
  let draft : ModuleDraft := {
    id := modules.nextId
    url
    privileged := options.isPrivileged url
    symbols :=
      match core with
      | some id => ({} : SymbolTable).defineNonlocal "core" (.module id) {}
      | none => {} }
  let wrap := ImportError.resolve url
  let draft ← imports.foldlM
    (fun draft (name, id, span) => orFail wrap (draft.addLocal name (.module id) span)) draft
  let draft ← tree.declarations.foldlM declare draft
  let draft ← orFail wrap (tree.declarations.foldlM (ModuleDraft.addNames modules) draft)
  let draft ← orFail wrap (tree.declarations.foldlM (ModuleDraft.addMain modules) draft)
  complete draft
  return draft

/-- Imports a module that is needed by the modules of `chain`, the outermost first.  Every module
of the chain has a source of its own, so a chain longer than the table of sources leads to a
module without one. -/
def importBelow : Nat → List String → String → Importing ModuleId
  | 0, _, url => throw (.fetch url (.notFound url))
  | steps + 1, chain, url => do
    let workspace ← get
    match workspace.modules.find? url with
    | some id => return id
    | none =>
      if url ∈ chain then
        throw (.cycle (chain.dropWhile (· ≠ url) ++ [url]))
      let text ← orFail (.fetch url) (workspace.sources.fetch url)
      let some tree := ModuleTree.ofText? text | throw (.malformed url)
      let (copyright, license) ←
        orFail (fun cause => .resolve url ⟨cause, none⟩) (notices url tree)
      let mark := workspace.machine.classes.size
      let draft ←
        tryCatch (build (importBelow steps (chain ++ [url])) url tree) fun error => do
          rollBack mark
          throw error
      modifyGet fun workspace =>
        let (id, modules) := workspace.modules.register {
          id := draft.id
          url
          privileged := draft.privileged
          checksum := Sha256.hexOfText text
          symbols := draft.symbols
          exports := draft.exports
          main := draft.main
          classes := draft.classes.map Prod.fst
          fabrics := draft.fabrics
          copyright
          license }
        (id, { workspace with modules })

def importModule (url : String) : Importing ModuleId := do
  importBelow ((← get).sources.size + 1) [] url

end Workspace

end Attire
