import Attire.Table

namespace Attire

/-! Command lines. -/

inductive Action
  | check (url : String) (asJson : Bool)
  | run (url : String) (output : Option String)
  | restore (url snapshot : String)
deriving DecidableEq, Repr

structure Invocation where
  root : String := "."
  config : Option String := none
  action : Action
deriving DecidableEq, Repr

/-- Why a command line starts nothing. -/
inductive Refusal
  | help
  | version
  | mistaken
deriving DecidableEq, Repr

/-- Options that have a value. -/
inductive Setting
  | root
  | config
  | output
deriving DecidableEq, Repr

/-- A command line up to some argument. -/
structure CommandLine where
  command : Option String := none
  /-- Options before the command and after it.  Each may have its own value, of which the later
  one counts. -/
  outer : Table Setting String := ∅
  inner : Table Setting String := ∅
  asJson : Bool := false
  operands : List String := []
  /-- The option whose value comes next. -/
  pending : Option Setting := none
  /-- Whether what follows holds no options. -/
  literal : Bool := false

namespace CommandLine

def commands : List String := ["check", "run", "restore"]

def looksLikeOption (arg : String) : Bool := arg.startsWith "-" && arg ≠ "-"

def assign (line : CommandLine) (setting : Setting) (value : String) :
    Except Refusal CommandLine :=
  let line := { line with pending := none }
  if value.isEmpty then .error .mistaken
  else if line.command.isNone then
    if line.outer.contains setting then .error .mistaken
    else .ok { line with outer := line.outer.insert setting value }
  else if line.inner.contains setting then .error .mistaken
  else .ok { line with inner := line.inner.insert setting value }

def addOperand (line : CommandLine) (arg : String) : Except Refusal CommandLine :=
  if line.command.isSome then .ok { line with operands := line.operands ++ [arg] }
  else if line.literal then .error .mistaken
  else if arg ∈ commands then .ok { line with command := some arg }
  else if arg = "help" then .error .help
  else .error .mistaken

/-- The option with a value that a name stands for at this place. -/
def setting? (line : CommandLine) (name : List Char) : Option Setting :=
  if name = "root".toList then some .root
  else if name = "config".toList then some .config
  else if name = "output".toList ∧ line.command = some "run" then some .output
  else none

def addLong (line : CommandLine) (option : List Char) : Except Refusal CommandLine :=
  let name := option.takeWhile (· ≠ '=')
  let value := option.drop name.length
  if value.isEmpty ∧ name = "help".toList then .error .help
  else if value.isEmpty ∧ name = "version".toList ∧ line.command.isNone then .error .version
  else if value.isEmpty ∧ name = "json".toList ∧ line.command = some "check" ∧ !line.asJson then
    .ok { line with asJson := true }
  else
    match line.setting? name, value with
    | none, _ => .error .mistaken
    | some setting, [] => .ok { line with pending := some setting }
    | some setting, _ :: value => line.assign setting (String.ofList value)

def addShort (line : CommandLine) (option : List Char) : Except Refusal CommandLine :=
  match option with
  | 'h' :: _ => .error .help
  | 'V' :: _ => if line.command.isNone then .error .version else .error .mistaken
  | 'o' :: value =>
    if line.command = some "run" then
      match value with
      | [] => .ok { line with pending := some .output }
      | '=' :: value | value => line.assign .output (String.ofList value)
    else
      .error .mistaken
  | _ => .error .mistaken

def add (line : CommandLine) (arg : String) : Except Refusal CommandLine :=
  match line.pending with
  | some setting => if looksLikeOption arg then .error .mistaken else line.assign setting arg
  | none =>
    if line.literal || !looksLikeOption arg then line.addOperand arg
    else
      match arg.toList with
      | ['-', '-'] => .ok { line with literal := true }
      | '-' :: '-' :: option => line.addLong option
      | option => line.addShort (option.drop 1)

def action (line : CommandLine) : Except Refusal Action :=
  match line.command, line.operands with
  | some "check", [url] => .ok (.check url line.asJson)
  | some "run", [url] => .ok (.run url (line.inner.get? .output))
  | some "restore", [url, snapshot] =>
    if snapshot.isEmpty then .error .mistaken else .ok (.restore url snapshot)
  | _, _ => .error .mistaken

def finish (line : CommandLine) : Except Refusal Invocation := do
  if line.pending.isSome then
    throw .mistaken
  let value (setting : Setting) : Option String :=
    (line.inner.get? setting).or (line.outer.get? setting)
  return {
    root := (value .root).getD "."
    config := value .config
    action := ← line.action }

end CommandLine

def Invocation.ofArgs (args : List String) : Except Refusal Invocation := do
  (← args.foldlM CommandLine.add {}).finish

end Attire
