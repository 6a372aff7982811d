import Attire.Toml.Document

namespace Attire

/-! Settings of an engine. -/

structure Options where
  coreUrl : String := "weft:core"
  rootClass : String := "Object"
  clonableClass : String := "Clonable"
  entryMethod : String := "init"
  privileged : List String := []
  maxCallDepth : Nat := 256
deriving DecidableEq, Inhabited, Repr

inductive OptionsError
  | malformed
  | emptyCoreUrl
  | emptyRootOrEntry
  | noCallDepth
deriving DecidableEq, Repr

def OptionsError.message : OptionsError → String
  | malformed => "Failed to parse configuration"
  | emptyCoreUrl => "Invalid configuration: core_url cannot be empty"
  | emptyRootOrEntry => "Invalid configuration: root_class and entry_method cannot be empty"
  | noCallDepth => "Invalid configuration: runtime.max_call_depth must be at least 1"

namespace Options

def validate (options : Options) : Except OptionsError Options :=
  if options.coreUrl.isEmpty then .error .emptyCoreUrl
  else if options.rootClass.isEmpty || options.entryMethod.isEmpty then .error .emptyRootOrEntry
  else if options.maxCallDepth = 0 then .error .noCallDepth
  else .ok options

def isPrivileged (options : Options) (url : String) : Bool :=
  url = options.coreUrl || url ∈ options.privileged

open Toml (Value Entries)

def asText : Value → Option String
  | .scalar (.text value) => some value
  | _ => none

def asTexts : Value → Option (List String)
  | .list items => items.mapM asText
  | _ => none

def asNatural : Value → Option Nat
  | .scalar (.integer value) => if 0 ≤ value then some value.toNat else none
  | _ => none

def setting {α : Type} (entries : Entries) (key : String) (read : Value → Option α)
    (default : α) : Option α :=
  match entries.get? key with
  | some value => read value
  | none => some default

/-- Runtime settings come by name, or listed in order. -/
def asCallDepth (default : Nat) : Value → Option Nat
  | .table _ _ _ entries => setting entries "max_call_depth" asNatural default
  | .list [] => some default
  | .list (value :: _) => asNatural value
  | .tables _ | .scalar _ => none

def ofEntries? (entries : Entries) : Option Options := do
  let base : Options := {}
  return {
    coreUrl := ← setting entries "core_url" asText base.coreUrl
    rootClass := ← setting entries "root_class" asText base.rootClass
    clonableClass := ← setting entries "clonable_class" asText base.clonableClass
    entryMethod := ← setting entries "entry_method" asText base.entryMethod
    privileged := ← setting entries "privileged" asTexts base.privileged
    maxCallDepth := ← setting entries "runtime" (asCallDepth base.maxCallDepth) base.maxCallDepth }

def ofToml (text : String) : Except OptionsError Options :=
  match (Toml.ofText? text).bind ofEntries? with
  | some options => options.validate
  | none => .error .malformed

end Options

end Attire
