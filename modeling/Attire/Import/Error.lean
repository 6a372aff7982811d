import Attire.Class.Compose
import Attire.Lowering.Basic
import Attire.Typing.Error

namespace Attire

/-! Why an import fails. -/

inductive FetchError
  | notFound (url : String)
  | invalidUrl (url : String)
  | unreadable (path reason : String)
deriving DecidableEq, Repr

def FetchError.message : FetchError → String
  | notFound url => s!"Module not found: {url}"
  | invalidUrl url => s!"Invalid module URL: {url}"
  | unreadable path reason => s!"IO error reading {path}: {reason}"

inductive ImportError
  | fetch (url : String) (error : FetchError)
  | malformed (url : String)
  | resolve (url : String) (error : ResolveError)
  | compose (url : String) (error : ComposeError)
  | check (url : String) (error : CheckError)
  | lowering (url : String) (error : LoweringError)
  | cycle (chain : List String)
deriving DecidableEq, Repr

namespace ImportError

def message : ImportError → String
  | fetch url error => s!"Cannot fetch '{url}': {error.message}"
  | malformed url => s!"Malformed syntax tree for '{url}'"
  | resolve url error => s!"Resolution error in '{url}': {error.message}"
  | compose url error => s!"Class error in '{url}': {error.message}"
  | check url error =>
    s!"Type error in '{url}' at {error.span.line}:{error.span.column}: {error.message}"
  | lowering url error => s!"Code generation error in '{url}': {error.message}"
  | cycle chain => "Circular import: " ++ " -> ".intercalate chain

/-- The module at fault; of a cycle, the one that closes it. -/
def url : ImportError → Option String
  | fetch url _ | malformed url | resolve url _ | compose url _ | check url _ | lowering url _ =>
    some url
  | cycle chain => chain.getLast?

/-- The messages of the errors underneath, from the nearest to the deepest. -/
def causes : ImportError → List String
  | fetch _ (.unreadable path reason) => [(FetchError.unreadable path reason).message, reason]
  | fetch _ error => [error.message]
  | malformed _ | cycle _ => []
  | resolve _ error => [error.message]
  | compose _ error => [error.message]
  | check _ error => [error.message]
  | lowering _ error => [error.message]

end ImportError

end Attire
