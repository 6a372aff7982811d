namespace Attire

/-! What a command tells its user. -/

structure Outcome where
  code : Nat := 0
  output : String := ""
  errors : String := ""
deriving DecidableEq, Inhabited, Repr

/-- A failure and what lies behind it, the nearest cause first. -/
structure Failure where
  message : String
  causes : List String := []
deriving DecidableEq, Inhabited, Repr

namespace Failure

/-- Further lines of a cause stand below its first one. -/
def indented (first others text : String) : String :=
  first ++ ("\n" ++ others).intercalate (text.splitOn "\n")

/-- Several causes are numbered. -/
def causeLines : List String → List String
  | [cause] => [indented "    " "    " cause]
  | causes => causes.mapIdx fun number cause => indented s!"    {number}: " "       " cause

def report (failure : Failure) : String :=
  let lines :=
    if failure.causes.isEmpty then []
    else "" :: "Caused by:" :: causeLines failure.causes
  "\n".intercalate (("Error: " ++ failure.message) :: lines) ++ "\n"

end Failure

end Attire
