import Attire.Command.Basic

namespace Attire

/-! The command line program. -/

def fileErrorOf : IO.Error → FileError
  | .noFileOrDirectory .. => .missing
  | .inappropriateType _ 20 _ => .notADirectory
  | .inappropriateType _ 21 _ => .isADirectory
  | error => .other (toString error)

def readIn (path : String) : IO (Except FileError String) := do
  try
    return .ok (← IO.FS.readFile path)
  catch error =>
    return .error (fileErrorOf error)

def writeOut (path text : String) : IO (Except FileError Unit) := do
  try
    IO.FS.writeFile path text
    return .ok ()
  catch error =>
    return .error (fileErrorOf error)

/-- The files of the machine. -/
def FileSystem.ofMachine : FileSystem IO where
  read := readIn
  isFile := fun path => return (← readIn path).toOption.isSome
  write := writeOut

end Attire

def main (args : List String) : IO UInt32 := do
  let outcome ← Attire.runCommand Attire.FileSystem.ofMachine (1 <<< 60) args
  IO.print outcome.output
  IO.eprint outcome.errors
  return outcome.code.toUInt32
