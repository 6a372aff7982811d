namespace Attire

/-! Where the source of a module lies below a root directory. -/

structure Directory where
  root : String
  extension : String := "json"
deriving DecidableEq, Inhabited, Repr

namespace Directory

def withExtension (directory : Directory) (extension : String) : Directory :=
  { directory with extension := String.ofList (extension.toList.dropWhile (· = '.')) }

/-- The parts of a text between the characters that `isMark` accepts. -/
def splitAt (isMark : Char → Bool) : List Char → List (List Char)
  | [] => [[]]
  | c :: rest =>
    let parts := splitAt isMark rest
    if isMark c then
      [] :: parts
    else
      match parts with
      | part :: others => (c :: part) :: others
      | [] => [[c]]

/-- Colons and slashes separate the segments of an address. -/
def segments (url : List Char) : List (List Char) := splitAt (fun c => c = ':' || c = '/') url

/-- Segments that name nothing, leave the directory or hold a backslash lead nowhere. -/
def isPlain (segment : List Char) : Bool :=
  !segment.isEmpty && segment ≠ ['.'] && segment ≠ ['.', '.'] && !segment.contains '\\'

/-- A file name up to its last dot, unless that is its first character. -/
def stem (name : List Char) : List Char :=
  let back := name.reverse.dropWhile (· ≠ '.')
  match back with
  | [] => name
  | _ :: [] => name
  | _ :: front => front.reverse

def setExtension (extension name : List Char) : List Char :=
  if extension.isEmpty then stem name else stem name ++ '.' :: extension

/-- A path and a name below it. -/
def join (path name : List Char) : List Char :=
  if path.isEmpty || path.getLast? = some '/' then path ++ name else path ++ '/' :: name

def joinAll (extension : List Char) (path : List Char) : List (List Char) → List Char
  | [] => path
  | [name] => join path (setExtension extension name)
  | segment :: rest => joinAll extension (join path segment) rest

/-- The file for an address, if every segment of it is plain. -/
def pathFor? (directory : Directory) (url : String) : Option String :=
  let parts := segments url.toList
  if parts.all isPlain then
    some (String.ofList (joinAll directory.extension.toList directory.root.toList parts))
  else
    none

end Directory

end Attire
