import Attire.Table

namespace Attire

/-! Files, as commands see them. -/

inductive FileError
  | missing
  | notADirectory
  | isADirectory
  | nameTooLong
  | nulInName
  | other (reason : String)
deriving DecidableEq, Repr

def FileError.message : FileError → String
  | missing => "No such file or directory (os error 2)"
  | notADirectory => "Not a directory (os error 20)"
  | isADirectory => "Is a directory (os error 21)"
  | nameTooLong => "File name too long (os error 36)"
  | nulInName => "file name contained an unexpected NUL byte"
  | other reason => reason

/-- What commands need to know about a place where files are kept. -/
structure FileSystem (m : Type → Type) where
  read : String → m (Except FileError String)
  isFile : String → m Bool
  write : String → String → m (Except FileError Unit)

/-- Files by the names on the way to them.  A directory is there because of the files in it. -/
structure FileTree where
  files : Table (List String) String := ∅
deriving Inhabited

namespace FileTree

/-- Where a path leads. -/
inductive Spot
  | directory
  | file (text : String)
  | vacant (path : List String)
deriving Repr

def isDirectory (tree : FileTree) (path : List String) : Bool :=
  path.isEmpty || tree.files.keys.any fun file => path.isPrefixOf file && path ≠ file

/-- Follows names from a directory.  Nothing is known above the topmost one. -/
def walk (tree : FileTree) (here : List String) : List String → Except FileError Spot
  | [] => .ok .directory
  | name :: rest =>
    if name = "" ∨ name = "." then walk tree here rest
    else if name = ".." then
      if here.isEmpty then .error .missing else walk tree here.dropLast rest
    else if 255 < name.utf8ByteSize then .error .nameTooLong
    else
      let next := here ++ [name]
      match tree.files.get? next with
      | some text => if rest.isEmpty then .ok (.file text) else .error .notADirectory
      | none =>
        if tree.isDirectory next then walk tree next rest
        else if rest.all (· = "") then .ok (.vacant next)
        else .error .missing

/-- Relative paths start at the top of the tree; absolute ones lead out of it. -/
def find (tree : FileTree) (path : String) : Except FileError Spot :=
  if path.toList.contains (Char.ofNat 0) then .error .nulInName
  else if 4096 ≤ path.utf8ByteSize then .error .nameTooLong
  else if path.isEmpty || path.startsWith "/" then .error .missing
  else tree.walk [] (path.splitOn "/")

def read (tree : FileTree) (path : String) : Except FileError String :=
  match tree.find path with
  | .ok (.file text) => .ok text
  | .ok .directory => .error .isADirectory
  | .ok (.vacant _) => .error .missing
  | .error error => .error error

def isFile (tree : FileTree) (path : String) : Bool :=
  match tree.find path with
  | .ok (.file _) => true
  | _ => false

/-- The names on the way to a file, without those that lead nowhere new. -/
def place (path : String) : List String :=
  (path.splitOn "/").foldl
    (fun here name =>
      if name = "" ∨ name = "." then here
      else if name = ".." then here.dropLast
      else here ++ [name])
    []

/-- Overwrites a file, or makes one in a directory that is there. -/
def write (tree : FileTree) (path text : String) : Except FileError FileTree :=
  match tree.find path with
  | .ok (.file _) => .ok ⟨tree.files.insert (place path) text⟩
  | .ok .directory => .error .isADirectory
  | .ok (.vacant spot) =>
    if path.endsWith "/" then .error .isADirectory else .ok ⟨tree.files.insert spot text⟩
  | .error error => .error error

/-- A tree of the given files. -/
def ofList (files : List (String × String)) : FileTree :=
  ⟨files.foldl (fun table (path, text) => table.insert (place path) text) ∅⟩

end FileTree

/-- The files of a tree that commands change. -/
def FileSystem.ofTree : FileSystem (StateM FileTree) where
  read := fun path => return (← get).read path
  isFile := fun path => return (← get).isFile path
  write := fun path text => do
    match (← get).write path text with
    | .ok tree =>
      set tree
      return .ok ()
    | .error error => return .error error

end Attire
