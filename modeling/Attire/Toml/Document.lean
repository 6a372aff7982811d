import Attire.Toml.Scalar

namespace Attire.Toml

/-! TOML documents.  A table is defined once; a table that only other definitions imply may still
be defined. -/

inductive Value
  | scalar (value : Scalar)
  | list (items : List Value)
  /-- A table.  An implied one stands around another definition; a dotted one comes of a dotted
  key; a closed one was written in one piece. -/
  | table (implied dotted closed : Bool) (entries : List (String × Value))
  /-- Tables with one header, the latest first. -/
  | tables (items : List Value)
deriving Repr, Inhabited

abbrev Entries := List (String × Value)

namespace Entries

def get? (entries : Entries) (key : String) : Option Value :=
  (entries.find? fun entry => entry.1 = key).map Prod.snd

def set (key : String) (value : Value) : Entries → Entries
  | [] => [(key, value)]
  | (other, old) :: rest =>
    if other = key then (key, value) :: rest else (other, old) :: set key value rest

end Entries

/-- Changes the entries of the table that a path leads to.  Tables on the way that do not exist
are implied; a path of a dotted key enters implied tables only. -/
def descend (dotted : Bool) (change : Bool → Entries → Option Entries) :
    List String → Bool → Entries → Option Entries
  | [], lastDotted, entries => change lastDotted entries
  | key :: path, _, entries => do
    let value ←
      match entries.get? key with
      | none => return entries.set key (.table true dotted false
          (← descend dotted change path dotted []))
      | some (.table implied isDotted false inner) =>
        if dotted && !implied then
          none
        pure (.table implied isDotted false (← descend dotted change path isDotted inner))
      | some (.tables (.table implied isDotted closed inner :: earlier)) =>
        pure (.tables
          (.table implied isDotted closed (← descend dotted change path isDotted inner) :: earlier))
      | some _ => none
    return entries.set key value

/-- Enters a value under a dotted key.  A dotted key adds only to tables that dotted keys made,
and a plain key only to others. -/
def enter (path : List String) (value : Value) (entries : Entries) : Option Entries :=
  let parents := path.dropLast
  descend true
    (fun isDotted inner =>
      match path.getLast? with
      | none => none
      | some key =>
        if isDotted = parents.isEmpty || (inner.get? key).isSome then none
        else some (inner.set key value))
    parents false entries

/-- Defines the table of a header. -/
def define (path : List String) (entries : Entries) : Option Entries :=
  descend false
    (fun _ inner =>
      match path.getLast? with
      | none => none
      | some key =>
        match inner.get? key with
        | none => some (inner.set key (.table false false false []))
        | some (.table true false false old) => some (inner.set key (.table false false false old))
        | some _ => none)
    path.dropLast false entries

/-- Adds a table to those of a double header. -/
def append (path : List String) (entries : Entries) : Option Entries :=
  descend false
    (fun _ inner =>
      match path.getLast? with
      | none => none
      | some key =>
        let fresh := Value.table false false false []
        match inner.get? key with
        | none => some (inner.set key (.tables [fresh]))
        | some (.tables items) => some (inner.set key (.tables (fresh :: items)))
        | some _ => none)
    path.dropLast false entries

/-- Enters a value under a dotted key of the table that a header names. -/
def enterAt (header path : List String) (value : Value) (entries : Entries) : Option Entries :=
  descend false (fun _ inner => enter path value inner) header false entries

def skipComment (input : List Char) : Option (List Char) :=
  match input with
  | '#' :: rest =>
    let rest := rest.dropWhile fun c => !isControl c
    if rest.isEmpty || (newline? rest).isSome then some rest else none
  | rest => some rest

/-- Skips blanks, newlines and comments. -/
def skipSpace : Nat → List Char → Option (List Char)
  | 0, _ => none
  | steps + 1, input => do
    let rest ← skipComment (skipBlank input)
    match newline? rest with
    | some rest => skipSpace steps rest
    | none => return rest

mutual

def readValue : Nat → List Char → Option (Value × List Char)
  | 0, _ => none
  | steps + 1, input =>
    match input with
    | '[' :: rest =>
      (readItems steps rest).map fun (items, rest) => (.list items, rest)
    | '{' :: rest =>
      match skipBlank rest with
      | '}' :: rest => some (.table false false true [], rest)
      | rest =>
        (readPairs steps [] rest).map fun (entries, rest) =>
          (.table false false true entries, rest)
    | _ => (readScalar input).map fun (scalar, rest) => (.scalar scalar, rest)

/-- The items of a list, after its opening bracket or a comma. -/
def readItems : Nat → List Char → Option (List Value × List Char)
  | 0, _ => none
  | steps + 1, input => do
    match ← skipSpace (input.length + 1) input with
    | ']' :: rest => return ([], rest)
    | rest =>
      let (item, rest) ← readValue steps rest
      match ← skipSpace (rest.length + 1) rest with
      | ']' :: rest => return ([item], rest)
      | ',' :: rest =>
        let (items, rest) ← readItems steps rest
        return (item :: items, rest)
      | _ => none

/-- The pairs of a table in one piece, which has no comma after the last one. -/
def readPairs : Nat → Entries → List Char → Option (Entries × List Char)
  | 0, _, _ => none
  | steps + 1, entries, input => do
    let (path, rest) ← readKey (input.length + 1) input
    match rest with
    | '=' :: rest =>
      let (value, rest) ← readValue steps (skipBlank rest)
      let entries ← enter path value entries
      match skipBlank rest with
      | '}' :: rest => return (entries, rest)
      | ',' :: rest => readPairs steps entries rest
      | _ => none
    | _ => none

end

/-- The rest of a line after an expression: blanks and a comment. -/
def endLine (input : List Char) : Option (List Char) := do
  let rest ← skipComment (skipBlank input)
  if rest.isEmpty then
    return []
  newline? rest

structure Draft where
  header : List String := []
  entries : Entries := []

def readHeader (draft : Draft) (input : List Char) : Option (Draft × List Char) := do
  match input with
  | '[' :: '[' :: rest =>
    let (path, rest) ← readKey (rest.length + 1) rest
    match rest with
    | ']' :: ']' :: rest =>
      return ({ header := path, entries := ← append path draft.entries }, rest)
    | _ => none
  | '[' :: rest =>
    let (path, rest) ← readKey (rest.length + 1) rest
    match rest with
    | ']' :: rest => return ({ header := path, entries := ← define path draft.entries }, rest)
    | _ => none
  | _ =>
    let (path, rest) ← readKey (input.length + 1) input
    match rest with
    | '=' :: rest =>
      let (value, rest) ← readValue (2 * rest.length + 2) (skipBlank rest)
      return ({ draft with entries := ← enterAt draft.header path value draft.entries }, rest)
    | _ => none

def readLines : Nat → Draft → List Char → Option Entries
  | 0, _, _ => none
  | steps + 1, draft, input => do
    let rest ← skipSpace (input.length + 1) input
    if rest.isEmpty then
      return draft.entries
    let (draft, rest) ← readHeader draft rest
    readLines steps draft (← endLine rest)

/-- The entries of the root table of a document. -/
def ofText? (text : String) : Option Entries :=
  let input := text.toList
  let input := if input.head? = some (Char.ofNat 0xFEFF) then input.drop 1 else input
  readLines (input.length + 1) {} input

end Attire.Toml
