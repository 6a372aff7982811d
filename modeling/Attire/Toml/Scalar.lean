namespace Attire.Toml

/-! Keys, texts and other scalars of TOML. -/

/-- The kinds of scalars that no setting needs are read and checked, but not kept. -/
inductive Scalar
  | text (value : String)
  | integer (value : Int)
  | bool (value : Bool)
  | float
  | moment
deriving Repr

def isBlank (c : Char) : Bool := c = ' ' || c = '\t'

def skipBlank (input : List Char) : List Char := input.dropWhile isBlank

/-- Control characters other than the tab stand in no comment and in no text. -/
def isControl (c : Char) : Bool := (c.toNat < 32 && c ≠ '\t') || c.toNat = 127

def newline? : List Char → Option (List Char)
  | '\n' :: rest => some rest
  | '\r' :: '\n' :: rest => some rest
  | _ => none

def hexValue? (c : Char) : Option Nat :=
  if '0' ≤ c ∧ c ≤ '9' then some (c.toNat - 48)
  else if 'a' ≤ c ∧ c ≤ 'f' then some (c.toNat - 87)
  else if 'A' ≤ c ∧ c ≤ 'F' then some (c.toNat - 55)
  else none

/-- The character with a code of exactly `count` hexadecimal digits. -/
def readCode (count : Nat) (input : List Char) : Option (Char × List Char) := do
  let digits := input.take count
  if digits.length ≠ count then
    none
  let code ← digits.foldlM (fun code c => (hexValue? c).map fun digit => 16 * code + digit) 0
  if h : code.isValidChar then
    return (Char.ofNatAux code h, input.drop count)
  none

/-- The character that an escape stands for, after the backslash. -/
def readEscape : List Char → Option (Char × List Char)
  | 'b' :: rest => some (Char.ofNat 8, rest)
  | 't' :: rest => some ('\t', rest)
  | 'n' :: rest => some ('\n', rest)
  | 'f' :: rest => some (Char.ofNat 12, rest)
  | 'r' :: rest => some ('\r', rest)
  | '"' :: rest => some ('"', rest)
  | '\\' :: rest => some ('\\', rest)
  | 'u' :: rest => readCode 4 rest
  | 'U' :: rest => readCode 8 rest
  | _ => none

/-- The rest of a text between single quotation marks of its kind. -/
def readBasic : Nat → List Char → Option (List Char × List Char)
  | 0, _ => none
  | _, '"' :: rest => some ([], rest)
  | steps + 1, '\\' :: rest => do
    let (c, rest) ← readEscape rest
    let (cs, rest) ← readBasic steps rest
    return (c :: cs, rest)
  | steps + 1, c :: rest =>
    if isControl c then none
    else (readBasic steps rest).map fun (cs, rest) => (c :: cs, rest)
  | _, [] => none

def readLiteral : List Char → Option (List Char × List Char)
  | '\'' :: rest => some ([], rest)
  | c :: rest =>
    if isControl c then none
    else (readLiteral rest).map fun (cs, rest) => (c :: cs, rest)
  | [] => none

/-- The end of a text that spans lines: three marks, before which two more may belong to it. -/
def closing? (mark : Char) (input : List Char) : Option (List Char × List Char) :=
  let marks := (input.takeWhile (· = mark)).length
  if marks < 3 then none
  else
    let extra := min (marks - 3) 2
    some (List.replicate extra mark, input.drop (3 + extra))

/-- Skips blanks and newlines after a backslash at the end of a line. -/
def skipLines (input : List Char) : List Char :=
  input.dropWhile fun c => isBlank c || c = '\n' || c = '\r'

def endsLine (input : List Char) : Bool := (newline? (skipBlank input)).isSome

def readLongBasic : Nat → List Char → Option (List Char × List Char)
  | 0, _ => none
  | steps + 1, input =>
    match closing? '"' input with
    | some found => some found
    | none =>
      match input with
      | '\\' :: rest =>
        if endsLine rest then
          readLongBasic steps (skipLines rest)
        else do
          let (c, rest) ← readEscape rest
          let (cs, rest) ← readLongBasic steps rest
          return (c :: cs, rest)
      | c :: rest =>
        match newline? input with
        | some rest => (readLongBasic steps rest).map fun (cs, rest) => ('\n' :: cs, rest)
        | none =>
          if isControl c then none
          else (readLongBasic steps rest).map fun (cs, rest) => (c :: cs, rest)
      | [] => none

def readLongLiteral : Nat → List Char → Option (List Char × List Char)
  | 0, _ => none
  | steps + 1, input =>
    match closing? '\'' input with
    | some found => some found
    | none =>
      match newline? input with
      | some rest => (readLongLiteral steps rest).map fun (cs, rest) => ('\n' :: cs, rest)
      | none =>
        match input with
        | c :: rest =>
          if isControl c then none
          else (readLongLiteral steps rest).map fun (cs, rest) => (c :: cs, rest)
        | [] => none

/-- The newline right after the opening marks does not count. -/
def skipFirstNewline (input : List Char) : List Char := (newline? input).getD input

def readString (input : List Char) : Option (String × List Char) := do
  let (cs, rest) ←
    match input with
    | '"' :: '"' :: '"' :: rest => readLongBasic (rest.length + 1) (skipFirstNewline rest)
    | '\'' :: '\'' :: '\'' :: rest => readLongLiteral (rest.length + 1) (skipFirstNewline rest)
    | '"' :: rest => readBasic (rest.length + 1) rest
    | '\'' :: rest => readLiteral rest
    | _ => none
  return (String.ofList cs, rest)

def isBareKey (c : Char) : Bool := c.isAlphanum || c = '_' || c = '-'

def readKeyPart (input : List Char) : Option (String × List Char) :=
  match input with
  | '"' :: rest => (readBasic (rest.length + 1) rest).map fun (cs, rest) => (String.ofList cs, rest)
  | '\'' :: rest => (readLiteral rest).map fun (cs, rest) => (String.ofList cs, rest)
  | _ =>
    let cs := input.takeWhile isBareKey
    if cs.isEmpty then none else some (String.ofList cs, input.dropWhile isBareKey)

/-- A dotted key, with the blanks around its parts. -/
def readKey : Nat → List Char → Option (List String × List Char)
  | 0, _ => none
  | steps + 1, input => do
    let (part, rest) ← readKeyPart (skipBlank input)
    match skipBlank rest with
    | '.' :: rest =>
      let (parts, rest) ← readKey steps rest
      return (part :: parts, rest)
    | rest => return ([part], rest)

/-- Digits with single underscores between them. -/
def digitsValue? (base : Nat) (digits : List Char) : Option Nat :=
  let value? (c : Char) := (hexValue? c).filter (· < base)
  let rec go (value : Nat) : List Char → Option Nat
    | [] => some value
    | '_' :: c :: rest => (value? c).bind fun digit => go (base * value + digit) rest
    | c :: rest => (value? c).bind fun digit => go (base * value + digit) rest
  match digits with
  | [] | '_' :: _ => none
  | digits => go 0 digits

def splitSign : List Char → Option Char × List Char
  | '+' :: rest => (some '+', rest)
  | '-' :: rest => (some '-', rest)
  | rest => (none, rest)

def fits (value : Int) : Option Int :=
  if Int64.minValue.toInt ≤ value ∧ value ≤ Int64.maxValue.toInt then some value else none

/-- Whole numbers of 64 bits; decimal ones have no leading zero. -/
def integer? (token : List Char) : Option Int :=
  match token with
  | '0' :: 'x' :: digits => (digitsValue? 16 digits).bind fun value => fits value
  | '0' :: 'o' :: digits => (digitsValue? 8 digits).bind fun value => fits value
  | '0' :: 'b' :: digits => (digitsValue? 2 digits).bind fun value => fits value
  | _ =>
    let (sign, digits) := splitSign token
    if digits.length > 1 && digits.head? = some '0' then none
    else (digitsValue? 10 digits).bind fun value =>
      fits (if sign = some '-' then -(value : Int) else value)

def isDecimal (digits : List Char) : Bool := (digitsValue? 10 digits).isSome

def isFloat (token : List Char) : Bool :=
  let (_, body) := splitSign token
  if body = ['i', 'n', 'f'] || body = ['n', 'a', 'n'] then true
  else
    let isMark (c : Char) := c = 'e' || c = 'E'
    let mantissa := body.takeWhile fun c => !isMark c
    let exponent := body.drop mantissa.length
    let whole := mantissa.takeWhile (· ≠ '.')
    let fraction := mantissa.drop whole.length
    let wholeOk := isDecimal whole && !(whole.length > 1 && whole.head? = some '0')
    let fractionOk := fraction.isEmpty || isDecimal (fraction.drop 1)
    let exponentOk := exponent.isEmpty || isDecimal (splitSign (exponent.drop 1)).2
    wholeOk && fractionOk && exponentOk && !(fraction.isEmpty && exponent.isEmpty)

/-- Whether the characters have the shape of the pattern, in which `0` stands for a digit. -/
def hasShape (pattern token : List Char) : Bool :=
  pattern.length = token.length &&
    (pattern.zip token).all fun (p, c) => if p = '0' then c.isDigit else p = c

def decimal (digits : List Char) : Nat :=
  digits.foldl (fun value c => 10 * value + (c.toNat - 48)) 0

def daysInMonth (year month : Nat) : Nat :=
  if month = 2 then
    if year % 4 = 0 && (year % 100 ≠ 0 || year % 400 = 0) then 29 else 28
  else if month = 4 || month = 6 || month = 9 || month = 11 then 30
  else 31

def isDate (token : List Char) : Bool :=
  hasShape "0000-00-00".toList token &&
    let year := decimal (token.take 4)
    let month := decimal ((token.drop 5).take 2)
    let day := decimal (token.drop 8)
    1 ≤ month && month ≤ 12 && 1 ≤ day && day ≤ daysInMonth year month

def isTime (token : List Char) : Bool :=
  let clock := token.take 8
  let fraction := token.drop 8
  hasShape "00:00:00".toList clock &&
    decimal (clock.take 2) ≤ 23 && decimal ((clock.drop 3).take 2) ≤ 59 &&
    decimal (clock.drop 6) ≤ 60 &&
    match fraction with
    | [] => true
    | '.' :: digits => !digits.isEmpty && digits.all Char.isDigit
    | _ => false

def isOffset (token : List Char) : Bool :=
  match token with
  | [] | ['Z'] | ['z'] => true
  | sign :: clock =>
    (sign = '+' || sign = '-') && hasShape "00:00".toList clock &&
      decimal (clock.take 2) ≤ 23 && decimal (clock.drop 3) ≤ 59

/-- Dates, times, and both with an offset or without. -/
def isMoment (token : List Char) : Bool :=
  isDate token || isTime token ||
    (isDate (token.take 10) &&
      match token.drop 10 with
      | mark :: rest =>
        let time := rest.takeWhile fun c => c.isDigit || c = ':' || c = '.'
        (mark = 'T' || mark = 't' || mark = ' ') && isTime time &&
          isOffset (rest.drop time.length)
      | [] => false)

def isTokenChar (c : Char) : Bool :=
  c.isAlphanum || c = '_' || c = '-' || c = '+' || c = '.' || c = ':'

/-- A token that is no text.  A date may go on after one blank with a time. -/
def readToken (input : List Char) : List Char × List Char :=
  let token := input.takeWhile isTokenChar
  let rest := input.dropWhile isTokenChar
  match rest with
  | ' ' :: c :: _ =>
    if isDate token && c.isDigit then
      let time := (rest.drop 1).takeWhile isTokenChar
      (token ++ ' ' :: time, rest.drop (1 + time.length))
    else
      (token, rest)
  | _ => (token, rest)

def classify (token : List Char) : Option Scalar :=
  if token = "true".toList then some (.bool true)
  else if token = "false".toList then some (.bool false)
  else
    match integer? token with
    | some value => some (.integer value)
    | none =>
      if isFloat token then some .float else if isMoment token then some .moment else none

def readScalar (input : List Char) : Option (Scalar × List Char) :=
  match input with
  | '"' :: _ | '\'' :: _ => (readString input).map fun (text, rest) => (.text text, rest)
  | _ =>
    let (token, rest) := readToken input
    (classify token).map fun scalar => (scalar, rest)

end Attire.Toml
