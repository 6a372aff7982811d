namespace Attire

/-- A stretch of source text and the line and column at which it starts. -/
structure Span where
  start : Nat := 0
  stop : Nat := 0
  line : Nat := 0
  column : Nat := 0
deriving DecidableEq, Inhabited, Repr

end Attire
