namespace Attire

/-! The ways in which collections are indexed and walked. -/

inductive IndexKind
  | array
  | map
  | text
deriving DecidableEq, Repr

inductive IterKind
  | text
  | array
  | map
  | set
deriving DecidableEq, Repr

end Attire
