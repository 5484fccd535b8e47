/-!
# `CodeHabits.Token`: tokens with their places

A token knows the line and column of its first character and of the place
behind its last one. Lines are counted from one and columns from zero.
-/

set_option autoImplicit false

namespace CodeHabits

/-- Kinds of tokens. -/
inductive TokenKind where
  | ident
  | keyword
  | number
  | string
  | operator
  | punct
  | unknown
  deriving DecidableEq, Repr

/-- The name of a kind. -/
def TokenKind.name : TokenKind → String
  | ident => "ident"
  | keyword => "keyword"
  | number => "number"
  | string => "string"
  | operator => "operator"
  | punct => "punct"
  | unknown => "unknown"

/-- A token. -/
structure Token where
  kind : TokenKind
  text : String
  line : Nat
  column : Nat
  endLine : Nat
  endColumn : Nat
  deriving DecidableEq, Repr

end CodeHabits
