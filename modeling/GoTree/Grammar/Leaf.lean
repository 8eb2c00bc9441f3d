import GoTree.Handle

/-!
# Leaves

The parts of a tree that hold text: identifiers, basic literals and comments. Their text is
interned, so each holds a symbol.
-/

namespace GoTree

/-- An occurrence of an identifier. -/
structure IdentName where
  sym : Symbol
  pos : Span := .none
  deriving DecidableEq

/-- The kinds of basic literals. -/
inductive LiteralKind where
  | int
  | float
  | imag
  | rune
  | string
  deriving DecidableEq

/-- A basic literal; `value` is its source text, quotes included. -/
structure BasicLit where
  kind : LiteralKind
  value : Symbol
  deriving DecidableEq

/-- The two forms of comments. -/
inductive CommentKind where
  | line
  | block
  deriving DecidableEq

/-- A comment; `text` includes its marks. -/
structure Comment where
  kind : CommentKind
  text : Symbol
  deriving DecidableEq

/-- Adjacent comments. -/
structure CommentGroup where
  comments : Segment .comments
  deriving DecidableEq

end GoTree
