import GoTree.Grammar.Type

/-!
# Expressions

`Expr` is the syntax of expressions, with the pieces it is made of. A `Block` stands here because
function literals have one.
-/

namespace GoTree

/-- Statements in braces. -/
structure Block where
  stmts : Segment .stmts := .empty
  deriving DecidableEq

/-- The elements of a composite literal, in braces. -/
structure LiteralValue where
  elements : Segment .keyedElements
  deriving DecidableEq

/-- The key of an element. -/
inductive Key where
  | fieldName (name : IdentName)
  | expr (x : Id .expr)
  | literal (lit : LiteralValue)
  deriving DecidableEq

/-- The value of an element. -/
inductive Element where
  | expr (x : Id .expr)
  | literal (lit : LiteralValue)
  deriving DecidableEq

/-- An element of a composite literal. -/
structure KeyedElement where
  key : Option Key
  value : Element
  deriving DecidableEq

/-- An item in brackets after an operand: an index or a type argument. -/
inductive ExprOrType where
  | expr (x : Id .expr)
  | type (typ : Id .type)
  deriving DecidableEq

/-- What is called: a function, or a type in a conversion. -/
inductive Callee where
  | expr (x : Id .expr)
  | type (typ : Id .type)
  deriving DecidableEq

/-- The syntax of expressions. -/
inductive Expr where
  /-- An identifier; its name is part of the leaf, not a child. -/
  | ident (name : IdentName)
  /-- A basic literal; like an identifier it is a leaf. -/
  | basicLit (lit : BasicLit)
  | funcLit (sig : Id .signature) (body : Block)
  | compositeLit (typ : Id .type) (lit : LiteralValue)
  /-- Indexing, or instantiation with type arguments. -/
  | index (base : Id .expr) (args : Segment .exprOrTypes)
  | paren (x : Id .expr)
  | selector (x : Id .expr) (sel : IdentName)
  | slice (x : Id .expr) (lo hi max : Option (Id .expr))
  /-- A type assertion; without a type it is the guard of a type switch. -/
  | typeAssert (x : Id .expr) (typ : Option (Id .type))
  /-- A call or conversion. `typeArg` is the leading type of `make` and `new`. -/
  | call (callee : Callee) (typeArg : Option (Id .type)) (args : Segment .exprs) (ellipsis : Bool)
  | unary (op : UnaryOp) (x : Id .expr)
  | binary (left : Id .expr) (op : BinaryOp) (right : Id .expr)
  | methodExpr (recv : Id .type) (name : IdentName)
  | bad
  deriving DecidableEq

end GoTree
