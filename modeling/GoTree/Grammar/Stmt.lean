import GoTree.Grammar.Expr

/-!
# Statements

`SimpleStmt` are the statements that may also stand in the header of another statement, `Stmt` all
statements, with clauses and headers beside them.
-/

namespace GoTree

/-- Statements that may stand in a header. -/
inductive SimpleStmt where
  | empty
  | expr (x : Id .expr)
  | send (chan value : Id .expr)
  | incDec (x : Id .expr) (op : IncDecOp)
  | assign (lhs : Segment .exprs) (op : AssignOp) (rhs : Segment .exprs)
  | shortVarDecl (names : Segment .identNames) (values : Segment .exprs)
  deriving DecidableEq

/-- Jumps; a break or continue without a label concerns the innermost statement. -/
inductive BranchStmt where
  | breakTo (label : Option IdentName)
  | continueTo (label : Option IdentName)
  | goto (label : IdentName)
  | fallthrough
  deriving DecidableEq

/-- The header of a loop. -/
inductive ForKind where
  | infinite
  | cond (x : Id .expr)
  | clause (init : Option (Id .simpleStmt)) (cond : Option (Id .expr))
      (post : Option (Id .simpleStmt))
  /-- A loop over a range; `define` tells `:=` from `=`. -/
  | range (key value : Option (Id .expr)) (define : Bool) (x : Id .expr)
  deriving DecidableEq

/-- What a type switch inspects, and the name it binds. -/
structure TypeSwitchGuard where
  bind : Option IdentName
  x : Id .expr
  deriving DecidableEq

/-- An item of a case in a type switch. -/
inductive TypeCaseElem where
  | type (typ : Id .type)
  | nil
  deriving DecidableEq

/-- A clause of a switch; one without items is the default clause. -/
inductive SwitchClause where
  | exprCase (items : Segment .exprs) (stmts : Segment .stmts)
  | typeCase (items : Segment .typeCaseElems) (stmts : Segment .stmts)
  deriving DecidableEq

/-- A clause of a select; one without a communication is the default clause. -/
structure CommClause where
  comm : Option (Id .simpleStmt)
  stmts : Segment .stmts
  deriving DecidableEq

/-- The syntax of statements. -/
inductive Stmt where
  | simple (s : Id .simpleStmt)
  | decl (d : Id .decl)
  | labeled (label : IdentName) (stmt : Id .stmt)
  | goStmt (call : Id .expr)
  | deferStmt (call : Id .expr)
  | returnStmt (results : Segment .exprs)
  | branch (b : BranchStmt)
  | block (stmts : Segment .stmts)
  | ifStmt (init : Option (Id .simpleStmt)) (cond : Id .expr) (thenBlock : Block)
      (elseStmt : Option (Id .stmt))
  | forStmt (kind : ForKind) (block : Block)
  | switchStmt (init : Option (Id .simpleStmt)) (tag : Option (Id .expr))
      (clauses : Segment .switchClauses)
  | typeSwitch (init : Option (Id .simpleStmt)) (guard : TypeSwitchGuard)
      (clauses : Segment .switchClauses)
  | select (clauses : Segment .commClauses)
  | bad
  deriving DecidableEq

end GoTree
