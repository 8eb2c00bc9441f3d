import GoTree.Grammar.Decl

/-!
# What tables and buffers hold

`Category.Payload c` is the type of the nodes in the table of category `c`, and `Pool.Item p` the
type of the items in the buffer `p`.
-/

namespace GoTree

/-- The nodes of a category. -/
abbrev Category.Payload : Category → Type
  | .decl => Decl
  | .stmt => Stmt
  | .simpleStmt => SimpleStmt
  | .expr => Expr
  | .type => TypeExpr
  | .signature => Signature
  | .func => FuncDecl
  | .field => Field
  | .switchClause => SwitchClause
  | .commClause => CommClause
  | .typeParams => TypeParams
  | .typeParamDecl => TypeParamDecl
  | .comment => Comment
  | .commentGroup => CommentGroup
  | .file => SourceFile

/-- The items of a buffer. -/
abbrev Pool.Item : Pool → Type
  | .identNames => IdentName
  | .exprs => Id .expr
  | .stmts => Id .stmt
  | .types => Id .type
  | .fields => Id .field
  | .specs => Spec
  | .keyedElements => KeyedElement
  | .topDecls => TopLevelDecl
  | .switchClauses => Id .switchClause
  | .commClauses => Id .commClause
  | .typeCaseElems => TypeCaseElem
  | .typeTerms => TypeTerm
  | .interfaceElems => InterfaceElem
  | .typeParamDecls => Id .typeParamDecl
  | .comments => Id .comment
  | .commentGroups => Id .commentGroup
  | .exprOrTypes => ExprOrType
  | .files => Id .file

instance : (c : Category) → DecidableEq c.Payload
  | .decl => inferInstanceAs (DecidableEq Decl)
  | .stmt => inferInstanceAs (DecidableEq Stmt)
  | .simpleStmt => inferInstanceAs (DecidableEq SimpleStmt)
  | .expr => inferInstanceAs (DecidableEq Expr)
  | .type => inferInstanceAs (DecidableEq TypeExpr)
  | .signature => inferInstanceAs (DecidableEq Signature)
  | .func => inferInstanceAs (DecidableEq FuncDecl)
  | .field => inferInstanceAs (DecidableEq Field)
  | .switchClause => inferInstanceAs (DecidableEq SwitchClause)
  | .commClause => inferInstanceAs (DecidableEq CommClause)
  | .typeParams => inferInstanceAs (DecidableEq TypeParams)
  | .typeParamDecl => inferInstanceAs (DecidableEq TypeParamDecl)
  | .comment => inferInstanceAs (DecidableEq Comment)
  | .commentGroup => inferInstanceAs (DecidableEq CommentGroup)
  | .file => inferInstanceAs (DecidableEq SourceFile)

end GoTree
