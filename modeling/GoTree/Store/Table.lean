import GoTree.Grammar.Payload

/-!
# Tables and buffers

A `Table` holds the nodes of one category and, in a side table of the same length, their source
positions. `Tables` has one table for each category and `Buffers` one array for each pool; both are
plain records, read by `get` and changed by `modify` at one index, and the laws `get_modify_self`
and `get_modify_of_ne` say that this is all a reader needs to know about them.
-/

namespace GoTree

/-- Nodes and, beside them, their spans. -/
@[ext]
structure Table (α : Type) where
  nodes : Array α
  spans : Array Span
  /-- Every node has a span. -/
  size_spans : spans.size = nodes.size
  deriving DecidableEq

namespace Table

variable {α : Type}

/-- The number of nodes. -/
def size (t : Table α) : Nat :=
  t.nodes.size

/-- The table without nodes. -/
def empty : Table α :=
  ⟨#[], #[], rfl⟩

/-- Nodes without positions. -/
def ofNodes (nodes : Array α) : Table α where
  nodes
  spans := Array.replicate nodes.size .none
  size_spans := Array.size_replicate

/-- Adds a node with its span at the end. -/
def push (t : Table α) (node : α) (span : Span) : Table α where
  nodes := t.nodes.push node
  spans := t.spans.push span
  size_spans := by simp [t.size_spans]

/-- Overwrites a node; an index outside the table changes nothing. -/
def put (t : Table α) (i : Nat) (node : α) : Table α where
  nodes := t.nodes.setIfInBounds i node
  spans := t.spans
  size_spans := by simp [t.size_spans]

@[simp]
theorem nodes_ofNodes (nodes : Array α) : (ofNodes nodes).nodes = nodes :=
  rfl

@[simp]
theorem size_push (t : Table α) (node : α) (span : Span) :
    (t.push node span).size = t.size + 1 := by
  simp [push, size]

@[simp]
theorem size_put (t : Table α) (i : Nat) (node : α) : (t.put i node).size = t.size := by
  simp [put, size]

@[simp]
theorem nodes_push (t : Table α) (node : α) (span : Span) :
    (t.push node span).nodes = t.nodes.push node :=
  rfl

@[simp]
theorem spans_push (t : Table α) (node : α) (span : Span) :
    (t.push node span).spans = t.spans.push span :=
  rfl

@[simp]
theorem nodes_put (t : Table α) (i : Nat) (node : α) :
    (t.put i node).nodes = t.nodes.setIfInBounds i node :=
  rfl

@[simp]
theorem spans_put (t : Table α) (i : Nat) (node : α) : (t.put i node).spans = t.spans :=
  rfl

end Table

/-- The tables of all categories. -/
structure Tables where
  decls : Table Decl := .empty
  stmts : Table Stmt := .empty
  simpleStmts : Table SimpleStmt := .empty
  exprs : Table Expr := .empty
  types : Table TypeExpr := .empty
  signatures : Table Signature := .empty
  funcs : Table FuncDecl := .empty
  fields : Table Field := .empty
  switchClauses : Table SwitchClause := .empty
  commClauses : Table CommClause := .empty
  typeParams : Table TypeParams := .empty
  typeParamDecls : Table TypeParamDecl := .empty
  comments : Table Comment := .empty
  commentGroups : Table CommentGroup := .empty
  files : Table SourceFile := .empty
  deriving DecidableEq

namespace Tables

/-- The table of a category. -/
def get (t : Tables) : (c : Category) → Table c.Payload
  | .decl => t.decls
  | .stmt => t.stmts
  | .simpleStmt => t.simpleStmts
  | .expr => t.exprs
  | .type => t.types
  | .signature => t.signatures
  | .func => t.funcs
  | .field => t.fields
  | .switchClause => t.switchClauses
  | .commClause => t.commClauses
  | .typeParams => t.typeParams
  | .typeParamDecl => t.typeParamDecls
  | .comment => t.comments
  | .commentGroup => t.commentGroups
  | .file => t.files

/-- Changes the table of one category. -/
def modify (t : Tables) : (c : Category) → (Table c.Payload → Table c.Payload) → Tables
  | .decl, f => { t with decls := f t.decls }
  | .stmt, f => { t with stmts := f t.stmts }
  | .simpleStmt, f => { t with simpleStmts := f t.simpleStmts }
  | .expr, f => { t with exprs := f t.exprs }
  | .type, f => { t with types := f t.types }
  | .signature, f => { t with signatures := f t.signatures }
  | .func, f => { t with funcs := f t.funcs }
  | .field, f => { t with fields := f t.fields }
  | .switchClause, f => { t with switchClauses := f t.switchClauses }
  | .commClause, f => { t with commClauses := f t.commClauses }
  | .typeParams, f => { t with typeParams := f t.typeParams }
  | .typeParamDecl, f => { t with typeParamDecls := f t.typeParamDecls }
  | .comment, f => { t with comments := f t.comments }
  | .commentGroup, f => { t with commentGroups := f t.commentGroups }
  | .file, f => { t with files := f t.files }

@[simp]
theorem get_modify_self (t : Tables) (c : Category) (f : Table c.Payload → Table c.Payload) :
    (t.modify c f).get c = f (t.get c) := by
  cases c <;> rfl

theorem get_modify_of_ne (t : Tables) {c d : Category} (h : d ≠ c)
    (f : Table c.Payload → Table c.Payload) : (t.modify c f).get d = t.get d := by
  cases c <;> cases d <;> first | rfl | exact absurd rfl h

/-- Tables that agree in every category are equal. -/
theorem ext_get {t u : Tables} (h : ∀ c, t.get c = u.get c) : t = u := by
  cases t; cases u
  simp only [Tables.mk.injEq]
  exact ⟨h .decl, h .stmt, h .simpleStmt, h .expr, h .type, h .signature, h .func, h .field,
    h .switchClause, h .commClause, h .typeParams, h .typeParamDecl, h .comment,
    h .commentGroup, h .file⟩

end Tables

/-- The list buffers. -/
structure Buffers where
  identNames : Array IdentName := #[]
  exprs : Array (Id .expr) := #[]
  stmts : Array (Id .stmt) := #[]
  types : Array (Id .type) := #[]
  fields : Array (Id .field) := #[]
  specs : Array Spec := #[]
  keyedElements : Array KeyedElement := #[]
  topDecls : Array TopLevelDecl := #[]
  switchClauses : Array (Id .switchClause) := #[]
  commClauses : Array (Id .commClause) := #[]
  typeCaseElems : Array TypeCaseElem := #[]
  typeTerms : Array TypeTerm := #[]
  interfaceElems : Array InterfaceElem := #[]
  typeParamDecls : Array (Id .typeParamDecl) := #[]
  comments : Array (Id .comment) := #[]
  commentGroups : Array (Id .commentGroup) := #[]
  exprOrTypes : Array ExprOrType := #[]
  files : Array (Id .file) := #[]
  deriving DecidableEq

namespace Buffers

/-- The buffer of a pool. -/
def get (b : Buffers) : (p : Pool) → Array p.Item
  | .identNames => b.identNames
  | .exprs => b.exprs
  | .stmts => b.stmts
  | .types => b.types
  | .fields => b.fields
  | .specs => b.specs
  | .keyedElements => b.keyedElements
  | .topDecls => b.topDecls
  | .switchClauses => b.switchClauses
  | .commClauses => b.commClauses
  | .typeCaseElems => b.typeCaseElems
  | .typeTerms => b.typeTerms
  | .interfaceElems => b.interfaceElems
  | .typeParamDecls => b.typeParamDecls
  | .comments => b.comments
  | .commentGroups => b.commentGroups
  | .exprOrTypes => b.exprOrTypes
  | .files => b.files

/-- Changes the buffer of one pool. -/
def modify (b : Buffers) : (p : Pool) → (Array p.Item → Array p.Item) → Buffers
  | .identNames, f => { b with identNames := f b.identNames }
  | .exprs, f => { b with exprs := f b.exprs }
  | .stmts, f => { b with stmts := f b.stmts }
  | .types, f => { b with types := f b.types }
  | .fields, f => { b with fields := f b.fields }
  | .specs, f => { b with specs := f b.specs }
  | .keyedElements, f => { b with keyedElements := f b.keyedElements }
  | .topDecls, f => { b with topDecls := f b.topDecls }
  | .switchClauses, f => { b with switchClauses := f b.switchClauses }
  | .commClauses, f => { b with commClauses := f b.commClauses }
  | .typeCaseElems, f => { b with typeCaseElems := f b.typeCaseElems }
  | .typeTerms, f => { b with typeTerms := f b.typeTerms }
  | .interfaceElems, f => { b with interfaceElems := f b.interfaceElems }
  | .typeParamDecls, f => { b with typeParamDecls := f b.typeParamDecls }
  | .comments, f => { b with comments := f b.comments }
  | .commentGroups, f => { b with commentGroups := f b.commentGroups }
  | .exprOrTypes, f => { b with exprOrTypes := f b.exprOrTypes }
  | .files, f => { b with files := f b.files }

@[simp]
theorem get_modify_self (b : Buffers) (p : Pool) (f : Array p.Item → Array p.Item) :
    (b.modify p f).get p = f (b.get p) := by
  cases p <;> rfl

theorem get_modify_of_ne (b : Buffers) {p q : Pool} (h : q ≠ p)
    (f : Array p.Item → Array p.Item) : (b.modify p f).get q = b.get q := by
  cases p <;> cases q <;> first | rfl | exact absurd rfl h

/-- Buffers that agree in every pool are equal. -/
theorem ext_get {b d : Buffers} (h : ∀ p, b.get p = d.get p) : b = d := by
  cases b; cases d
  simp only [Buffers.mk.injEq]
  exact ⟨h .identNames, h .exprs, h .stmts, h .types, h .fields, h .specs, h .keyedElements,
    h .topDecls, h .switchClauses, h .commClauses, h .typeCaseElems, h .typeTerms,
    h .interfaceElems, h .typeParamDecls, h .comments, h .commentGroups, h .exprOrTypes,
    h .files⟩

end Buffers

end GoTree
