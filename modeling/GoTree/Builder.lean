import GoTree.NameTable
import GoTree.Node
import GoTree.Text.Quoted

/-!
# Building trees

Actions that make the nodes of a tree one by one. They work on a `Builder`: a store together with
the table of its names. Text is interned on the way, nodes have no source position, and an action
returns the id or value of what it made.
-/

namespace GoTree

/-- A store and the names used in it. -/
structure Builder where
  store : Store := {}
  names : NameTable := {}

/-- Building actions. -/
abbrev BuildM : Type → Type :=
  EStateM Fault Builder

namespace BuildM

variable {α : Type}

/-- Runs an action on the store alone. -/
def onStore (x : StoreM α) : BuildM α := fun ⟨store, names⟩ =>
  match x store with
  | .ok a store => .ok a ⟨store, names⟩
  | .error e store => .error e ⟨store, names⟩

/-- The symbol of a text. -/
def intern (text : String) : BuildM Symbol := fun ⟨store, names⟩ =>
  let (sym, names) := names.intern text
  .ok sym ⟨store, names⟩

/-- Allocates a node. -/
def alloc (c : Category) (node : c.Payload) : BuildM (Id c) :=
  onStore (StoreM.alloc c node)

/-- Adds a list. -/
def list (p : Pool) (items : List p.Item) : BuildM (Segment p) :=
  onStore (StoreM.list p items.toArray)

/-- An identifier. -/
def ident (name : String) : BuildM IdentName := do
  return { sym := ← intern name }

/-- A list of identifiers. -/
def idents (names : List String) : BuildM (Segment .identNames) := do
  list .identNames (← names.mapM ident)

/-- A basic literal with this source text. -/
def lit (kind : LiteralKind) (text : String) : BuildM BasicLit := do
  return { kind, value := ← intern text }

/-! ### Expressions -/

/-- Any expression. -/
def expr (x : Expr) : BuildM (Id .expr) :=
  alloc .expr x

/-- An identifier as an expression. -/
def name (name : String) : BuildM (Id .expr) := do
  expr (.ident (← ident name))

/-- A whole number with this source text. -/
def int (text : String) : BuildM (Id .expr) := do
  expr (.basicLit (← lit .int text))

/-- A string literal that stands for `text`. -/
def string (text : String) : BuildM (Id .expr) := do
  expr (.basicLit (← lit .string (Quoted.quote text)))

/-- The member `sel` of `x`. -/
def selector (x : Id .expr) (sel : String) : BuildM (Id .expr) := do
  expr (.selector x (← ident sel))

/-- A call. -/
def call (fn : Id .expr) (args : List (Id .expr)) : BuildM (Id .expr) := do
  expr (.call (.expr fn) none (← list .exprs args) false)

/-- A binary expression. -/
def binary (left : Id .expr) (op : BinaryOp) (right : Id .expr) : BuildM (Id .expr) :=
  expr (.binary left op right)

/-- A function literal. -/
def funcLit (sig : Id .signature) (body : Block) : BuildM (Id .expr) :=
  expr (.funcLit sig body)

/-! ### Types -/

/-- Any type. -/
def typ (t : TypeExpr) : BuildM (Id .type) :=
  alloc .type t

/-- The type of this name. -/
def namedType (name : String) : BuildM (Id .type) := do
  typ (.named none (← ident name) .empty)

/-- A field or parameter. -/
def field (names : List String) (typ : Id .type) : BuildM (Id .field) := do
  let names ← idents names
  alloc .field { doc := none, names, variadic := false, typ, tag := none, comment := none }

/-- A field list. -/
def fieldList (fields : List (Id .field)) : BuildM FieldList := do
  return ⟨← list .fields fields⟩

/-- A signature. -/
def signature (params : FieldList) (results : Option Results) : BuildM (Id .signature) :=
  alloc .signature { params, results }

/-- The signature without parameters and results. -/
def emptySignature : BuildM (Id .signature) :=
  signature {} none

/-! ### Statements -/

/-- Any statement. -/
def stmt (s : Stmt) : BuildM (Id .stmt) :=
  alloc .stmt s

/-- Any simple statement. -/
def simple (s : SimpleStmt) : BuildM (Id .simpleStmt) :=
  alloc .simpleStmt s

/-- A simple statement as a statement. -/
def simpleStmt (s : SimpleStmt) : BuildM (Id .stmt) := do
  stmt (.simple (← simple s))

/-- A short variable declaration. -/
def shortVarDecl (names : List String) (values : List (Id .expr)) : BuildM (Id .stmt) := do
  let names ← idents names
  let values ← list .exprs values
  simpleStmt (.shortVarDecl names values)

/-- An assignment. -/
def assign (lhs : List (Id .expr)) (op : AssignOp) (rhs : List (Id .expr)) :
    BuildM (Id .stmt) := do
  let lhs ← list .exprs lhs
  let rhs ← list .exprs rhs
  simpleStmt (.assign lhs op rhs)

/-- An expression as a statement. -/
def exprStmt (x : Id .expr) : BuildM (Id .stmt) :=
  simpleStmt (.expr x)

/-- A return statement. -/
def ret (results : List (Id .expr)) : BuildM (Id .stmt) := do
  stmt (.returnStmt (← list .exprs results))

/-- A block. -/
def block (stmts : List (Id .stmt)) : BuildM Block := do
  return ⟨← list .stmts stmts⟩

/-- A block as a statement. -/
def blockStmt (stmts : List (Id .stmt)) : BuildM (Id .stmt) := do
  stmt (.block (← list .stmts stmts))

/-- A conditional without an initial statement. -/
def ifStmt (cond : Id .expr) (thenBlock : Block) (elseStmt : Option (Id .stmt)) :
    BuildM (Id .stmt) :=
  stmt (.ifStmt none cond thenBlock elseStmt)

/-- A loop over a range, which declares its variables if it has a key. -/
def rangeStmt (key value : Option (Id .expr)) (x : Id .expr) (body : Block) :
    BuildM (Id .stmt) :=
  stmt (.forStmt (.range key value key.isSome x) body)

/-- A statement with a label. -/
def labeled (label : String) (s : Id .stmt) : BuildM (Id .stmt) := do
  stmt (.labeled (← ident label) s)

/-! ### Declarations -/

/-- A line comment. -/
def lineComment (text : String) : BuildM (Id .comment) := do
  alloc .comment { kind := .line, text := ← intern text }

/-- A group of line comments. -/
def commentGroup (lines : List String) : BuildM (Id .commentGroup) := do
  alloc .commentGroup ⟨← list .comments (← lines.mapM lineComment)⟩

/-- The import of the package at `path`. -/
def importSpec (name : Option String) (path : String) : BuildM Spec := do
  let name ← name.mapM ident
  let path ← lit .string (Quoted.quote path)
  return .importSpec { doc := none, name, path, comment := none }

/-- Constants or variables. -/
def valueSpec (names : List String) (typ : Option (Id .type)) (values : List (Id .expr)) :
    BuildM Spec := do
  let names ← idents names
  let values ← list .exprs values
  return .valueSpec { doc := none, names, typ, values, comment := none }

/-- A declaration, which is grouped if it has several specifications. -/
def genDecl (kind : DeclKind) (specs : List Spec) : BuildM (Id .decl) := do
  let specs ← list .specs specs
  alloc .decl (.gen { doc := none, kind, grouped := decide (1 < specs.length), specs })

/-- A function. -/
def funcDecl (name : String) (signature : Id .signature) (body : Option Block) :
    BuildM (Id .func) := do
  let name ← ident name
  alloc .func { doc := none, recv := none, name, typeParams := none, signature, body }

/-- A source file of this package. -/
def file (package : String) (decls : List TopLevelDecl) : BuildM (Id .file) := do
  let name ← ident package
  let decls ← list .topDecls decls
  alloc .file { doc := none, name, decls, comments := .empty }

/-- A package. -/
def package (name : String) (files : List (Id .file)) : BuildM Package := do
  let name ← intern name
  let files ← list .files files
  return { name, files }

end BuildM

end GoTree
