import GoTree.NameTable
import GoTree.Node
import GoTree.Print.Pen

/-!
# Printing

Any node can be printed as source text, with tabs for indentation and one statement to a line. The
text follows the common layout of the language; comments are printed where they are attached to a
declaration or a field.

Printing goes through a node from left to right and writes with one pen, string by string. It
follows handles through the store and may therefore meet a fault, which ends it. Expressions, types,
statements and literal values contain each other. They are the `Part`s of the recursion: a `Printer`
is given the actions for the parts one level further down, and `Store.render` ties the knot, up to a
**depth**.
-/

namespace GoTree

open PrintM (push newline indent dedent when join)

/-- The constructs through which printing recurs. -/
inductive Part where
  | expr (id : Id .expr)
  | type (id : Id .type)
  | stmt (id : Id .stmt)
  | literal (lit : LiteralValue)

/-- What printing reads, and how the parts below are printed. -/
structure Printer where
  store : Store
  names : NameTable
  part : Part → PrintM Unit

namespace Printer

variable (p : Printer)

/-- An expression below. -/
def expr (id : Id .expr) : PrintM Unit :=
  p.part (.expr id)

/-- A type below. -/
def type (id : Id .type) : PrintM Unit :=
  p.part (.type id)

/-- A statement below. -/
def stmt (id : Id .stmt) : PrintM Unit :=
  p.part (.stmt id)

/-- A literal value below. -/
def literal (lit : LiteralValue) : PrintM Unit :=
  p.part (.literal lit)

/-- The string of a symbol. -/
def symbol (sym : Symbol) : PrintM Unit := do
  push (← p.names.resolve sym)

/-- An identifier. -/
def ident (name : IdentName) : PrintM Unit :=
  p.symbol name.sym

/-- The items of a list, which is read when its turn comes. -/
def list {q : Pool} (sep : PrintM Unit) (f : q.Item → PrintM Unit) (seg : Segment q) :
    PrintM Unit := do
  join sep f (← p.store.items seg).toList

/-- Identifiers, separated by commas. -/
def idents (seg : Segment .identNames) : PrintM Unit :=
  p.list (push ", ") p.ident seg

/-- Expressions, separated by commas. -/
def exprs (seg : Segment .exprs) : PrintM Unit :=
  p.list (push ", ") p.expr seg

/-! ### Comments -/

/-- A comment. -/
def comment (id : Id .comment) : PrintM Unit := do
  p.symbol (← p.store.get id).text

/-- The comments of a group, one to a line. -/
def commentGroup (id : Id .commentGroup) : PrintM Unit := do
  p.list newline p.comment (← p.store.get id).comments

/-- The comment above a declaration, with its line end. -/
def doc (o : Option (Id .commentGroup)) : PrintM Unit :=
  o.forM fun id => do
    p.commentGroup id
    newline

/-- The comment at the end of a line. -/
def trailing (o : Option (Id .commentGroup)) : PrintM Unit :=
  o.forM fun id => do
    push " "
    p.commentGroup id

/-! ### Fields, signatures and type parameters -/

/-- One field or parameter. -/
def field (id : Id .field) : PrintM Unit := do
  let field ← p.store.get id
  when (!field.names.isEmpty) do
    p.idents field.names
    push " "
  when field.variadic (push "...")
  p.type field.typ
  field.tag.forM fun tag => do
    push " "
    p.symbol tag.value
  p.trailing field.comment

/-- A field list in parentheses. -/
def params (list : FieldList) : PrintM Unit := do
  push "("
  p.list (push ", ") p.field list.fields
  push ")"

/-- Results, after a blank. -/
def results : Results → PrintM Unit
  | .params list => do
    push " "
    p.params list
  | .type typ => do
    push " "
    p.type typ

/-- Parameters and results. -/
def signature (id : Id .signature) : PrintM Unit := do
  let sig ← p.store.get id
  p.params sig.params
  sig.results.forM p.results

/-- A term of a union. -/
def typeTerm : TypeTerm → PrintM Unit
  | .tilde typ => do
    push "~"
    p.type typ
  | .type typ => p.type typ

/-- A union. -/
def typeElem (elem : TypeElem) : PrintM Unit :=
  p.list (push " | ") p.typeTerm elem.terms

/-- A constraint. -/
def constraint : TypeConstraint → PrintM Unit
  | .any => push "any"
  | .typeElem elem => p.typeElem elem
  | .interface typ => p.type typ

/-- A group of type parameters. -/
def typeParamDecl (id : Id .typeParamDecl) : PrintM Unit := do
  let decl ← p.store.get id
  p.idents decl.names
  push " "
  p.constraint decl.constraint

/-- Type parameters in brackets. -/
def typeParams (id : Id .typeParams) : PrintM Unit := do
  push "["
  p.list (push ", ") p.typeParamDecl (← p.store.get id).params
  push "]"

/-! ### Types -/

/-- The length of an array. -/
def arrayLen : ArrayLen → PrintM Unit
  | .expr x => p.expr x
  | .ellipsis => push "..."

/-- A member of an interface. -/
def interfaceElem : InterfaceElem → PrintM Unit
  | .method name sig => do
    p.ident name
    p.signature sig
  | .typeElem elem => p.typeElem elem

/-- A field of a struct type, with the comment above it. -/
def structField (id : Id .field) : PrintM Unit := do
  p.doc (← p.store.get id).doc
  p.field id

/-- A type. -/
def typeBody (id : Id .type) : PrintM Unit := do
  match (← p.store.get id : TypeExpr) with
  | .named pkg name args =>
    pkg.forM fun pkg => do
      p.ident pkg
      push "."
    p.ident name
    when (!args.isEmpty) do
      push "["
      p.list (push ", ") p.type args
      push "]"
  | .pointer elem =>
    push "*"
    p.type elem
  | .array len elem =>
    push "["
    p.arrayLen len
    push "]"
    p.type elem
  | .slice elem =>
    push "[]"
    p.type elem
  | .map key val =>
    push "map["
    p.type key
    push "]"
    p.type val
  | .chan dir elem =>
    push dir.text
    p.type elem
  | .struct fields =>
    let fields ← p.store.items fields.fields
    if fields.isEmpty then push "struct\x7b\x7d"
    else
      push "struct \x7b"
      indent
      fields.toList.forM fun id => do
        newline
        p.structField id
      dedent
      newline
      push "\x7d"
  | .interface elems =>
    let elems ← p.store.items elems
    if elems.isEmpty then push "interface\x7b\x7d"
    else
      push "interface \x7b"
      indent
      elems.toList.forM fun elem => do
        newline
        p.interfaceElem elem
      dedent
      newline
      push "\x7d"
  | .func sig =>
    push "func"
    p.signature sig
  | .paren typ =>
    push "("
    p.type typ
    push ")"
  | .bad => push "BadType"

/-! ### Expressions -/

/-- A block of statements, each on a line of its own. -/
def block (stmts : Segment .stmts) : PrintM Unit := do
  let stmts ← p.store.items stmts
  if stmts.isEmpty then push "\x7b\x7d"
  else
    push "\x7b"
    indent
    stmts.toList.forM fun id => do
      newline
      p.stmt id
    dedent
    newline
    push "\x7d"

/-- A key. -/
def key : Key → PrintM Unit
  | .fieldName name => p.ident name
  | .expr x => p.expr x
  | .literal lit => p.literal lit

/-- The value of an element. -/
def element : Element → PrintM Unit
  | .expr x => p.expr x
  | .literal lit => p.literal lit

/-- An element of a composite literal. -/
def keyedElement (elem : KeyedElement) : PrintM Unit := do
  elem.key.forM p.key
  when elem.key.isSome (push ": ")
  p.element elem.value

/-- The elements of a composite literal in braces. -/
def literalBody (lit : LiteralValue) : PrintM Unit := do
  push "\x7b"
  p.list (push ", ") p.keyedElement lit.elements
  push "\x7d"

/-- An index or a type argument. -/
def exprOrType : ExprOrType → PrintM Unit
  | .expr x => p.expr x
  | .type typ => p.type typ

/-- What is called. -/
def callee : Callee → PrintM Unit
  | .expr x => p.expr x
  | .type typ => p.type typ

/-- The bounds of a slice, of which a third one may be missing with its colon. -/
def bounds (lo hi max : Option (Id .expr)) : PrintM Unit := do
  for (bound, i) in [lo, hi, max].zipIdx do
    if i = 2 ∧ bound.isNone then break
    when (0 < i) (push ":")
    bound.forM p.expr

/-- An expression. -/
def exprBody (id : Id .expr) : PrintM Unit := do
  match (← p.store.get id : Expr) with
  | .ident name => p.ident name
  | .basicLit lit => p.symbol lit.value
  | .funcLit sig body =>
    push "func"
    p.signature sig
    push " "
    p.block body.stmts
  | .compositeLit typ lit =>
    p.type typ
    p.literal lit
  | .index base args =>
    p.expr base
    push "["
    p.list (push ", ") p.exprOrType args
    push "]"
  | .paren x =>
    push "("
    p.expr x
    push ")"
  | .selector x sel =>
    p.expr x
    push "."
    p.ident sel
  | .slice x lo hi max =>
    p.expr x
    push "["
    p.bounds lo hi max
    push "]"
  | .typeAssert x typ =>
    p.expr x
    push ".("
    match typ with
    | some typ => p.type typ
    | none => push "type"
    push ")"
  | .call callee typeArg args ellipsis =>
    p.callee callee
    push "("
    typeArg.forM fun typ => do
      p.type typ
      when (!args.isEmpty) (push ", ")
    p.exprs args
    when ellipsis (push "...")
    push ")"
  | .unary op x =>
    push op.text
    p.expr x
  | .binary left op right =>
    p.expr left
    push " "
    push op.text
    push " "
    p.expr right
  | .methodExpr recv name =>
    p.type recv
    push "."
    p.ident name
  | .bad => push "BadExpr"

/-! ### Declarations -/

/-- A specification. -/
def spec : Spec → PrintM Unit
  | .importSpec s => do
    p.doc s.doc
    s.name.forM fun name => do
      p.ident name
      push " "
    p.symbol s.path.value
    p.trailing s.comment
  | .valueSpec s => do
    p.doc s.doc
    p.idents s.names
    s.typ.forM fun typ => do
      push " "
      p.type typ
    when (!s.values.isEmpty) do
      push " = "
      p.exprs s.values
    p.trailing s.comment
  | .typeSpec s => do
    p.doc s.doc
    p.ident s.name
    s.typeParams.forM p.typeParams
    push (if s.isAlias then " = " else " ")
    p.type s.typ
    p.trailing s.comment

/-- The specifications of a declaration: a single one follows the keyword unless it is grouped. -/
def specs : (grouped : Bool) → List Spec → PrintM Unit
  | false, [spec] => do
    push " "
    p.spec spec
  | _, specs => do
    push " ("
    indent
    specs.forM fun spec => do
      newline
      p.spec spec
    dedent
    newline
    push ")"

/-- A declaration. -/
def decl (id : Id .decl) : PrintM Unit := do
  match (← p.store.get id : Decl) with
  | .gen decl =>
    p.doc decl.doc
    push decl.kind.text
    p.specs decl.grouped (← p.store.items decl.specs).toList
  | .bad => push "BadDecl"

/-- A function declaration. -/
def funcDecl (id : Id .func) : PrintM Unit := do
  let func ← p.store.get id
  p.doc func.doc
  push "func "
  func.recv.forM fun recv => do
    p.params recv
    push " "
  p.ident func.name
  func.typeParams.forM p.typeParams
  p.signature func.signature
  func.body.forM fun body => do
    push " "
    p.block body.stmts

/-- A declaration at the top of a file. -/
def topLevelDecl : TopLevelDecl → PrintM Unit
  | .decl id => p.decl id
  | .func id => p.funcDecl id

/-- A source file. -/
def file (id : Id .file) : PrintM Unit := do
  let file ← p.store.get id
  p.doc file.doc
  push "package "
  p.ident file.name
  (← p.store.items file.decls).toList.forM fun decl => do
    newline
    newline
    p.topLevelDecl decl
  newline

/-- The files of a package, one after another. -/
def package (pkg : Package) : PrintM Unit :=
  p.list newline p.file pkg.files

/-! ### Statements -/

/-- A simple statement. -/
def simple (id : Id .simpleStmt) : PrintM Unit := do
  match (← p.store.get id : SimpleStmt) with
  | .empty => pure ()
  | .expr x => p.expr x
  | .send chan value =>
    p.expr chan
    push " <- "
    p.expr value
  | .incDec x op =>
    p.expr x
    push op.text
  | .assign lhs op rhs =>
    p.exprs lhs
    push " "
    push op.text
    push " "
    p.exprs rhs
  | .shortVarDecl names values =>
    p.idents names
    push " := "
    p.exprs values

/-- The keyword of a jump and its label. -/
def branchWords : BranchStmt → String × Option IdentName
  | .breakTo label => ("break", label)
  | .continueTo label => ("continue", label)
  | .goto label => ("goto", some label)
  | .fallthrough => ("fallthrough", none)

/-- A jump. -/
def branch (b : BranchStmt) : PrintM Unit := do
  let (keyword, label) := branchWords b
  push keyword
  label.forM fun label => do
    push " "
    p.ident label

/-- The initial statement of a header, with its semicolon. -/
def headerInit (o : Option (Id .simpleStmt)) : PrintM Unit :=
  o.forM fun init => do
    p.simple init
    push "; "

/-- The header of a loop. A value without a key is not printed. -/
def forHeader : ForKind → PrintM Unit
  | .infinite => pure ()
  | .cond x => do
    p.expr x
    push " "
  | .clause init cond post => do
    init.forM p.simple
    push "; "
    cond.forM p.expr
    push "; "
    post.forM p.simple
    push " "
  | .range key value define x => do
    key.forM fun key => do
      p.expr key
      value.forM fun value => do
        push ", "
        p.expr value
      push (if define then " := " else " = ")
    push "range "
    p.expr x
    push " "

/-- The statements of a clause, one level deeper than the clause. -/
def caseBody (stmts : Segment .stmts) : PrintM Unit := do
  indent
  (← p.store.items stmts).toList.forM fun id => do
    newline
    p.stmt id
  dedent

/-- An item of a case in a type switch. -/
def typeCaseElem : TypeCaseElem → PrintM Unit
  | .type typ => p.type typ
  | .nil => push "nil"

/-- A clause of a switch. -/
def switchClause (id : Id .switchClause) : PrintM Unit := do
  match (← p.store.get id : SwitchClause) with
  | .exprCase items stmts =>
    if items.isEmpty then push "default:"
    else
      push "case "
      p.exprs items
      push ":"
    p.caseBody stmts
  | .typeCase items stmts =>
    if items.isEmpty then push "default:"
    else
      push "case "
      p.list (push ", ") p.typeCaseElem items
      push ":"
    p.caseBody stmts

/-- A clause of a select. -/
def commClause (id : Id .commClause) : PrintM Unit := do
  let clause ← p.store.get id
  match clause.comm with
  | some comm =>
    push "case "
    p.simple comm
    push ":"
  | none => push "default:"
  p.caseBody clause.stmts

/-- Clauses in braces, at the indentation of their statement. -/
def clauses {q : Pool} (f : q.Item → PrintM Unit) (seg : Segment q) : PrintM Unit := do
  let list ← p.store.items seg
  push "\x7b"
  list.toList.forM fun clause => do
    newline
    f clause
  newline
  push "\x7d"

/-- A statement. -/
def stmtBody (id : Id .stmt) : PrintM Unit := do
  match (← p.store.get id : Stmt) with
  | .simple s => p.simple s
  | .decl d => p.decl d
  | .labeled label stmt =>
    p.ident label
    push ":"
    newline
    p.stmt stmt
  | .goStmt call =>
    push "go "
    p.expr call
  | .deferStmt call =>
    push "defer "
    p.expr call
  | .returnStmt results =>
    push "return"
    when (!results.isEmpty) do
      push " "
      p.exprs results
  | .branch b => p.branch b
  | .block stmts => p.block stmts
  | .ifStmt init cond thenBlock elseStmt =>
    push "if "
    p.headerInit init
    p.expr cond
    push " "
    p.block thenBlock.stmts
    elseStmt.forM fun stmt => do
      push " else "
      p.stmt stmt
  | .forStmt kind block =>
    push "for "
    p.forHeader kind
    p.block block.stmts
  | .switchStmt init tag clauses =>
    push "switch "
    p.headerInit init
    tag.forM fun tag => do
      p.expr tag
      push " "
    p.clauses p.switchClause clauses
  | .typeSwitch init guard clauses =>
    push "switch "
    p.headerInit init
    guard.bind.forM fun bind => do
      p.ident bind
      push " := "
    p.expr guard.x
    push ".(type) "
    p.clauses p.switchClause clauses
  | .select clauses =>
    push "select "
    p.clauses p.commClause clauses
  | .bad => push "BadStmt"

/-! ### Parts and nodes -/

/-- A part, in terms of the parts below. -/
def body : Part → PrintM Unit
  | .expr id => p.exprBody id
  | .type id => p.typeBody id
  | .stmt id => p.stmtBody id
  | .literal lit => p.literalBody lit

/-- Any node. -/
def node : Node → PrintM Unit
  | ⟨.stored .comment, id⟩ => p.comment id
  | ⟨.stored .commentGroup, id⟩ => p.commentGroup id
  | ⟨.stored .field, id⟩ => p.field id
  | ⟨.stored .expr, id⟩ => p.expr id
  | ⟨.stored .type, id⟩ => p.type id
  | ⟨.stored .signature, id⟩ => do
    push "func"
    p.signature id
  | ⟨.stored .typeParams, id⟩ => p.typeParams id
  | ⟨.stored .typeParamDecl, id⟩ => p.typeParamDecl id
  | ⟨.stored .simpleStmt, id⟩ => p.simple id
  | ⟨.stored .stmt, id⟩ => p.stmt id
  | ⟨.stored .switchClause, id⟩ => p.switchClause id
  | ⟨.stored .commClause, id⟩ => p.commClause id
  | ⟨.stored .decl, id⟩ => p.decl id
  | ⟨.stored .func, id⟩ => p.funcDecl id
  | ⟨.stored .file, id⟩ => p.file id
  | ⟨.fieldList, list⟩ => p.params list
  | ⟨.ident, name⟩ => p.ident name
  | ⟨.basicLit, lit⟩ => p.symbol lit.value
  | ⟨.block, block⟩ => p.block block.stmts
  | ⟨.expandedBlock, block⟩ => p.block block.stmts
  | ⟨.spec, spec⟩ => p.spec spec
  | ⟨.package, pkg⟩ => p.package pkg

end Printer

namespace Store

variable (store : Store) (names : NameTable)

/-- Prints a part, through at most `depth` levels of parts. -/
def renderPart : (depth : Nat) → Part → PrintM Unit
  | 0, _ => throw .tooDeep
  | depth + 1, part => Printer.body ⟨store, names, renderPart depth⟩ part

/-- Prints a node with the pen at hand. -/
def render (depth : Nat) (node : Node) : PrintM Unit :=
  Printer.node ⟨store, names, store.renderPart names depth⟩ node

/-- The text of a node. -/
def print (depth : Nat) (node : Node) : Except Fault String := do
  let ((), pen) ← (store.render names depth node).run {}
  return pen.out

end Store

end GoTree
