import GoTree.Print.Doc
import GoTree.Print.Printer

/-!
# Documents of nodes

The text of a node, laid out as a document: `Store.draft` has the same words, names, line ends and
brackets in it that printing writes with a pen, but as a tree, so that properties of a text follow
from those of its parts. It meets the same faults, the first in reading order.

There is one function for each of the printer's. A `Drafter` is given the drafts of the parts one
level further down, and `Store.draft` ties the knot, up to a **depth**.
-/

namespace GoTree

open Draft (word line nest enclosed option concat join)

/-- What is read, and the drafts of the parts below. -/
structure Drafter where
  store : Store
  names : NameTable
  part : Part → Draft

namespace Drafter

variable (p : Drafter)

/-- An expression below. -/
def expr (id : Id .expr) : Draft :=
  p.part (.expr id)

/-- A type below. -/
def type (id : Id .type) : Draft :=
  p.part (.type id)

/-- A statement below. -/
def stmt (id : Id .stmt) : Draft :=
  p.part (.stmt id)

/-- A literal value below. -/
def literal (lit : LiteralValue) : Draft :=
  p.part (.literal lit)

/-- The string of a symbol. -/
def symbol (sym : Symbol) : Draft := do
  return .name sym (← p.names.resolve sym)

/-- An identifier. -/
def ident (name : IdentName) : Draft :=
  p.symbol name.sym

/-- The items of a list, which is read when its turn comes, separated by `sep`. -/
def list {q : Pool} (sep : Draft) (f : q.Item → Draft) (seg : Segment q) : Draft := do
  join sep f (← p.store.items seg).toList

/-- Identifiers, separated by commas. -/
def idents (seg : Segment .identNames) : Draft :=
  p.list (word ", ") p.ident seg

/-- Expressions, separated by commas. -/
def exprs (seg : Segment .exprs) : Draft :=
  p.list (word ", ") p.expr seg

/-! ### Comments -/

/-- A comment. -/
def comment (id : Id .comment) : Draft := do
  p.symbol (← p.store.get id).text

/-- The comments of a group, one to a line. -/
def commentGroup (id : Id .commentGroup) : Draft := do
  p.list line p.comment (← p.store.get id).comments

/-- The comment above a declaration, with its line end. -/
def doc : Option (Id .commentGroup) → Draft :=
  option fun id => p.commentGroup id >> line

/-- The comment at the end of a line. -/
def trailing : Option (Id .commentGroup) → Draft :=
  option fun id => word " " >> p.commentGroup id

/-! ### Fields, signatures and type parameters -/

/-- One field or parameter. -/
def field (id : Id .field) : Draft := do
  let field ← p.store.get id
  (if field.names.isEmpty then .empty else p.idents field.names >> word " ")
    >> (if field.variadic then word "..." else .empty)
    >> p.type field.typ
    >> option (fun tag => word " " >> p.symbol tag.value) field.tag
    >> p.trailing field.comment

/-- A field list in parentheses. -/
def params (list : FieldList) : Draft :=
  enclosed .round (p.list (word ", ") p.field list.fields)

/-- Results, after a blank. -/
def results : Results → Draft
  | .params list => word " " >> p.params list
  | .type typ => word " " >> p.type typ

/-- Parameters and results. -/
def signature (id : Id .signature) : Draft := do
  let sig ← p.store.get id
  p.params sig.params >> option p.results sig.results

/-- A term of a union. -/
def typeTerm : TypeTerm → Draft
  | .tilde typ => word "~" >> p.type typ
  | .type typ => p.type typ

/-- A union. -/
def typeElem (elem : TypeElem) : Draft :=
  p.list (word " | ") p.typeTerm elem.terms

/-- A constraint. -/
def constraint : TypeConstraint → Draft
  | .any => word "any"
  | .typeElem elem => p.typeElem elem
  | .interface typ => p.type typ

/-- A group of type parameters. -/
def typeParamDecl (id : Id .typeParamDecl) : Draft := do
  let decl ← p.store.get id
  p.idents decl.names >> word " " >> p.constraint decl.constraint

/-- Type parameters in brackets. -/
def typeParams (id : Id .typeParams) : Draft := do
  let list ← p.store.get id
  enclosed .square (p.list (word ", ") p.typeParamDecl list.params)

/-! ### Types -/

/-- The length of an array. -/
def arrayLen : ArrayLen → Draft
  | .expr x => p.expr x
  | .ellipsis => word "..."

/-- A member of an interface. -/
def interfaceElem : InterfaceElem → Draft
  | .method name sig => p.ident name >> p.signature sig
  | .typeElem elem => p.typeElem elem

/-- A field of a struct type, with the comment above it. -/
def structField (id : Id .field) : Draft := do
  let field ← p.store.get id
  p.doc field.doc >> p.field id

/-- Members in braces, each on a line of its own; without members the braces stand together. -/
def members {α : Type} (f : α → Draft) : List α → Draft
  | [] => enclosed .curly .empty
  | items => word " " >> enclosed .curly (nest (concat (fun a => line >> f a) items) >> line)

/-- A type. -/
def typeBody (id : Id .type) : Draft := do
  match (← p.store.get id : TypeExpr) with
  | .named pkg name args =>
    option (fun pkg => p.ident pkg >> word ".") pkg
      >> p.ident name
      >> (if args.isEmpty then .empty else enclosed .square (p.list (word ", ") p.type args))
  | .pointer elem => word "*" >> p.type elem
  | .array len elem => enclosed .square (p.arrayLen len) >> p.type elem
  | .slice elem => enclosed .square .empty >> p.type elem
  | .map key val => word "map" >> enclosed .square (p.type key) >> p.type val
  | .chan dir elem => word dir.text (by cases dir <;> decide) >> p.type elem
  | .struct fields => do
    let fields ← p.store.items fields.fields
    word "struct" >> members p.structField fields.toList
  | .interface elems => do
    let elems ← p.store.items elems
    word "interface" >> members p.interfaceElem elems.toList
  | .func sig => word "func" >> p.signature sig
  | .paren typ => enclosed .round (p.type typ)
  | .bad => word "BadType"

/-! ### Expressions -/

/-- A block of statements, each on a line of its own. -/
def block (stmts : Segment .stmts) : Draft := do
  let stmts ← p.store.items stmts
  if stmts.isEmpty then enclosed .curly .empty
  else enclosed .curly (nest (concat (fun id => line >> p.stmt id) stmts.toList) >> line)

/-- A key with its colon. -/
def key : Key → Draft
  | .fieldName name => p.ident name >> word ": "
  | .expr x => p.expr x >> word ": "
  | .literal lit => p.literal lit >> word ": "

/-- The value of an element. -/
def element : Element → Draft
  | .expr x => p.expr x
  | .literal lit => p.literal lit

/-- An element of a composite literal. -/
def keyedElement (elem : KeyedElement) : Draft :=
  option p.key elem.key >> p.element elem.value

/-- The elements of a composite literal in braces. -/
def literalBody (lit : LiteralValue) : Draft :=
  enclosed .curly (p.list (word ", ") p.keyedElement lit.elements)

/-- An index or a type argument. -/
def exprOrType : ExprOrType → Draft
  | .expr x => p.expr x
  | .type typ => p.type typ

/-- What is called. -/
def callee : Callee → Draft
  | .expr x => p.expr x
  | .type typ => p.type typ

/-- An expression. -/
def exprBody (id : Id .expr) : Draft := do
  match (← p.store.get id : Expr) with
  | .ident name => p.ident name
  | .basicLit lit => p.symbol lit.value
  | .funcLit sig body => word "func" >> p.signature sig >> word " " >> p.block body.stmts
  | .compositeLit typ lit => p.type typ >> p.literal lit
  | .index base args => p.expr base >> enclosed .square (p.list (word ", ") p.exprOrType args)
  | .paren x => enclosed .round (p.expr x)
  | .selector x sel => p.expr x >> word "." >> p.ident sel
  | .slice x lo hi max =>
    p.expr x
      >> enclosed .square
        (option p.expr lo >> word ":" >> option p.expr hi
          >> option (fun max => word ":" >> p.expr max) max)
  | .typeAssert x typ =>
    p.expr x >> word "."
      >> enclosed .round (match typ with
        | some typ => p.type typ
        | none => word "type")
  | .call callee typeArg args ellipsis =>
    p.callee callee
      >> enclosed .round
        (option (fun typ => p.type typ >> (if args.isEmpty then .empty else word ", ")) typeArg
          >> p.exprs args
          >> (if ellipsis then word "..." else .empty))
  | .unary op x => word op.text (by cases op <;> decide) >> p.expr x
  | .binary left op right =>
    p.expr left >> word " " >> word op.text (by cases op <;> decide) >> word " " >> p.expr right
  | .methodExpr recv name => p.type recv >> word "." >> p.ident name
  | .bad => word "BadExpr"

/-! ### Declarations -/

/-- A specification. -/
def spec : Spec → Draft
  | .importSpec s =>
    p.doc s.doc
      >> option (fun name => p.ident name >> word " ") s.name
      >> p.symbol s.path.value
      >> p.trailing s.comment
  | .valueSpec s =>
    p.doc s.doc
      >> p.idents s.names
      >> option (fun typ => word " " >> p.type typ) s.typ
      >> (if s.values.isEmpty then .empty else word " = " >> p.exprs s.values)
      >> p.trailing s.comment
  | .typeSpec s =>
    p.doc s.doc
      >> p.ident s.name
      >> option p.typeParams s.typeParams
      >> (if s.isAlias then word " = " else word " ")
      >> p.type s.typ
      >> p.trailing s.comment

/-- The specifications of a declaration: a single one follows the keyword unless it is grouped. -/
def specs (grouped : Bool) : List Spec → Draft
  | [s] =>
    if grouped then enclosed .round (nest (line >> p.spec s) >> line) else p.spec s
  | list => enclosed .round (nest (concat (fun s => line >> p.spec s) list) >> line)

/-- A declaration. -/
def decl (id : Id .decl) : Draft := do
  match (← p.store.get id : Decl) with
  | .gen decl =>
    p.doc decl.doc
      >> word decl.kind.text (by cases decl.kind <;> decide)
      >> word " "
      >> (do p.specs decl.grouped (← p.store.items decl.specs).toList)
  | .bad => word "BadDecl"

/-- A function declaration. -/
def funcDecl (id : Id .func) : Draft := do
  let func ← p.store.get id
  p.doc func.doc
    >> word "func "
    >> option (fun recv => p.params recv >> word " ") func.recv
    >> p.ident func.name
    >> option p.typeParams func.typeParams
    >> p.signature func.signature
    >> option (fun body => word " " >> p.block body.stmts) func.body

/-- A declaration at the top of a file. -/
def topLevelDecl : TopLevelDecl → Draft
  | .decl id => p.decl id
  | .func id => p.funcDecl id

/-- A source file. -/
def file (id : Id .file) : Draft := do
  let file ← p.store.get id
  p.doc file.doc
    >> word "package "
    >> p.ident file.name
    >> (do concat (fun d => line >> line >> p.topLevelDecl d) (← p.store.items file.decls).toList)
    >> line

/-- The files of a package, one after another. -/
def package (pkg : Package) : Draft :=
  p.list line p.file pkg.files

/-! ### Statements -/

/-- A simple statement. -/
def simple (id : Id .simpleStmt) : Draft := do
  match (← p.store.get id : SimpleStmt) with
  | .empty => Draft.empty
  | .expr x => p.expr x
  | .send chan value => p.expr chan >> word " <- " >> p.expr value
  | .incDec x op => p.expr x >> word op.text (by cases op <;> decide)
  | .assign lhs op rhs =>
    p.exprs lhs >> word " " >> word op.text (by cases op <;> decide) >> word " " >> p.exprs rhs
  | .shortVarDecl names values => p.idents names >> word " := " >> p.exprs values

/-- A label after a blank. -/
def label : Option IdentName → Draft :=
  option fun name => word " " >> p.ident name

/-- A jump. -/
def branch : BranchStmt → Draft
  | .breakTo label => word "break" >> p.label label
  | .continueTo label => word "continue" >> p.label label
  | .goto label => word "goto" >> p.label (some label)
  | .fallthrough => word "fallthrough"

/-- The initial statement of a header, with its semicolon. -/
def headerInit : Option (Id .simpleStmt) → Draft :=
  option fun init => p.simple init >> word "; "

/-- The header of a loop. A value without a key is not printed. -/
def forHeader : ForKind → Draft
  | .infinite => .empty
  | .cond x => p.expr x >> word " "
  | .clause init cond post =>
    option p.simple init >> word "; " >> option p.expr cond >> word "; " >> option p.simple post
      >> word " "
  | .range key value define x =>
    option (fun key =>
        p.expr key
          >> option (fun value => word ", " >> p.expr value) value
          >> (if define then word " := " else word " = ")) key
      >> word "range "
      >> p.expr x
      >> word " "

/-- The statements of a clause, one level deeper than the clause. -/
def caseBody (stmts : Segment .stmts) : Draft :=
  nest (do concat (fun id => line >> p.stmt id) (← p.store.items stmts).toList)

/-- An item of a case in a type switch. -/
def typeCaseElem : TypeCaseElem → Draft
  | .type typ => p.type typ
  | .nil => word "nil"

/-- A clause of a switch. -/
def switchClause (id : Id .switchClause) : Draft := do
  match (← p.store.get id : SwitchClause) with
  | .exprCase items stmts =>
    (if items.isEmpty then word "default:" else word "case " >> p.exprs items >> word ":")
      >> p.caseBody stmts
  | .typeCase items stmts =>
    (if items.isEmpty then word "default:"
      else word "case " >> p.list (word ", ") p.typeCaseElem items >> word ":")
      >> p.caseBody stmts

/-- A clause of a select. -/
def commClause (id : Id .commClause) : Draft := do
  let clause ← p.store.get id
  (match clause.comm with
    | some comm => word "case " >> p.simple comm >> word ":"
    | none => word "default:")
    >> p.caseBody clause.stmts

/-- Clauses in braces, at the indentation of their statement. -/
def clauses {q : Pool} (f : q.Item → Draft) (seg : Segment q) : Draft := do
  let list ← p.store.items seg
  enclosed .curly (concat (fun c => line >> f c) list.toList >> line)

/-- A statement. -/
def stmtBody (id : Id .stmt) : Draft := do
  match (← p.store.get id : Stmt) with
  | .simple s => p.simple s
  | .decl d => p.decl d
  | .labeled label stmt => p.ident label >> word ":" >> line >> p.stmt stmt
  | .goStmt call => word "go " >> p.expr call
  | .deferStmt call => word "defer " >> p.expr call
  | .returnStmt results =>
    word "return" >> (if results.isEmpty then .empty else word " " >> p.exprs results)
  | .branch b => p.branch b
  | .block stmts => p.block stmts
  | .ifStmt init cond thenBlock elseStmt =>
    word "if " >> p.headerInit init >> p.expr cond >> word " " >> p.block thenBlock.stmts
      >> option (fun id => word " else " >> p.stmt id) elseStmt
  | .forStmt kind block => word "for " >> p.forHeader kind >> p.block block.stmts
  | .switchStmt init tag clauses =>
    word "switch " >> p.headerInit init
      >> option (fun tag => p.expr tag >> word " ") tag
      >> p.clauses p.switchClause clauses
  | .typeSwitch init guard clauses =>
    word "switch " >> p.headerInit init
      >> option (fun bind => p.ident bind >> word " := ") guard.bind
      >> p.expr guard.x >> word "." >> enclosed .round (word "type") >> word " "
      >> p.clauses p.switchClause clauses
  | .select clauses => word "select " >> p.clauses p.commClause clauses
  | .bad => word "BadStmt"

/-! ### Parts and nodes -/

/-- A part, in terms of the parts below. -/
def body : Part → Draft
  | .expr id => p.exprBody id
  | .type id => p.typeBody id
  | .stmt id => p.stmtBody id
  | .literal lit => p.literalBody lit

/-- Any node. -/
def node : Node → Draft
  | ⟨.stored .comment, id⟩ => p.comment id
  | ⟨.stored .commentGroup, id⟩ => p.commentGroup id
  | ⟨.stored .field, id⟩ => p.field id
  | ⟨.stored .expr, id⟩ => p.expr id
  | ⟨.stored .type, id⟩ => p.type id
  | ⟨.stored .signature, id⟩ => word "func" >> p.signature id
  | ⟨.stored .typeParams, id⟩ => p.typeParams id
  | ⟨.stored .typeParamDecl, id⟩ => p.typeParamDecl id
  | ⟨.stored .simpleStmt, id⟩ => p.simple id
  | ⟨.stored .stmt, id⟩ => p.stmt id
  | ⟨.stored .switchClause, id⟩ => p.switchClause id
  | ⟨.stored .commClause, id⟩ => p.commClause id
  | ⟨.stored .decl, id⟩ => p.decl id
  | ⟨.stored .func, id⟩ => p.funcDecl id
  | ⟨.stored .file, id⟩ => p.file id
  | ⟨.fieldList, list⟩ => p.params list
  | ⟨.ident, name⟩ => p.ident name
  | ⟨.basicLit, lit⟩ => p.symbol lit.value
  | ⟨.block, block⟩ => p.block block.stmts
  | ⟨.expandedBlock, block⟩ => p.block block.stmts
  | ⟨.spec, spec⟩ => p.spec spec
  | ⟨.package, pkg⟩ => p.package pkg

end Drafter

namespace Store

variable (store : Store) (names : NameTable)

/-- The draft of a part, through at most `depth` levels of parts. -/
def draftPart : (depth : Nat) → Part → Draft
  | 0, _ => .error .tooDeep
  | depth + 1, part => Drafter.body ⟨store, names, draftPart depth⟩ part

/-- The draft of a node. -/
def draft (depth : Nat) (node : Node) : Draft :=
  Drafter.node ⟨store, names, store.draftPart names depth⟩ node

end Store

end GoTree
