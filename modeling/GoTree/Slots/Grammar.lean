import GoTree.Slots.Basic

/-!
# The slots of each construct

For each construct of the grammar, its slots in surface order. Every slot has the label of the
field that holds it. Parts that are not nodes themselves (the elements of a composite literal, the
header of a loop, the results of a signature, …) are seen through: their slots count among those of
the node around them, under the labels of the part.

Three things are not slots: the name of an identifier expression, the text of a literal expression
and the list of all comment groups of a file.
-/

namespace GoTree

open Slots (childSlot nameSlot literalSlot fieldListSlot blockSlot listSlot optionSlot)

/-! ### Comments, fields and signatures -/

/-- The slots of a comment group. -/
def CommentGroup.slots (x : CommentGroup) : Slots CommentGroup := do
  return { x with comments := ← listSlot "CommentGroup.comments" x.comments }

/-- The slots of a field list. -/
def FieldList.slots (x : FieldList) : Slots FieldList := do
  return { x with fields := ← listSlot "FieldList.fields" x.fields }

/-- The slots of a field. -/
def Field.slots (x : Field) : Slots Field := do
  let doc ← optionSlot (childSlot "Field.doc") x.doc
  let names ← listSlot "Field.names" x.names
  let typ ← childSlot "Field.typ" x.typ
  let tag ← optionSlot (literalSlot "Field.tag") x.tag
  let comment ← optionSlot (childSlot "Field.comment") x.comment
  return { x with doc, names, typ, tag, comment }

/-- The slots of results. -/
def Results.slots : Results → Slots Results
  | .params list => do return .params (← fieldListSlot "Results::Params.0" list)
  | .type typ => do return .type (← childSlot "Results::Type.0" typ)

/-- The slots of a signature. -/
def Signature.slots (x : Signature) : Slots Signature := do
  let params ← fieldListSlot "Signature.params" x.params
  let results ← optionSlot Results.slots x.results
  return { params, results }

/-! ### Types -/

/-- The slots of an array length. -/
def ArrayLen.slots : ArrayLen → Slots ArrayLen
  | .expr x => do return .expr (← childSlot "ArrayLen::Expr.0" x)
  | .ellipsis => pure .ellipsis

/-- The slots of a type term. -/
def TypeTerm.slots : TypeTerm → Slots TypeTerm
  | .tilde typ => do return .tilde (← childSlot "TypeTerm::Tilde.typ" typ)
  | .type typ => do return .type (← childSlot "TypeTerm::Type.typ" typ)

/-- The slots of a union. -/
def TypeElem.slots (x : TypeElem) : Slots TypeElem := do
  return { x with terms := ← listSlot "TypeElem.terms" x.terms }

/-- The slots of a member of an interface. -/
def InterfaceElem.slots : InterfaceElem → Slots InterfaceElem
  | .method n sig => do
      let n ← nameSlot "InterfaceElem::Method.name" n
      let sig ← childSlot "InterfaceElem::Method.sig" sig
      return .method n sig
  | .typeElem elem => do return .typeElem (← elem.slots)

/-- The slots of a type. -/
def TypeExpr.slots : TypeExpr → Slots TypeExpr
  | .named pkg n args => do
      let pkg ← optionSlot (nameSlot "Type::Named.pkg") pkg
      let n ← nameSlot "Type::Named.name" n
      let args ← listSlot "Type::Named.args" args
      return .named pkg n args
  | .pointer elem => do return .pointer (← childSlot "Type::Pointer.elem" elem)
  | .array len elem => do
      let len ← len.slots
      let elem ← childSlot "Type::Array.elem" elem
      return .array len elem
  | .slice elem => do return .slice (← childSlot "Type::Slice.elem" elem)
  | .map key val => do
      let key ← childSlot "Type::Map.key" key
      let val ← childSlot "Type::Map.val" val
      return .map key val
  | .chan dir elem => do return .chan dir (← childSlot "Type::Chan.elem" elem)
  | .struct fields => do return .struct (← fieldListSlot "Type::Struct.fields" fields)
  | .interface elems => do return .interface (← listSlot "Type::Interface.elems" elems)
  | .func sig => do return .func (← childSlot "Type::Func.sig" sig)
  | .paren typ => do return .paren (← childSlot "Type::Paren.typ" typ)
  | .bad => pure .bad

/-- The slots of a constraint. -/
def TypeConstraint.slots : TypeConstraint → Slots TypeConstraint
  | .any => pure .any
  | .typeElem elem => do return .typeElem (← elem.slots)
  | .interface typ => do return .interface (← childSlot "TypeConstraint::Interface.0" typ)

/-- The slots of a group of type parameters. -/
def TypeParamDecl.slots (x : TypeParamDecl) : Slots TypeParamDecl := do
  let names ← listSlot "TypeParamDecl.names" x.names
  let constraint ← x.constraint.slots
  return { names, constraint }

/-- The slots of type parameters. -/
def TypeParams.slots (x : TypeParams) : Slots TypeParams := do
  return { x with params := ← listSlot "TypeParams.params" x.params }

/-! ### Expressions -/

/-- The slots of a block. -/
def Block.slots (x : Block) : Slots Block := do
  return { x with stmts := ← listSlot "Block.stmts" x.stmts }

/-- The slots of the elements of a literal. -/
def LiteralValue.slots (x : LiteralValue) : Slots LiteralValue := do
  return { x with elements := ← listSlot "LiteralValue.elements" x.elements }

/-- The slots of a key. -/
def Key.slots : Key → Slots Key
  | .fieldName n => do return .fieldName (← nameSlot "Key::FieldName.0" n)
  | .expr x => do return .expr (← childSlot "Key::Expr.0" x)
  | .literal lit => do return .literal (← lit.slots)

/-- The slots of the value of an element. -/
def Element.slots : Element → Slots Element
  | .expr x => do return .expr (← childSlot "Element::Expr.0" x)
  | .literal lit => do return .literal (← lit.slots)

/-- The slots of an element. -/
def KeyedElement.slots (x : KeyedElement) : Slots KeyedElement := do
  let key ← optionSlot Key.slots x.key
  let value ← x.value.slots
  return { key, value }

/-- The slots of an item in brackets. -/
def ExprOrType.slots : ExprOrType → Slots ExprOrType
  | .expr x => do return .expr (← childSlot "ExprOrType::Expr.0" x)
  | .type typ => do return .type (← childSlot "ExprOrType::Type.0" typ)

/-- The slots of what is called. -/
def Callee.slots : Callee → Slots Callee
  | .expr x => do return .expr (← childSlot "CallCallee::Expr.0" x)
  | .type typ => do return .type (← childSlot "CallCallee::Type.0" typ)

/-- The slots of an expression. -/
def Expr.slots : Expr → Slots Expr
  | .ident n => pure (.ident n)
  | .basicLit lit => pure (.basicLit lit)
  | .funcLit sig body => do
      let sig ← childSlot "Expr::FuncLit.sig" sig
      let body ← blockSlot "Expr::FuncLit.body" body
      return .funcLit sig body
  | .compositeLit typ lit => do
      let typ ← childSlot "Expr::CompositeLit.typ" typ
      let lit ← lit.slots
      return .compositeLit typ lit
  | .index base args => do
      let base ← childSlot "Expr::IndexOrInstantiate.base" base
      let args ← listSlot "Expr::IndexOrInstantiate.args" args
      return .index base args
  | .paren x => do return .paren (← childSlot "Expr::Paren.expr" x)
  | .selector x sel => do
      let x ← childSlot "Expr::Selector.expr" x
      let sel ← nameSlot "Expr::Selector.sel" sel
      return .selector x sel
  | .slice x lo hi max => do
      let x ← childSlot "Expr::Slice.expr" x
      let lo ← optionSlot (childSlot "Expr::Slice.lo") lo
      let hi ← optionSlot (childSlot "Expr::Slice.hi") hi
      let max ← optionSlot (childSlot "Expr::Slice.max") max
      return .slice x lo hi max
  | .typeAssert x typ => do
      let x ← childSlot "Expr::TypeAssert.expr" x
      let typ ← optionSlot (childSlot "Expr::TypeAssert.typ") typ
      return .typeAssert x typ
  | .call callee typeArg args ellipsis => do
      let callee ← callee.slots
      let typeArg ← optionSlot (childSlot "Expr::Call.type_arg") typeArg
      let args ← listSlot "Expr::Call.args" args
      return .call callee typeArg args ellipsis
  | .unary op x => do return .unary op (← childSlot "Expr::Unary.expr" x)
  | .binary left op right => do
      let left ← childSlot "Expr::Binary.left" left
      let right ← childSlot "Expr::Binary.right" right
      return .binary left op right
  | .methodExpr recv n => do
      let recv ← childSlot "Expr::MethodExpr.recv" recv
      let n ← nameSlot "Expr::MethodExpr.name" n
      return .methodExpr recv n
  | .bad => pure .bad

/-! ### Statements -/

/-- The slots of a simple statement. -/
def SimpleStmt.slots : SimpleStmt → Slots SimpleStmt
  | .empty => pure .empty
  | .expr x => do return .expr (← childSlot "SimpleStmt::Expr.0" x)
  | .send chan value => do
      let chan ← childSlot "SimpleStmt::Send.chan" chan
      let value ← childSlot "SimpleStmt::Send.value" value
      return .send chan value
  | .incDec x op => do return .incDec (← childSlot "SimpleStmt::IncDec.expr" x) op
  | .assign lhs op rhs => do
      let lhs ← listSlot "SimpleStmt::Assign.lhs" lhs
      let rhs ← listSlot "SimpleStmt::Assign.rhs" rhs
      return .assign lhs op rhs
  | .shortVarDecl names values => do
      let names ← listSlot "SimpleStmt::ShortVarDecl.names" names
      let values ← listSlot "SimpleStmt::ShortVarDecl.values" values
      return .shortVarDecl names values

/-- The slots of a jump. -/
def BranchStmt.slots : BranchStmt → Slots BranchStmt
  | .breakTo label => do return .breakTo (← optionSlot (nameSlot "BranchStmt::Break.label") label)
  | .continueTo label => do
      return .continueTo (← optionSlot (nameSlot "BranchStmt::Continue.label") label)
  | .goto label => do return .goto (← nameSlot "BranchStmt::Goto.label" label)
  | .fallthrough => pure .fallthrough

/-- The slots of the header of a loop. -/
def ForKind.slots : ForKind → Slots ForKind
  | .infinite => pure .infinite
  | .cond x => do return .cond (← childSlot "ForKind::Cond.0" x)
  | .clause init test post => do
      let init ← optionSlot (childSlot "ForKind::Clause.init") init
      let test ← optionSlot (childSlot "ForKind::Clause.cond") test
      let post ← optionSlot (childSlot "ForKind::Clause.post") post
      return .clause init test post
  | .range key value define x => do
      let key ← optionSlot (childSlot "ForKind::Range.key") key
      let value ← optionSlot (childSlot "ForKind::Range.value") value
      let x ← childSlot "ForKind::Range.expr" x
      return .range key value define x

/-- The slots of the guard of a type switch. -/
def TypeSwitchGuard.slots (x : TypeSwitchGuard) : Slots TypeSwitchGuard := do
  let bind ← optionSlot (nameSlot "TypeSwitchGuard.bind") x.bind
  let x ← childSlot "TypeSwitchGuard.x" x.x
  return { bind, x }

/-- The slots of an item of a type case. -/
def TypeCaseElem.slots : TypeCaseElem → Slots TypeCaseElem
  | .type typ => do return .type (← childSlot "TypeCaseElem::Type.0" typ)
  | .nil => pure .nil

/-- The slots of a clause of a switch. -/
def SwitchClause.slots : SwitchClause → Slots SwitchClause
  | .exprCase items stmts => do
      let items ← listSlot "SwitchClause::ExprCase.items" items
      let stmts ← listSlot "SwitchClause::ExprCase.stmts" stmts
      return .exprCase items stmts
  | .typeCase items stmts => do
      let items ← listSlot "SwitchClause::TypeCase.items" items
      let stmts ← listSlot "SwitchClause::TypeCase.stmts" stmts
      return .typeCase items stmts

/-- The slots of a clause of a select. -/
def CommClause.slots (x : CommClause) : Slots CommClause := do
  let comm ← optionSlot (childSlot "CommClause.comm") x.comm
  let stmts ← listSlot "CommClause.stmts" x.stmts
  return { comm, stmts }

/-- The slots of a statement. -/
def Stmt.slots : Stmt → Slots Stmt
  | .simple s => do return .simple (← childSlot "Stmt::Simple.0" s)
  | .decl d => do return .decl (← childSlot "Stmt::Decl.0" d)
  | .labeled label stmt => do
      let label ← nameSlot "Stmt::Labeled.label" label
      let stmt ← childSlot "Stmt::Labeled.stmt" stmt
      return .labeled label stmt
  | .goStmt call => do return .goStmt (← childSlot "Stmt::Go.call" call)
  | .deferStmt call => do return .deferStmt (← childSlot "Stmt::Defer.call" call)
  | .returnStmt results => do return .returnStmt (← listSlot "Stmt::Return.results" results)
  | .branch b => do return .branch (← b.slots)
  | .block stmts => do return .block (← listSlot "Stmt::Block.stmts" stmts)
  | .ifStmt init cond thenBlock elseStmt => do
      let init ← optionSlot (childSlot "Stmt::If.init") init
      let cond ← childSlot "Stmt::If.cond" cond
      let thenBlock ← blockSlot "Stmt::If.then_block" thenBlock
      let elseStmt ← optionSlot (childSlot "Stmt::If.else_stmt") elseStmt
      return .ifStmt init cond thenBlock elseStmt
  | .forStmt kind body => do
      let kind ← kind.slots
      let body ← blockSlot "Stmt::For.block" body
      return .forStmt kind body
  | .switchStmt init tag clauses => do
      let init ← optionSlot (childSlot "Stmt::Switch.init") init
      let tag ← optionSlot (childSlot "Stmt::Switch.tag") tag
      let clauses ← listSlot "Stmt::Switch.clauses" clauses
      return .switchStmt init tag clauses
  | .typeSwitch init guard clauses => do
      let init ← optionSlot (childSlot "Stmt::TypeSwitch.init") init
      let guard ← guard.slots
      let clauses ← listSlot "Stmt::TypeSwitch.clauses" clauses
      return .typeSwitch init guard clauses
  | .select clauses => do return .select (← listSlot "Stmt::Select.clauses" clauses)
  | .bad => pure .bad

/-! ### Declarations, files and packages -/

/-- The slots of an import. -/
def ImportSpec.slots (x : ImportSpec) : Slots ImportSpec := do
  let doc ← optionSlot (childSlot "ImportSpec.doc") x.doc
  let name ← optionSlot (nameSlot "ImportSpec.name") x.name
  let path ← literalSlot "ImportSpec.path" x.path
  let comment ← optionSlot (childSlot "ImportSpec.comment") x.comment
  return { doc, name, path, comment }

/-- The slots of a value specification. -/
def ValueSpec.slots (x : ValueSpec) : Slots ValueSpec := do
  let doc ← optionSlot (childSlot "ValueSpec.doc") x.doc
  let names ← listSlot "ValueSpec.names" x.names
  let typ ← optionSlot (childSlot "ValueSpec.typ") x.typ
  let values ← listSlot "ValueSpec.values" x.values
  let comment ← optionSlot (childSlot "ValueSpec.comment") x.comment
  return { doc, names, typ, values, comment }

/-- The slots of a type specification. -/
def TypeSpec.slots (x : TypeSpec) : Slots TypeSpec := do
  let doc ← optionSlot (childSlot "TypeSpec.doc") x.doc
  let name ← nameSlot "TypeSpec.name" x.name
  let typeParams ← optionSlot (childSlot "TypeSpec.type_params") x.typeParams
  let typ ← childSlot "TypeSpec.typ" x.typ
  let comment ← optionSlot (childSlot "TypeSpec.comment") x.comment
  return { x with doc, name, typeParams, typ, comment }

/-- The slots of a specification. -/
def Spec.slots : Spec → Slots Spec
  | .importSpec spec => do return .importSpec (← spec.slots)
  | .valueSpec spec => do return .valueSpec (← spec.slots)
  | .typeSpec spec => do return .typeSpec (← spec.slots)

/-- The slots of a general declaration. -/
def GenDecl.slots (x : GenDecl) : Slots GenDecl := do
  let doc ← optionSlot (childSlot "GenDecl.doc") x.doc
  let specs ← listSlot "GenDecl.specs" x.specs
  return { x with doc, specs }

/-- The slots of a declaration. -/
def Decl.slots : Decl → Slots Decl
  | .gen decl => do return .gen (← decl.slots)
  | .bad => pure .bad

/-- The slots of a function declaration. -/
def FuncDecl.slots (x : FuncDecl) : Slots FuncDecl := do
  let doc ← optionSlot (childSlot "FuncDecl.doc") x.doc
  let recv ← optionSlot (fieldListSlot "FuncDecl.recv") x.recv
  let name ← nameSlot "FuncDecl.name" x.name
  let typeParams ← optionSlot (childSlot "FuncDecl.type_params") x.typeParams
  let signature ← childSlot "FuncDecl.signature" x.signature
  let body ← optionSlot (blockSlot "FuncDecl.body") x.body
  return { doc, recv, name, typeParams, signature, body }

/-- The slots of a declaration at the top of a file. -/
def TopLevelDecl.slots : TopLevelDecl → Slots TopLevelDecl
  | .decl d => do return .decl (← childSlot "TopLevelDecl::Decl.0" d)
  | .func f => do return .func (← childSlot "TopLevelDecl::Func.0" f)

/-- The slots of a file. -/
def SourceFile.slots (x : SourceFile) : Slots SourceFile := do
  let doc ← optionSlot (childSlot "SourceFile.doc") x.doc
  let name ← nameSlot "SourceFile.name" x.name
  let decls ← listSlot "SourceFile.decls" x.decls
  return { x with doc, name, decls }

/-- The slots of a package. -/
def Package.slots (x : Package) : Slots Package := do
  return { x with files := ← listSlot "Package.files" x.files }

/-! ### By category, kind and pool -/

/-- The slots of a stored node. -/
def Category.slots : (c : Category) → c.Payload → Slots c.Payload
  | .decl, x => Decl.slots x
  | .stmt, x => Stmt.slots x
  | .simpleStmt, x => SimpleStmt.slots x
  | .expr, x => Expr.slots x
  | .type, x => TypeExpr.slots x
  | .signature, x => Signature.slots x
  | .func, x => FuncDecl.slots x
  | .field, x => Field.slots x
  | .switchClause, x => SwitchClause.slots x
  | .commClause, x => CommClause.slots x
  | .typeParams, x => TypeParams.slots x
  | .typeParamDecl, x => TypeParamDecl.slots x
  | .comment, x => Slots.done x
  | .commentGroup, x => CommentGroup.slots x
  | .file, x => SourceFile.slots x

/-- The slots of a value that is a node by itself; those of a stored node are in its payload. -/
def Kind.slots : (k : Kind) → k.Value → Slots k.Value
  | .stored _, id => .done id
  | .fieldList, x => FieldList.slots x
  | .ident, x => Slots.done x
  | .basicLit, x => Slots.done x
  | .block, x => Block.slots x
  | .expandedBlock, x => Block.slots x
  | .spec, x => Spec.slots x
  | .package, x => Package.slots x

/-- The slots of an item of a list. An item that is a node is one slot with the label of its list;
any other item has the slots of its parts. -/
def Pool.slots (label : String) : (p : Pool) → p.Item → Slots p.Item
  | .identNames, x => nameSlot label x
  | .exprs, x => childSlot label x
  | .stmts, x => childSlot label x
  | .types, x => childSlot label x
  | .fields, x => childSlot label x
  | .specs, x => .node label .spec x .done
  | .keyedElements, x => KeyedElement.slots x
  | .topDecls, x => TopLevelDecl.slots x
  | .switchClauses, x => childSlot label x
  | .commClauses, x => childSlot label x
  | .typeCaseElems, x => TypeCaseElem.slots x
  | .typeTerms, x => TypeTerm.slots x
  | .interfaceElems, x => InterfaceElem.slots x
  | .typeParamDecls, x => childSlot label x
  | .comments, x => childSlot label x
  | .commentGroups, x => childSlot label x
  | .exprOrTypes, x => ExprOrType.slots x
  | .files, x => childSlot label x

end GoTree
