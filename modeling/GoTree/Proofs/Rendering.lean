import GoTree.Print.Drafter

/-!
# Printing writes a document

Printing moves one pen through a node: brackets are opened and closed by separate strings, and the
indentation is a number that goes up and down on the way. Here it is shown to be orderly.
`Draft.draw` writes a finished document at the indentation of the pen, which it leaves as it is, and
`Store.render_eq_draw` says that printing a node does just that: with any pen, `Store.render` comes
to the same as to draw the draft of the node. So each bracket that is opened gets closed, and each
level of indentation is taken back, on every path through the printer.

The actions of a document are those of its parts, one lemma for each way of putting drafts
together. From these, there is one lemma for each function of the printer. A `Drafter` stands for
the printer that draws the parts below as it drafts them (`Drafter.printer`), and the knot is tied
by induction on the depth.
-/

namespace GoTree

open PrintM (push newline indent dedent when join)

/-! ### Actions with a pen -/

namespace PrintM

variable {α : Type}

/-- A string may be written in two pieces. -/
theorem push_append (a b : String) : push (a ++ b) = (do push a; push b) := by
  funext pen
  refine congrArg (fun out => Except.ok ((), { pen with out })) ?_
  exact String.append_assoc.symm

/-- Reading from the store may be put before writing. -/
theorem push_read {β : Type} (s : String) (x : Except Fault α) (k : α → PrintM β) :
    (do push s; k (← x)) = (do let a ← x; push s; k a) := by
  rcases x with e | a
  · rfl
  · rfl

/-- After the first value, each one comes with the action between. -/
private theorem forM_zipIdx_of_pos {sep : PrintM Unit} {f : α → PrintM Unit} (as : List α) {n : Nat}
    (hn : 0 < n) :
    ((as.zipIdx n).forM fun (a, i) => do when (0 < i) sep; f a) =
      as.forM fun a => (do sep; f a) := by
  induction as generalizing n with
  | nil => rfl
  | cons a as ih =>
    rw [List.zipIdx_cons, List.forM, List.forM, ih (Nat.lt_succ_of_lt hn)]
    simp [when, hn]

theorem join_cons (sep : PrintM Unit) (f : α → PrintM Unit) (a : α) (as : List α) :
    join sep f (a :: as) = (do f a; as.forM fun a => do sep; f a) := by
  rw [join, List.zipIdx_cons, List.forM, forM_zipIdx_of_pos as Nat.zero_lt_one]
  simp [when]

end PrintM

/-! ### Drawing drafts -/

namespace Draft

variable {α : Type} {d e : Draft}

@[simp]
theorem draw_empty : draw empty = pure () :=
  rfl

@[simp]
theorem draw_word {text : String}
    {plain : text.toList.all (fun c => !(c == '\n' || Bracket.isBracket c)) = true} :
    draw (word text plain) = push text :=
  rfl

@[simp]
theorem draw_line : draw line = newline :=
  rfl

@[simp]
theorem draw_andThen : draw (d >> e) = (do d.draw; e.draw) := by
  funext pen
  rcases d with f | a
  · rfl
  · rcases e with f | b
    · rfl
    · rfl

/-- The level of indentation that is added is there to be taken back. -/
@[simp]
theorem draw_nest : draw (nest d) = (do indent; d.draw; dedent) := by
  funext pen
  rcases d with f | a
  · rfl
  · rfl

theorem draw_enclosed (b : Bracket) : draw (enclosed b d) =
    (do push (.singleton b.opening); d.draw; push (.singleton b.closing)) := by
  funext pen
  rcases d with f | a
  · rfl
  · refine congrArg (fun out => Except.ok ((), { pen with out })) ?_
    simp [Doc.write]

@[simp]
theorem draw_round : draw (enclosed .round d) = (do push "("; d.draw; push ")") :=
  draw_enclosed .round

@[simp]
theorem draw_square : draw (enclosed .square d) = (do push "["; d.draw; push "]") :=
  draw_enclosed .square

@[simp]
theorem draw_curly : draw (enclosed .curly d) = (do push "\x7b"; d.draw; push "\x7d") :=
  draw_enclosed .curly

/-- What is read from the store is read at the same point. -/
theorem draw_bind (x : Except Fault α) (f : α → Draft) :
    draw (x >>= f) = (do (f (← x)).draw) := by
  rcases x with e | a
  · rfl
  · rfl

theorem draw_read {x : Except Fault α} {f : α → Draft} {g : α → PrintM Unit}
    (h : ∀ a, (f a).draw = g a) : draw (x >>= f) = (do g (← x)) := by
  rw [draw_bind]
  exact congrArg (liftM x >>= ·) (funext h)

@[simp]
theorem draw_option (f : α → Draft) (o : Option α) :
    draw (option f o) = o.forM fun a => (f a).draw := by
  cases o with
  | none => rfl
  | some a => rfl

@[simp]
theorem draw_concat (f : α → Draft) (as : List α) :
    draw (concat f as) = as.forM fun a => (f a).draw := by
  induction as with
  | nil => rfl
  | cons a as ih =>
    rw [concat, draw_andThen, ih]
    rfl

@[simp]
theorem draw_join (sep : Draft) (f : α → Draft) (as : List α) :
    draw (join sep f as) = PrintM.join sep.draw (fun a => (f a).draw) as := by
  cases as with
  | nil => rfl
  | cons a as =>
    rw [join, draw_andThen, draw_concat, PrintM.join_cons]
    simp

@[simp]
theorem draw_ite_empty (c : Bool) : draw (if c then empty else d) = when (!c) d.draw := by
  cases c with
  | false => rfl
  | true => rfl

@[simp]
theorem draw_ite_else_empty (c : Bool) : draw (if c then d else empty) = when c d.draw := by
  cases c with
  | false => rfl
  | true => rfl

end Draft

/-! ### The functions of the printer -/

/-- The loop over the bounds of a slice stops before a third one that is missing. -/
private theorem Printer.bounds_eq (p : Printer) (lo hi max : Option (Id .expr)) :
    p.bounds lo hi max = (do
      lo.forM p.expr
      push ":"
      hi.forM p.expr
      max.forM fun max => do
        push ":"
        p.expr max) := by
  cases max with
  | none => simp [bounds, when]
  | some max => simp [bounds, when]

namespace Drafter

open Draft

variable (q : Drafter)

/-- The printer that draws the parts below. -/
def printer : Printer :=
  ⟨q.store, q.names, fun x => (q.part x).draw⟩

@[simp]
theorem printer_store : q.printer.store = q.store :=
  rfl

@[simp]
theorem draw_expr (id : Id .expr) : (q.expr id).draw = q.printer.expr id :=
  rfl

@[simp]
theorem draw_type (id : Id .type) : (q.type id).draw = q.printer.type id :=
  rfl

@[simp]
theorem draw_stmt (id : Id .stmt) : (q.stmt id).draw = q.printer.stmt id :=
  rfl

@[simp]
theorem draw_literal (lit : LiteralValue) : (q.literal lit).draw = q.printer.literal lit :=
  rfl

@[simp]
theorem draw_symbol (sym : Symbol) : (q.symbol sym).draw = q.printer.symbol sym :=
  draw_read fun _ => rfl

@[simp]
theorem draw_ident (name : IdentName) : (q.ident name).draw = q.printer.ident name :=
  q.draw_symbol name.sym

theorem draw_list {r : Pool} {sep : Draft} {f : r.Item → Draft} {g : r.Item → PrintM Unit}
    (h : ∀ x, (f x).draw = g x) (seg : Segment r) :
    (q.list sep f seg).draw = q.printer.list sep.draw g seg := by
  refine draw_read fun xs => ?_
  rw [draw_join, funext h]

@[simp]
theorem draw_idents (seg : Segment .identNames) : (q.idents seg).draw = q.printer.idents seg :=
  q.draw_list q.draw_ident seg

@[simp]
theorem draw_exprs (seg : Segment .exprs) : (q.exprs seg).draw = q.printer.exprs seg :=
  q.draw_list q.draw_expr seg

theorem draw_comment (id : Id .comment) : (q.comment id).draw = q.printer.comment id :=
  draw_read fun x => q.draw_symbol x.text

@[simp]
theorem draw_commentGroup (id : Id .commentGroup) :
    (q.commentGroup id).draw = q.printer.commentGroup id :=
  draw_read fun x => q.draw_list q.draw_comment x.comments

@[simp]
theorem draw_doc (o : Option (Id .commentGroup)) : (q.doc o).draw = q.printer.doc o := by
  simp [doc, Printer.doc]

@[simp]
theorem draw_trailing (o : Option (Id .commentGroup)) :
    (q.trailing o).draw = q.printer.trailing o := by
  simp [trailing, Printer.trailing]

/-! ### Fields, signatures and types -/

@[simp]
theorem draw_field (id : Id .field) : (q.field id).draw = q.printer.field id := by
  refine draw_read fun x => ?_
  simp

@[simp]
theorem draw_params (list : FieldList) : (q.params list).draw = q.printer.params list := by
  rw [params, draw_round, q.draw_list q.draw_field]
  rfl

@[simp]
theorem draw_results (r : Results) : (q.results r).draw = q.printer.results r := by
  cases r with
  | params list => simp [results, Printer.results]
  | type typ => simp [results, Printer.results]

@[simp]
theorem draw_signature (id : Id .signature) : (q.signature id).draw = q.printer.signature id := by
  refine draw_read fun x => ?_
  simp

theorem draw_typeTerm (t : TypeTerm) : (q.typeTerm t).draw = q.printer.typeTerm t := by
  cases t with
  | tilde typ => simp [typeTerm, Printer.typeTerm]
  | type typ => rfl

@[simp]
theorem draw_typeElem (elem : TypeElem) : (q.typeElem elem).draw = q.printer.typeElem elem :=
  q.draw_list q.draw_typeTerm elem.terms

@[simp]
theorem draw_constraint (c : TypeConstraint) : (q.constraint c).draw = q.printer.constraint c := by
  cases c with
  | any => rfl
  | typeElem elem => exact q.draw_typeElem elem
  | interface typ => rfl

theorem draw_typeParamDecl (id : Id .typeParamDecl) :
    (q.typeParamDecl id).draw = q.printer.typeParamDecl id := by
  refine draw_read fun x => ?_
  simp

@[simp]
theorem draw_typeParams (id : Id .typeParams) :
    (q.typeParams id).draw = q.printer.typeParams id := by
  rw [Printer.typeParams, PrintM.push_read]
  refine draw_read fun x => ?_
  rw [draw_square, q.draw_list q.draw_typeParamDecl]
  rfl

@[simp]
theorem draw_arrayLen (len : ArrayLen) : (q.arrayLen len).draw = q.printer.arrayLen len := by
  cases len with
  | expr x => rfl
  | ellipsis => rfl

@[simp]
theorem draw_interfaceElem (e : InterfaceElem) :
    (q.interfaceElem e).draw = q.printer.interfaceElem e := by
  cases e with
  | method name sig => simp [interfaceElem, Printer.interfaceElem]
  | typeElem elem => exact q.draw_typeElem elem

@[simp]
theorem draw_structField (id : Id .field) : (q.structField id).draw = q.printer.structField id := by
  refine draw_read fun x => ?_
  simp

/-- Members are written between braces, one level deeper, after a keyword. -/
private theorem draw_members {α : Type} {f : α → Draft} {g : α → PrintM Unit}
    (h : ∀ a, (f a).draw = g a)
    (w : String) {plain : w.toList.all (fun c => !(c == '\n' || Bracket.isBracket c)) = true}
    (xs : Array α) :
    draw (word w plain >> members f xs.toList) =
      if xs.isEmpty then push (w ++ "\x7b\x7d")
      else (do
        push (w ++ " \x7b")
        indent
        xs.toList.forM fun a => do
          newline
          g a
        dedent
        newline
        push "\x7d") := by
  have hempty : push (w ++ "\x7b\x7d") = (do push w; push "\x7b"; push "\x7d") := by
    rw [PrintM.push_append]
    exact congrArg (push w >>= ·) (funext fun _ => PrintM.push_append "\x7b" "\x7d")
  have hopen : push (w ++ " \x7b") = (do push w; push " "; push "\x7b") := by
    rw [PrintM.push_append]
    exact congrArg (push w >>= ·) (funext fun _ => PrintM.push_append " " "\x7b")
  obtain ⟨as⟩ := xs
  cases as with
  | nil => simp [members, hempty]
  | cons a as => simp [members, hopen, h]

theorem draw_typeBody (id : Id .type) : (q.typeBody id).draw = q.printer.typeBody id := by
  refine draw_read fun x => ?_
  cases x with
  | named pkg name args => simp [q.draw_list (r := .types) q.draw_type]
  | pointer elem => simp
  | array len elem => simp
  | slice elem =>
    have hpush : push "[]" = (do push "["; push "]") := PrintM.push_append "[" "]"
    simp [hpush]
  | map key val =>
    have hpush : push "map[" = (do push "map"; push "[") := PrintM.push_append "map" "["
    simp [hpush]
  | chan dir elem => simp
  | struct fields => exact draw_read (draw_members q.draw_structField "struct")
  | interface elems => exact draw_read (draw_members q.draw_interfaceElem "interface")
  | func sig => simp
  | paren typ => simp
  | bad => rfl

/-! ### Expressions -/

@[simp]
theorem draw_block (seg : Segment .stmts) : (q.block seg).draw = q.printer.block seg := by
  have hpush : push "\x7b\x7d" = (do push "\x7b"; push "\x7d") :=
    PrintM.push_append "\x7b" "\x7d"
  refine draw_read fun xs => ?_
  rw [hpush]
  split
  · simp
  · simp

@[simp]
theorem draw_element (e : Element) : (q.element e).draw = q.printer.element e := by
  cases e with
  | expr x => rfl
  | literal lit => rfl

theorem draw_key (k : Key) : (q.key k).draw = (do q.printer.key k; push ": ") := by
  cases k with
  | fieldName name => simp [key, Printer.key]
  | expr x => simp [key, Printer.key]
  | literal lit => simp [key, Printer.key]

theorem draw_keyedElement (e : KeyedElement) :
    (q.keyedElement e).draw = q.printer.keyedElement e := by
  rw [keyedElement, Printer.keyedElement, draw_andThen, draw_option, draw_element]
  cases e.key with
  | none => simp [when]
  | some k => simp [when, draw_key]

theorem draw_literalBody (lit : LiteralValue) :
    (q.literalBody lit).draw = q.printer.literalBody lit := by
  rw [literalBody, draw_curly, q.draw_list q.draw_keyedElement]
  rfl

theorem draw_exprOrType (x : ExprOrType) : (q.exprOrType x).draw = q.printer.exprOrType x := by
  cases x with
  | expr x => rfl
  | type typ => rfl

@[simp]
theorem draw_callee (x : Callee) : (q.callee x).draw = q.printer.callee x := by
  cases x with
  | expr x => rfl
  | type typ => rfl

theorem draw_exprBody (id : Id .expr) : (q.exprBody id).draw = q.printer.exprBody id := by
  refine draw_read fun x => ?_
  cases x with
  | ident name => exact q.draw_ident name
  | basicLit lit => exact q.draw_symbol lit.value
  | funcLit sig body => simp
  | compositeLit typ lit => simp
  | index base args => simp [q.draw_list (r := .exprOrTypes) q.draw_exprOrType]
  | paren x => simp
  | selector x sel => simp
  | slice x lo hi max => simp [Printer.bounds_eq]
  | typeAssert x typ =>
    have hpush : push ".(" = (do push "."; push "(") := PrintM.push_append "." "("
    cases typ with
    | none => simp [hpush]
    | some typ => simp [hpush]
  | call callee typeArg args ellipsis => simp
  | unary op x => simp
  | binary left op right => simp
  | methodExpr recv name => simp
  | bad => rfl

/-! ### Declarations -/

@[simp]
theorem draw_spec (x : Spec) : (q.spec x).draw = q.printer.spec x := by
  cases x with
  | importSpec s => simp [spec, Printer.spec]
  | valueSpec s => simp [spec, Printer.spec]
  | typeSpec s =>
    simp only [spec, Printer.spec]
    cases s.isAlias with
    | false => simp
    | true => simp

/-- A single specification that is not grouped follows the keyword, and all others stand between
parentheses. -/
theorem draw_specs (grouped : Bool) (xs : List Spec) :
    draw (word " " >> q.specs grouped xs) = q.printer.specs grouped xs := by
  have hpush : push " (" = (do push " "; push "(") := PrintM.push_append " " "("
  match grouped, xs with
  | false, [x] => simp [specs, Printer.specs]
  | true, [x] => simp [specs, Printer.specs, hpush]
  | false, [] => simp [specs, Printer.specs, hpush]
  | true, [] => simp [specs, Printer.specs, hpush]
  | false, x :: y :: ys => simp [specs, Printer.specs, hpush]
  | true, x :: y :: ys => simp [specs, Printer.specs, hpush]

@[simp]
theorem draw_decl (id : Id .decl) : (q.decl id).draw = q.printer.decl id := by
  refine draw_read fun x => ?_
  cases x with
  | gen x =>
    simp only [draw_andThen, draw_bind, draw_doc, draw_word, PrintM.push_read]
    refine bind_congr fun _ => bind_congr fun xs => bind_congr fun _ => ?_
    exact draw_andThen.symm.trans (q.draw_specs x.grouped xs.toList)
  | bad => rfl

@[simp]
theorem draw_funcDecl (id : Id .func) : (q.funcDecl id).draw = q.printer.funcDecl id := by
  refine draw_read fun x => ?_
  simp

@[simp]
theorem draw_topLevelDecl (d : TopLevelDecl) :
    (q.topLevelDecl d).draw = q.printer.topLevelDecl d := by
  cases d with
  | decl id => exact q.draw_decl id
  | func id => exact q.draw_funcDecl id

theorem draw_file (id : Id .file) : (q.file id).draw = q.printer.file id := by
  refine draw_read fun x => ?_
  simp [draw_bind]

theorem draw_package (pkg : Package) : (q.package pkg).draw = q.printer.package pkg :=
  q.draw_list q.draw_file pkg.files

/-! ### Statements -/

@[simp]
theorem draw_simple (id : Id .simpleStmt) : (q.simple id).draw = q.printer.simple id := by
  refine draw_read fun x => ?_
  cases x with
  | empty => rfl
  | expr x => rfl
  | send chan value => simp
  | incDec x op => simp
  | assign lhs op rhs => simp
  | shortVarDecl names values => simp

@[simp]
theorem draw_branch (b : BranchStmt) : (q.branch b).draw = q.printer.branch b := by
  cases b with
  | breakTo l => simp [branch, label, Printer.branch, Printer.branchWords]
  | continueTo l => simp [branch, label, Printer.branch, Printer.branchWords]
  | goto l => simp [branch, label, Printer.branch, Printer.branchWords]
  | fallthrough => simp [branch, Printer.branch, Printer.branchWords]

@[simp]
theorem draw_headerInit (o : Option (Id .simpleStmt)) :
    (q.headerInit o).draw = q.printer.headerInit o := by
  simp [headerInit, Printer.headerInit]

@[simp]
theorem draw_forHeader (k : ForKind) : (q.forHeader k).draw = q.printer.forHeader k := by
  cases k with
  | infinite => rfl
  | cond x => simp [forHeader, Printer.forHeader]
  | clause init cond post => simp [forHeader, Printer.forHeader]
  | range key value define x =>
    simp only [forHeader, Printer.forHeader]
    cases define with
    | false => simp
    | true => simp

@[simp]
theorem draw_caseBody (seg : Segment .stmts) : (q.caseBody seg).draw = q.printer.caseBody seg := by
  rw [caseBody, Printer.caseBody, draw_nest, draw_bind]
  simp

theorem draw_typeCaseElem (x : TypeCaseElem) :
    (q.typeCaseElem x).draw = q.printer.typeCaseElem x := by
  cases x with
  | type typ => rfl
  | nil => rfl

theorem draw_switchClause (id : Id .switchClause) :
    (q.switchClause id).draw = q.printer.switchClause id := by
  refine draw_read fun x => ?_
  cases x with
  | exprCase items stmts =>
    simp only [draw_andThen]
    split
    · simp
    · simp
  | typeCase items stmts =>
    simp only [draw_andThen]
    split
    · simp
    · simp [q.draw_list (r := .typeCaseElems) q.draw_typeCaseElem]

theorem draw_commClause (id : Id .commClause) :
    (q.commClause id).draw = q.printer.commClause id := by
  refine draw_read fun x => ?_
  simp only [draw_andThen]
  cases x.comm with
  | none => simp
  | some comm => simp

theorem draw_clauses {r : Pool} {f : r.Item → Draft} {g : r.Item → PrintM Unit}
    (h : ∀ x, (f x).draw = g x) (seg : Segment r) :
    (q.clauses f seg).draw = q.printer.clauses g seg := by
  refine draw_read fun xs => ?_
  simp [h]

theorem draw_stmtBody (id : Id .stmt) : (q.stmtBody id).draw = q.printer.stmtBody id := by
  refine draw_read fun x => ?_
  cases x with
  | simple s => exact q.draw_simple s
  | decl d => exact q.draw_decl d
  | labeled label stmt => simp
  | goStmt call => simp
  | deferStmt call => simp
  | returnStmt results => simp
  | branch b => exact q.draw_branch b
  | block stmts => exact q.draw_block stmts
  | ifStmt init cond thenBlock elseStmt => simp
  | forStmt kind block => simp
  | switchStmt init tag clauses => simp [q.draw_clauses (r := .switchClauses) q.draw_switchClause]
  | typeSwitch init guard clauses =>
    have hpush : push ".(type) " = (do push "."; push "("; push "type"; push ")"; push " ") := by
      rw [show ".(type) " = "." ++ "(" ++ "type" ++ ")" ++ " " from rfl]
      simp only [PrintM.push_append, bind_assoc]
    simp [q.draw_clauses (r := .switchClauses) q.draw_switchClause, hpush]
  | select clauses => simp [q.draw_clauses (r := .commClauses) q.draw_commClause]
  | bad => rfl

/-! ### Parts and nodes -/

theorem draw_body (x : Part) : (q.body x).draw = q.printer.body x := by
  cases x with
  | expr id => exact q.draw_exprBody id
  | type id => exact q.draw_typeBody id
  | stmt id => exact q.draw_stmtBody id
  | literal lit => exact q.draw_literalBody lit

theorem draw_node (n : Node) : (q.node n).draw = q.printer.node n := by
  obtain ⟨k, v⟩ := n
  cases k with
  | stored c =>
    cases c with
    | comment => exact q.draw_comment v
    | commentGroup => exact q.draw_commentGroup v
    | field => exact q.draw_field v
    | expr => exact q.draw_expr v
    | type => exact q.draw_type v
    | signature => simp [node, Printer.node]
    | typeParams => exact q.draw_typeParams v
    | typeParamDecl => exact q.draw_typeParamDecl v
    | simpleStmt => exact q.draw_simple v
    | stmt => exact q.draw_stmt v
    | switchClause => exact q.draw_switchClause v
    | commClause => exact q.draw_commClause v
    | decl => exact q.draw_decl v
    | func => exact q.draw_funcDecl v
    | file => exact q.draw_file v
  | fieldList => exact q.draw_params v
  | ident => exact q.draw_ident v
  | basicLit => exact q.draw_symbol v.value
  | block => exact q.draw_block v.stmts
  | expandedBlock => exact q.draw_block v.stmts
  | spec => exact q.draw_spec v
  | package => exact q.draw_package v

end Drafter

/-! ### Stores -/

namespace Store

variable (s : Store) (names : NameTable)

/-- The parts below are printed as they are drafted. -/
theorem renderPart_eq_draw (depth : Nat) :
    s.renderPart names depth = fun x => (s.draftPart names depth x).draw := by
  induction depth with
  | zero => rfl
  | succ depth ih =>
    funext x
    rw [renderPart, ih]
    exact (Drafter.draw_body ⟨s, names, s.draftPart names depth⟩ x).symm

/-- **Printing writes a document.** With any pen, printing a node comes to the same as to write the
document of the node, or to meet its fault. -/
theorem render_eq_draw (depth : Nat) (n : Node) :
    s.render names depth n = (s.draft names depth n).draw := by
  rw [render, renderPart_eq_draw]
  exact (Drafter.draw_node ⟨s, names, s.draftPart names depth⟩ n).symm

/-- The printed text is that of the document. -/
theorem print_eq_text (depth : Nat) (n : Node) :
    s.print names depth n = (s.draft names depth n).map Doc.text := by
  rw [print, render_eq_draw]
  rcases s.draft names depth n with e | d
  · rfl
  · rfl

end Store

end GoTree
