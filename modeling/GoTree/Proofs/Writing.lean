import GoTree.Print.Drafter

/-!
# What documents write

A document adds characters to a text, and which ones depends on nothing but the document and the
indentation: `Doc.chars k d` is what `d` adds at indentation `k` (`Doc.toList_write`). All of them
are known from the document, except for those of its names.

The **names** of a document that printing has made are strings of its name table. So what holds of
every string of the table holds of every name in the document (`Store.allNames_draft`). There is one
lemma for each function of the drafter; like the functions, the lemmas take the drafts of the parts
below as given (`Drafter.Writes`), and the knot is tied by induction on the depth.
-/

namespace GoTree

/-! ### Tables of one name -/

namespace NameTable

/-- The table that holds one string. -/
def single (s : String) : NameTable where
  strings := #[s]

theorem eq_of_resolve_single {s text : String} {sym : Symbol}
    (h : (single s).resolve sym = .ok text) : text = s := by
  unfold resolve at h
  split at h
  · next hs =>
    cases h
    have hmem : text ∈ #[s] := Array.mem_of_getElem? hs
    simpa using hmem
  · cases h

end NameTable

/-! ### Characters -/

private theorem Pen.toList_tabs (n : Nat) (out : String) :
    (tabs n out).toList = out.toList ++ List.replicate n '\t' := by
  induction n generalizing out with
  | zero => simp [tabs]
  | succ n ih =>
    rw [tabs, ih, String.toList_push, List.append_assoc, List.replicate_succ]
    rfl

namespace Doc

/-- The characters that a document adds at an indentation. -/
def chars (k : Nat) : Doc → List Char
  | empty => []
  | word w => w.text.toList
  | name _ text => text.toList
  | line => '\n' :: List.replicate k '\t'
  | nest d => d.chars (k + 1)
  | enclosed b d => b.opening :: d.chars k ++ [b.closing]
  | append a b => a.chars k ++ b.chars k

/-- Writing a document appends its characters to what is there. -/
theorem toList_write (d : Doc) (k : Nat) (out : String) :
    (d.write k out).toList = out.toList ++ d.chars k := by
  induction d generalizing k out with
  | empty => simp [write, chars]
  | word w => simp [write, chars]
  | name sym text => simp [write, chars]
  | line => simp [write, chars, Pen.toList_tabs]
  | nest d ih => exact ih (k + 1) out
  | enclosed b d ih => simp [write, chars, ih]
  | append a b iha ihb => simp [write, chars, iha, ihb]

theorem toList_text (d : Doc) : d.text.toList = d.chars 0 :=
  d.toList_write 0 ""

/-- All names in a document have a property. -/
def AllNames (P : String → Prop) : Doc → Prop
  | name _ text => P text
  | nest d => d.AllNames P
  | enclosed _ d => d.AllNames P
  | append a b => a.AllNames P ∧ b.AllNames P
  | empty | word _ | line => True

end Doc

/-! ### Drafts -/

/-- If a draft is a document, then all names in it have a property. -/
def Draft.AllNames (P : String → Prop) (d : Draft) : Prop :=
  ∀ a, d = .ok a → a.AllNames P

namespace Draft.AllNames

variable {P : String → Prop} {d e : Draft} {α : Type}

theorem empty : Draft.empty.AllNames P := by
  rintro _ ⟨⟩
  trivial

theorem word {text : String}
    {plain : text.toList.all (fun c => !(c == '\n' || Bracket.isBracket c)) = true} :
    (Draft.word text plain).AllNames P := by
  rintro _ ⟨⟩
  trivial

theorem line : Draft.line.AllNames P := by
  rintro _ ⟨⟩
  trivial

theorem andThen (hd : d.AllNames P) (he : e.AllNames P) : (d >> e).AllNames P := by
  rcases d with f | a
  · rintro _ ⟨⟩
  · rcases e with f | b
    · rintro _ ⟨⟩
    · rintro _ ⟨⟩
      exact ⟨hd a rfl, he b rfl⟩

theorem nest (hd : d.AllNames P) : (Draft.nest d).AllNames P := by
  rcases d with f | a
  · rintro _ ⟨⟩
  · rintro _ ⟨⟩
    exact hd a rfl

theorem enclosed {b : Bracket} (hd : d.AllNames P) : (Draft.enclosed b d).AllNames P := by
  rcases d with f | a
  · rintro _ ⟨⟩
  · rintro _ ⟨⟩
    exact hd a rfl

/-- What is read from the store does not matter. -/
theorem bind {x : Except Fault α} {f : α → Draft} (h : ∀ a, (f a).AllNames P) :
    Draft.AllNames P (x >>= f) := by
  rcases x with e | a
  · rintro _ ⟨⟩
  · exact h a

theorem ite {c : Prop} [Decidable c] (hd : d.AllNames P) (he : e.AllNames P) :
    Draft.AllNames P (if c then d else e) := by
  split
  · exact hd
  · exact he

theorem option {f : α → Draft} {o : Option α} (h : ∀ a, (f a).AllNames P) :
    (Draft.option f o).AllNames P := by
  cases o with
  | none => exact .empty
  | some a => exact h a

theorem concat {f : α → Draft} (h : ∀ a, (f a).AllNames P) (as : List α) :
    (Draft.concat f as).AllNames P := by
  induction as with
  | nil => exact .empty
  | cons a as ih => exact .andThen (h a) ih

private theorem join {sep : Draft} {f : α → Draft} (hs : sep.AllNames P) (h : ∀ a, (f a).AllNames P)
    (as : List α) : (Draft.join sep f as).AllNames P := by
  cases as with
  | nil => exact .empty
  | cons a as => exact .andThen (h a) (.concat (fun a => .andThen hs (h a)) as)

end Draft.AllNames

/-! ### The functions of the drafter -/

namespace Drafter

/-- The strings of the name table have a property, and so have the names in the drafts of the parts
below. -/
structure Writes (p : Drafter) (P : String → Prop) : Prop where
  resolves : ∀ sym text, p.names.resolve sym = .ok text → P text
  part : ∀ q, (p.part q).AllNames P

namespace Writes

variable {p : Drafter} {P : String → Prop} (hp : p.Writes P)

include hp

theorem expr (id : Id .expr) : (p.expr id).AllNames P :=
  hp.part (.expr id)

theorem type (id : Id .type) : (p.type id).AllNames P :=
  hp.part (.type id)

theorem stmt (id : Id .stmt) : (p.stmt id).AllNames P :=
  hp.part (.stmt id)

theorem literal (lit : LiteralValue) : (p.literal lit).AllNames P :=
  hp.part (.literal lit)

/-- A symbol is written as the string of the table that it stands for. -/
theorem symbol (sym : Symbol) : (p.symbol sym).AllNames P := by
  unfold Drafter.symbol
  rcases hs : p.names.resolve sym with e | text
  · rintro _ ⟨⟩
  · rintro _ ⟨⟩
    exact hp.resolves sym text hs

theorem ident (name : IdentName) : (p.ident name).AllNames P :=
  hp.symbol name.sym

omit hp in
theorem list {q : Pool} {sep : Draft} {f : q.Item → Draft} (hs : sep.AllNames P)
    (h : ∀ x, (f x).AllNames P) (seg : Segment q) : (p.list sep f seg).AllNames P :=
  .bind fun xs => .join hs h xs.toList

theorem idents (seg : Segment .identNames) : (p.idents seg).AllNames P :=
  list .word hp.ident seg

theorem exprs (seg : Segment .exprs) : (p.exprs seg).AllNames P :=
  list .word hp.expr seg

theorem comment (id : Id .comment) : (p.comment id).AllNames P :=
  .bind fun x => hp.symbol x.text

theorem commentGroup (id : Id .commentGroup) : (p.commentGroup id).AllNames P :=
  .bind fun x => list .line hp.comment x.comments

theorem doc (o : Option (Id .commentGroup)) : (p.doc o).AllNames P :=
  .option fun id => .andThen (hp.commentGroup id) .line

theorem trailing (o : Option (Id .commentGroup)) : (p.trailing o).AllNames P :=
  .option fun id => .andThen .word (hp.commentGroup id)

/-! ### Fields, signatures and types -/

theorem field (id : Id .field) : (p.field id).AllNames P := by
  refine .bind fun x => .andThen (.ite .empty (.andThen (hp.idents x.names) .word)) ?_
  refine .andThen (.ite .word .empty) (.andThen (hp.type x.typ) (.andThen ?_ (hp.trailing _)))
  exact .option fun tag => .andThen .word (hp.symbol tag.value)

theorem params (list : FieldList) : (p.params list).AllNames P :=
  .enclosed (Writes.list .word hp.field list.fields)

theorem signature (id : Id .signature) : (p.signature id).AllNames P := by
  refine .bind fun x => .andThen (hp.params x.params) (.option fun r => ?_)
  cases r with
  | params list => exact .andThen .word (hp.params list)
  | type typ => exact .andThen .word (hp.type typ)

theorem typeElem (elem : TypeElem) : (p.typeElem elem).AllNames P := by
  refine list .word (fun t => ?_) elem.terms
  cases t with
  | tilde typ => exact .andThen .word (hp.type typ)
  | type typ => exact hp.type typ

theorem constraint (c : TypeConstraint) : (p.constraint c).AllNames P := by
  cases c with
  | any => exact .word
  | typeElem elem => exact hp.typeElem elem
  | interface typ => exact hp.type typ

theorem typeParamDecl (id : Id .typeParamDecl) : (p.typeParamDecl id).AllNames P :=
  .bind fun x => .andThen (hp.idents x.names) (.andThen .word (hp.constraint x.constraint))

theorem typeParams (id : Id .typeParams) : (p.typeParams id).AllNames P :=
  .bind fun x => .enclosed (list .word hp.typeParamDecl x.params)

theorem arrayLen (len : ArrayLen) : (p.arrayLen len).AllNames P := by
  cases len with
  | expr x => exact hp.expr x
  | ellipsis => exact .word

theorem interfaceElem (e : InterfaceElem) : (p.interfaceElem e).AllNames P := by
  cases e with
  | method name sig => exact .andThen (hp.ident name) (hp.signature sig)
  | typeElem elem => exact hp.typeElem elem

theorem structField (id : Id .field) : (p.structField id).AllNames P :=
  .bind fun x => .andThen (hp.doc x.doc) (hp.field id)

omit hp in
theorem members {α : Type} {f : α → Draft} (h : ∀ a, (f a).AllNames P) (as : List α) :
    (Drafter.members f as).AllNames P := by
  cases as with
  | nil => exact .enclosed .empty
  | cons a as =>
    refine .andThen .word (.enclosed (.andThen (.nest ?_) .line))
    exact .concat (fun a => .andThen .line (h a)) (a :: as)

theorem typeBody (id : Id .type) : (p.typeBody id).AllNames P := by
  refine .bind fun x => ?_
  cases x with
  | named pkg name args =>
    refine .andThen (.option fun pkg => .andThen (hp.ident pkg) .word) (.andThen (hp.ident name) ?_)
    exact .ite .empty (.enclosed (list .word hp.type args))
  | pointer elem => exact .andThen .word (hp.type elem)
  | array len elem => exact .andThen (.enclosed (hp.arrayLen len)) (hp.type elem)
  | slice elem => exact .andThen (.enclosed .empty) (hp.type elem)
  | map key val => exact .andThen .word (.andThen (.enclosed (hp.type key)) (hp.type val))
  | chan dir elem => exact .andThen .word (hp.type elem)
  | struct fields => exact .bind fun xs => .andThen .word (members hp.structField xs.toList)
  | interface elems => exact .bind fun xs => .andThen .word (members hp.interfaceElem xs.toList)
  | func sig => exact .andThen .word (hp.signature sig)
  | paren typ => exact .enclosed (hp.type typ)
  | bad => exact .word

/-! ### Expressions -/

/-- Statements, each on a line of its own. -/
theorem stmtLines (ids : List (Id .stmt)) :
    (Draft.concat (fun id => Draft.line >> p.stmt id) ids).AllNames P :=
  .concat (fun id => .andThen .line (hp.stmt id)) ids

theorem block (seg : Segment .stmts) : (p.block seg).AllNames P := by
  refine .bind fun xs => .ite (.enclosed .empty) (.enclosed (.andThen (.nest ?_) .line))
  exact hp.stmtLines xs.toList

theorem key (k : Key) : (p.key k).AllNames P := by
  cases k with
  | fieldName name => exact .andThen (hp.ident name) .word
  | expr x => exact .andThen (hp.expr x) .word
  | literal lit => exact .andThen (hp.literal lit) .word

theorem element (e : Element) : (p.element e).AllNames P := by
  cases e with
  | expr x => exact hp.expr x
  | literal lit => exact hp.literal lit

theorem literalBody (lit : LiteralValue) : (p.literalBody lit).AllNames P := by
  refine .enclosed (list .word (fun e => ?_) lit.elements)
  exact .andThen (.option hp.key) (hp.element e.value)

theorem exprOrType (x : ExprOrType) : (p.exprOrType x).AllNames P := by
  cases x with
  | expr x => exact hp.expr x
  | type typ => exact hp.type typ

theorem callee (x : Callee) : (p.callee x).AllNames P := by
  cases x with
  | expr x => exact hp.expr x
  | type typ => exact hp.type typ

theorem exprBody (id : Id .expr) : (p.exprBody id).AllNames P := by
  refine .bind fun x => ?_
  cases x with
  | ident name => exact hp.ident name
  | basicLit lit => exact hp.symbol lit.value
  | funcLit sig body =>
    exact .andThen .word (.andThen (hp.signature sig) (.andThen .word (hp.block body.stmts)))
  | compositeLit typ lit => exact .andThen (hp.type typ) (hp.literal lit)
  | index base args =>
    exact .andThen (hp.expr base) (.enclosed (list .word hp.exprOrType args))
  | paren x => exact .enclosed (hp.expr x)
  | selector x sel => exact .andThen (hp.expr x) (.andThen .word (hp.ident sel))
  | slice x lo hi max =>
    refine .andThen (hp.expr x) (.enclosed (.andThen (.option hp.expr) (.andThen .word ?_)))
    exact .andThen (.option hp.expr) (.option fun m => .andThen .word (hp.expr m))
  | typeAssert x typ =>
    refine .andThen (hp.expr x) (.andThen .word (.enclosed ?_))
    cases typ with
    | none => exact .word
    | some typ => exact hp.type typ
  | call callee typeArg args ellipsis =>
    refine .andThen (hp.callee callee) (.enclosed (.andThen ?_ ?_))
    · exact .option fun typ => .andThen (hp.type typ) (.ite .empty .word)
    · exact .andThen (hp.exprs args) (.ite .word .empty)
  | unary op x => exact .andThen .word (hp.expr x)
  | binary left op right =>
    refine .andThen (hp.expr left) (.andThen .word (.andThen .word (.andThen .word ?_)))
    exact hp.expr right
  | methodExpr recv name => exact .andThen (hp.type recv) (.andThen .word (hp.ident name))
  | bad => exact .word

/-! ### Declarations -/

theorem spec (x : Spec) : (p.spec x).AllNames P := by
  cases x with
  | importSpec s =>
    refine .andThen (hp.doc s.doc) (.andThen ?_ ?_)
    · exact .option fun name => .andThen (hp.ident name) .word
    · exact .andThen (hp.symbol s.path.value) (hp.trailing s.comment)
  | valueSpec s =>
    refine .andThen (hp.doc s.doc) (.andThen (hp.idents s.names) (.andThen ?_ (.andThen ?_ ?_)))
    · exact .option fun typ => .andThen .word (hp.type typ)
    · exact .ite .empty (.andThen .word (hp.exprs s.values))
    · exact hp.trailing s.comment
  | typeSpec s =>
    refine .andThen (hp.doc s.doc) (.andThen (hp.ident s.name) (.andThen ?_ (.andThen ?_ ?_)))
    · exact .option hp.typeParams
    · exact .ite .word .word
    · exact .andThen (hp.type s.typ) (hp.trailing s.comment)

theorem specs (grouped : Bool) (xs : List Spec) : (p.specs grouped xs).AllNames P := by
  have hlines : ∀ ys, (Draft.concat (fun x => Draft.line >> p.spec x) ys).AllNames P :=
    .concat fun x => .andThen .line (hp.spec x)
  match xs with
  | [] => exact .enclosed (.andThen (.nest (hlines [])) .line)
  | [x] =>
    exact .ite (.enclosed (.andThen (.nest (.andThen .line (hp.spec x))) .line)) (hp.spec x)
  | x :: y :: ys => exact .enclosed (.andThen (.nest (hlines (x :: y :: ys))) .line)

theorem decl (id : Id .decl) : (p.decl id).AllNames P := by
  refine .bind fun x => ?_
  cases x with
  | gen x =>
    refine .andThen (hp.doc x.doc) (.andThen .word (.andThen .word (.bind fun xs => ?_)))
    exact hp.specs x.grouped xs.toList
  | bad => exact .word

theorem funcDecl (id : Id .func) : (p.funcDecl id).AllNames P := by
  refine .bind fun x => .andThen (hp.doc x.doc) (.andThen .word (.andThen ?_ ?_))
  · exact .option fun recv => .andThen (hp.params recv) .word
  · refine .andThen (hp.ident x.name) (.andThen (.option hp.typeParams) ?_)
    refine .andThen (hp.signature x.signature) (.option fun body => ?_)
    exact .andThen .word (hp.block body.stmts)

theorem file (id : Id .file) : (p.file id).AllNames P := by
  refine .bind fun x => .andThen (hp.doc x.doc) (.andThen .word (.andThen (hp.ident x.name) ?_))
  refine .andThen (.bind fun xs => .concat (fun d => ?_) xs.toList) .line
  refine .andThen .line (.andThen .line ?_)
  cases d with
  | decl id => exact hp.decl id
  | func id => exact hp.funcDecl id

theorem package (pkg : Package) : (p.package pkg).AllNames P :=
  list .line hp.file pkg.files

/-! ### Statements -/

theorem simple (id : Id .simpleStmt) : (p.simple id).AllNames P := by
  refine .bind fun x => ?_
  cases x with
  | empty => exact .empty
  | expr x => exact hp.expr x
  | send chan value => exact .andThen (hp.expr chan) (.andThen .word (hp.expr value))
  | incDec x op => exact .andThen (hp.expr x) .word
  | assign lhs op rhs =>
    exact .andThen (hp.exprs lhs) (.andThen .word (.andThen .word (.andThen .word (hp.exprs rhs))))
  | shortVarDecl names values =>
    exact .andThen (hp.idents names) (.andThen .word (hp.exprs values))

theorem branch (b : BranchStmt) : (p.branch b).AllNames P := by
  have hlabel : ∀ o, (p.label o).AllNames P := fun _ =>
    .option fun name => .andThen .word (hp.ident name)
  cases b with
  | breakTo label => exact .andThen .word (hlabel label)
  | continueTo label => exact .andThen .word (hlabel label)
  | goto label => exact .andThen .word (hlabel (some label))
  | fallthrough => exact .word

theorem headerInit (o : Option (Id .simpleStmt)) : (p.headerInit o).AllNames P :=
  .option fun init => .andThen (hp.simple init) .word

theorem forHeader (k : ForKind) : (p.forHeader k).AllNames P := by
  cases k with
  | infinite => exact .empty
  | cond x => exact .andThen (hp.expr x) .word
  | clause init cond post =>
    refine .andThen (.option hp.simple) (.andThen .word (.andThen (.option hp.expr) ?_))
    exact .andThen .word (.andThen (.option hp.simple) .word)
  | range key value define x =>
    refine .andThen (.option fun key => .andThen (hp.expr key) (.andThen ?_ ?_)) ?_
    · exact .option fun value => .andThen .word (hp.expr value)
    · exact .ite .word .word
    · exact .andThen .word (.andThen (hp.expr x) .word)

theorem caseBody (seg : Segment .stmts) : (p.caseBody seg).AllNames P :=
  .nest (.bind fun xs => hp.stmtLines xs.toList)

theorem typeCaseElem (x : TypeCaseElem) : (p.typeCaseElem x).AllNames P := by
  cases x with
  | type typ => exact hp.type typ
  | nil => exact .word

theorem switchClause (id : Id .switchClause) : (p.switchClause id).AllNames P := by
  refine .bind fun x => ?_
  cases x with
  | exprCase items stmts =>
    exact .andThen (.ite .word (.andThen .word (.andThen (hp.exprs items) .word)))
      (hp.caseBody stmts)
  | typeCase items stmts =>
    refine .andThen (.ite .word (.andThen .word (.andThen ?_ .word))) (hp.caseBody stmts)
    exact list .word hp.typeCaseElem items

theorem commClause (id : Id .commClause) : (p.commClause id).AllNames P := by
  refine .bind fun x => .andThen ?_ (hp.caseBody x.stmts)
  cases x.comm with
  | none => exact .word
  | some comm => exact .andThen .word (.andThen (hp.simple comm) .word)

omit hp in
theorem clauses {q : Pool} {f : q.Item → Draft} (h : ∀ x, (f x).AllNames P) (seg : Segment q) :
    (p.clauses f seg).AllNames P := by
  refine .bind fun xs => .enclosed (.andThen ?_ .line)
  exact .concat (fun x => .andThen .line (h x)) xs.toList

theorem stmtBody (id : Id .stmt) : (p.stmtBody id).AllNames P := by
  refine .bind fun x => ?_
  cases x with
  | simple s => exact hp.simple s
  | decl d => exact hp.decl d
  | labeled label stmt =>
    exact .andThen (hp.ident label) (.andThen .word (.andThen .line (hp.stmt stmt)))
  | goStmt call => exact .andThen .word (hp.expr call)
  | deferStmt call => exact .andThen .word (hp.expr call)
  | returnStmt results =>
    exact .andThen .word (.ite .empty (.andThen .word (hp.exprs results)))
  | branch b => exact hp.branch b
  | block stmts => exact hp.block stmts
  | ifStmt init cond thenBlock elseStmt =>
    refine .andThen .word (.andThen (hp.headerInit init) (.andThen (hp.expr cond) ?_))
    refine .andThen .word (.andThen (hp.block thenBlock.stmts) (.option fun id => ?_))
    exact .andThen .word (hp.stmt id)
  | forStmt kind block =>
    exact .andThen .word (.andThen (hp.forHeader kind) (hp.block block.stmts))
  | switchStmt init tag clauses =>
    refine .andThen .word (.andThen (hp.headerInit init) (.andThen ?_ ?_))
    · exact .option fun tag => .andThen (hp.expr tag) .word
    · exact Writes.clauses hp.switchClause clauses
  | typeSwitch init guard clauses =>
    refine .andThen .word (.andThen (hp.headerInit init) (.andThen ?_ (.andThen ?_ ?_)))
    · exact .option fun bind => .andThen (hp.ident bind) .word
    · exact hp.expr guard.x
    · refine .andThen .word (.andThen (.enclosed .word) (.andThen .word ?_))
      exact Writes.clauses hp.switchClause clauses
  | select clauses => exact .andThen .word (Writes.clauses hp.commClause clauses)
  | bad => exact .word

/-! ### Parts and nodes -/

theorem body (q : Part) : (p.body q).AllNames P := by
  cases q with
  | expr id => exact hp.exprBody id
  | type id => exact hp.typeBody id
  | stmt id => exact hp.stmtBody id
  | literal lit => exact hp.literalBody lit

theorem node (n : Node) : (p.node n).AllNames P := by
  obtain ⟨k, v⟩ := n
  cases k with
  | stored c =>
    cases c with
    | comment => exact hp.comment v
    | commentGroup => exact hp.commentGroup v
    | field => exact hp.field v
    | expr => exact hp.expr v
    | type => exact hp.type v
    | signature => exact .andThen .word (hp.signature v)
    | typeParams => exact hp.typeParams v
    | typeParamDecl => exact hp.typeParamDecl v
    | simpleStmt => exact hp.simple v
    | stmt => exact hp.stmt v
    | switchClause => exact hp.switchClause v
    | commClause => exact hp.commClause v
    | decl => exact hp.decl v
    | func => exact hp.funcDecl v
    | file => exact hp.file v
  | fieldList => exact hp.params v
  | ident => exact hp.ident v
  | basicLit => exact hp.symbol v.value
  | block => exact hp.block v.stmts
  | expandedBlock => exact hp.block v.stmts
  | spec => exact hp.spec v
  | package => exact hp.package v

end Writes

end Drafter

namespace Store

variable {s : Store} {names : NameTable} {P : String → Prop}

theorem writes_draftPart (h : ∀ sym text, names.resolve sym = .ok text → P text) (depth : Nat) :
    Drafter.Writes ⟨s, names, s.draftPart names depth⟩ P := by
  refine ⟨h, fun q => ?_⟩
  induction depth generalizing q with
  | zero => rintro _ ⟨⟩
  | succ depth ih => exact Drafter.Writes.body ⟨h, ih⟩ q

/-- What holds of every string of the name table holds of every name that is printed. -/
theorem allNames_draft (h : ∀ sym text, names.resolve sym = .ok text → P text) {depth : Nat}
    {n : Node} {d : Doc} (hd : s.draft names depth n = .ok d) : d.AllNames P :=
  (writes_draftPart h depth).node n d hd

end Store

end GoTree
