import GoTree.Proofs.Scanning

/-!
# Printing follows the parts

`Store.scans_draft` says that printing a node obeys the rules of `GoTree.Proofs.Scanning`, whatever
the store, the names, the depth and the node. There is one lemma for each function of the drafter,
and each says that the draft of a construct **renders** exactly its slots, in order.

The functions of the drafter take the drafts of the parts below as given, and so do the lemmas: a
drafter is `Sound` to a depth when the drafts it is given render expressions, types, statements and
literal values to that depth. Tying the knot is an induction on the depth.
-/

namespace GoTree

open Slots (childSlot nameSlot literalSlot fieldListSlot blockSlot listSlot optionSlot)

/-! ### Nodes -/

section Nodes

variable {s : Store} {names : NameTable} {D D' : Nat} {b : Bool} {l : String} {ps : List SlotPart}
  {d : Draft}

/-- A node without a symbol of its own renders what is shown of its body. -/
theorem Renders.scans_node {n : Node} {x : n.kind.Body}
    (h : Renders s names D' (n.kind.inStruct b x) (n.kind.bodySlots (n.kind.shown b x)).parts d [])
    (hD : D' + (SlotPart.node l n).levels = D) (hx : n.body? s = some x)
    (hn : n.symbol? s = none) : Scans s names D b [.node l n] d.scan := by
  have hk : ∀ sym, n.symbol? s = some sym → names.Knows sym := by simp [hn]
  have hs := Scans.node hD hx hk h.scans
  rwa [hn, Option.toList_none, Scan.nil_seq] at hs

/-- A stored node is read before anything else of it is printed. -/
theorem Scans.of_get {c : Category} {id : Id c} {f : c.Payload → Draft}
    (h : ∀ x, s.get? id = some x → Scans s names D b [.node l (.stored id)] (f x).scan) :
    Scans s names D b [.node l (.stored id)] (Draft.scan (s.get id >>= f)) := by
  unfold Store.get
  rcases hx : s.get? id with _ | x
  · exact .dangling hx
  · exact h x hx

theorem Renders.get {c : Category} {id : Id c} {f : c.Payload → Draft}
    (hD : D' + (SlotPart.node l (.stored id)).levels = D) (hn : (Node.stored id).symbol? s = none)
    (h : ∀ x, s.get? id = some x → Renders s names D' ((Kind.stored c).inStruct b x)
      ((Kind.stored c).bodySlots ((Kind.stored c).shown b x)).parts (f x) []) :
    Renders s names D b (.node l (.stored id) :: ps) (s.get id >>= f) ps :=
  .of_scans (.of_get fun x hx => (h x hx).scans_node hD hx hn)

end Nodes

namespace Drafter

/-- A draft is made by `p` from the first parts of a list, none of them a field of a struct. -/
abbrev Renders (p : Drafter) (D : Nat) (ps : List SlotPart) (d : Draft) (qs : List SlotPart) :
    Prop :=
  GoTree.Renders p.store p.names D false ps d qs

/-- The drafts of the parts below render these parts through `D` levels. -/
structure Sound (p : Drafter) (D : Nat) : Prop where
  expr : ∀ {l : String} {id : Id .expr} {ps : List SlotPart},
    p.Renders D (.node l (.stored id) :: ps) (p.expr id) ps
  type : ∀ {l : String} {id : Id .type} {ps : List SlotPart},
    p.Renders D (.node l (.stored id) :: ps) (p.type id) ps
  stmt : ∀ {l : String} {id : Id .stmt} {ps : List SlotPart},
    p.Renders D (.node l (.stored id) :: ps) (p.stmt id) ps
  literal : ∀ {l : String} {lit : LiteralValue} {ps : List SlotPart},
    p.Renders D (.list l .keyedElements lit.elements :: ps) (p.literal lit) ps

variable {p : Drafter} {D : Nat} {l : String} {ps : List SlotPart}

/-! ### Leaves and lists -/

/-- A leaf prints its symbol. -/
theorem scans_symbol {D' : Nat} {b : Bool} {n : Node} {x : n.kind.Body} {sym : Symbol}
    (hD : D' + (SlotPart.node l n).levels = D) (hx : n.body? p.store = some x)
    (hn : n.symbol? p.store = some sym) (hp : (n.kind.bodySlots (n.kind.shown b x)).parts = []) :
    Scans p.store p.names D b [.node l n] (p.symbol sym).scan := by
  unfold symbol NameTable.resolve
  rcases ht : p.names.string? sym with _ | text
  · refine .unknown hn ?_
    rintro ⟨text, ht'⟩
    rw [ht] at ht'
    cases ht'
  · have hs : Scans p.store p.names D' (n.kind.inStruct b x)
        (n.kind.bodySlots (n.kind.shown b x)).parts (.ok []) := by
      rw [hp]
      exact .nil
    have hk : ∀ sym', n.symbol? p.store = some sym' → p.names.Knows sym' := by
      rintro sym' hsym
      rw [hn] at hsym
      cases hsym
      exact ⟨text, ht⟩
    have h := Scans.node hD hx hk hs
    rwa [hn, Scan.seq_nil] at h

theorem renders_ident {x : IdentName} : p.Renders D (.node l (.ident x) :: ps) (p.ident x) ps :=
  .of_scans (scans_symbol (x := x) rfl rfl rfl rfl)

theorem renders_basicLit {x : BasicLit} :
    p.Renders D (.node l ⟨.basicLit, x⟩ :: ps) (p.symbol x.value) ps :=
  .of_scans (scans_symbol (x := x) rfl rfl rfl rfl)

theorem renders_list {b : Bool} {q : Pool} {seg : Segment q} {sep : Draft} {f : q.Item → Draft}
    (hq : (SlotPart.list l q seg).levels = 0)
    (hs : ∀ qs, GoTree.Renders p.store p.names D b qs sep qs)
    (h : ∀ x qs, GoTree.Renders p.store p.names D b (.item l q x :: qs) (f x) qs) :
    GoTree.Renders p.store p.names D b (.list l q seg :: ps) (p.list sep f seg) ps := by
  have hD : D + (SlotPart.list l q seg).levels = D := by rw [hq, Nat.add_zero]
  exact .items hD fun xs => .join hs h

theorem renders_idents {seg : Segment .identNames} :
    p.Renders D (.list l .identNames seg :: ps) (p.idents seg) ps :=
  renders_list rfl (fun _ => .word) fun _ _ => .item renders_ident

theorem Sound.exprs (hp : p.Sound D) {seg : Segment .exprs} :
    p.Renders D (.list l .exprs seg :: ps) (p.exprs seg) ps :=
  renders_list rfl (fun _ => .word) fun _ _ => .item hp.expr

/-! ### Comments -/

theorem renders_comment {id : Id .comment} :
    p.Renders D (.node l (.stored id) :: ps) (p.comment id) ps := by
  refine .of_scans (.of_get fun x hx => ?_)
  have hn : (Node.stored id).symbol? p.store = some x.text := by simp [Node.symbol?, hx]
  exact scans_symbol rfl hx hn rfl

theorem renders_commentGroup {id : Id .commentGroup} :
    p.Renders D (.node l (.stored id) :: ps) (p.commentGroup id) ps :=
  .get rfl rfl fun _ _ => renders_list rfl (fun _ => .line) fun _ _ => .item renders_comment

theorem renders_doc {o : Option (Id .commentGroup)} :
    p.Renders D ((optionSlot (childSlot l) o).parts ++ ps) (p.doc o) ps :=
  .option fun _ => .andThen renders_commentGroup .line

theorem renders_trailing {o : Option (Id .commentGroup)} :
    p.Renders D ((optionSlot (childSlot l) o).parts ++ ps) (p.trailing o) ps :=
  .option fun _ => .andThen .word renders_commentGroup

namespace Sound

variable (hp : p.Sound D)

include hp

/-! ### Fields, signatures and type parameters -/

/-- A field renders all but the comment above it. -/
theorem field_shown {id : Id .field} {x : Field} (hx : p.store.get? id = some x) :
    p.Renders D (Field.shown false x).slots.parts (p.field id) [] := by
  unfold Drafter.field Store.get
  rw [hx]
  simp only [Field.slots, Field.shown, Slots.parts_bind]
  refine .andThen (.ifEmpty .empty (.andThen renders_idents .word)) ?_
  refine .andThen (.ite .word .empty) (.andThen hp.type ?_)
  refine .andThen (.option fun tag => .andThen .word renders_basicLit) ?_
  exact renders_trailing

theorem field {id : Id .field} : p.Renders D (.node l (.stored id) :: ps) (p.field id) ps := by
  refine .of_scans ?_
  rcases hx : p.store.get? id with _ | x
  · unfold Drafter.field Store.get
    rw [hx]
    exact .dangling hx
  · exact (hp.field_shown hx).scans_node rfl hx rfl

/-- A field of a struct renders the comment above it as well. -/
theorem structField {id : Id .field} :
    GoTree.Renders p.store p.names D true (.node l (.stored id) :: ps) (p.structField id) ps := by
  refine .get rfl rfl fun x hx => ?_
  change p.Renders D x.slots.parts _ []
  rw [Field.parts_slots]
  exact .andThen renders_doc (hp.field_shown hx)

theorem params {list : FieldList} :
    p.Renders D (.node l ⟨.fieldList, list⟩ :: ps) (p.params list) ps := by
  refine .of_scans (GoTree.Renders.scans_node (x := list) ?_ rfl rfl rfl)
  exact .enclosed (renders_list rfl (fun _ => .word) fun _ _ => .item hp.field)

theorem results {r : Results} : p.Renders D (r.slots.parts ++ ps) (p.results r) ps := by
  cases r with
  | params list => exact .andThen .word hp.params
  | type typ => exact .andThen .word hp.type

theorem signature {id : Id .signature} :
    p.Renders D (.node l (.stored id) :: ps) (p.signature id) ps := by
  refine .get rfl rfl fun x _ => ?_
  change p.Renders D x.slots.parts _ []
  simp only [Signature.slots, Slots.parts_bind]
  exact .andThen hp.params (.option fun _ => hp.results)

theorem typeTerm {t : TypeTerm} : p.Renders D (t.slots.parts ++ ps) (p.typeTerm t) ps := by
  cases t with
  | tilde typ => exact .andThen .word hp.type
  | type typ => exact hp.type

theorem typeElem {elem : TypeElem} : p.Renders D (elem.slots.parts ++ ps) (p.typeElem elem) ps :=
  renders_list rfl (fun _ => .word) fun _ _ => .item hp.typeTerm

theorem constraint {c : TypeConstraint} :
    p.Renders D (c.slots.parts ++ ps) (p.constraint c) ps := by
  cases c with
  | any => exact .word
  | typeElem elem => exact hp.typeElem
  | interface typ => exact hp.type

theorem typeParamDecl {id : Id .typeParamDecl} :
    p.Renders D (.node l (.stored id) :: ps) (p.typeParamDecl id) ps := by
  refine .get rfl rfl fun x _ => ?_
  change p.Renders D x.slots.parts _ []
  simp only [TypeParamDecl.slots, Slots.parts_bind]
  exact .andThen renders_idents (.andThen .word hp.constraint)

theorem typeParams {id : Id .typeParams} :
    p.Renders D (.node l (.stored id) :: ps) (p.typeParams id) ps :=
  .get rfl rfl fun _ _ =>
    .enclosed (renders_list rfl (fun _ => .word) fun _ _ => .item hp.typeParamDecl)

/-! ### Types -/

theorem arrayLen {len : ArrayLen} : p.Renders D (len.slots.parts ++ ps) (p.arrayLen len) ps := by
  cases len with
  | expr x => exact hp.expr
  | ellipsis => exact .word

theorem interfaceElem {e : InterfaceElem} :
    p.Renders D (e.slots.parts ++ ps) (p.interfaceElem e) ps := by
  cases e with
  | method name sig => exact .andThen renders_ident hp.signature
  | typeElem elem => exact hp.typeElem

omit hp in
theorem renders_members {b : Bool} {q : Pool} {f : q.Item → Draft} {xs : List q.Item}
    (h : ∀ x qs, GoTree.Renders p.store p.names D b (.item l q x :: qs) (f x) qs) :
    GoTree.Renders p.store p.names D b (xs.map (.item l q)) (members f xs) [] := by
  cases xs with
  | nil => exact .enclosed .empty
  | cons x xs =>
    refine .andThen .word (.enclosed (.andThen (.nest (.concat fun y qs => ?_)) .line))
    exact .andThen .line (h y qs)

theorem typeBody {id : Id .type} :
    p.Renders (D + 1) (.node l (.stored id) :: ps) (p.typeBody id) ps := by
  refine .get rfl rfl fun x _ => ?_
  cases x with
  | named pkg name args =>
    change p.Renders D (TypeExpr.named pkg name args).slots.parts _ []
    simp only [TypeExpr.slots, Slots.parts_bind]
    refine .andThen (.option fun _ => .andThen renders_ident .word) (.andThen renders_ident ?_)
    exact .ifEmpty .empty (.enclosed (renders_list rfl (fun _ => .word) fun _ _ => .item hp.type))
  | pointer elem => exact .andThen .word hp.type
  | array len elem =>
    change p.Renders D (TypeExpr.array len elem).slots.parts _ []
    simp only [TypeExpr.slots, Slots.parts_bind]
    exact .andThen (.enclosed hp.arrayLen) hp.type
  | slice elem => exact .andThen (.enclosed .empty) hp.type
  | map key val => exact .andThen .word (.andThen (.enclosed hp.type) hp.type)
  | chan dir elem => exact .andThen .word hp.type
  | struct fields =>
    -- the field list is a node of its own, and passes on that its fields are those of a struct
    refine .of_scans (GoTree.Renders.scans_node (x := fields) ?_ rfl rfl rfl)
    refine .items rfl fun xs => .andThen .word (renders_members fun y qs => ?_)
    exact .item hp.structField
  | interface elems =>
    refine .items rfl fun xs => .andThen .word (renders_members fun y qs => ?_)
    exact .item hp.interfaceElem
  | func sig => exact .andThen .word hp.signature
  | paren typ => exact .enclosed hp.type
  | bad => exact .word

/-! ### Expressions -/

theorem stmts {seg : Segment .stmts} :
    p.Renders D (.list l .stmts seg :: ps) (p.block seg) ps := by
  refine .items rfl fun xs => ?_
  split
  · next he =>
    rw [Array.isEmpty_iff.mp he]
    exact .enclosed .empty
  · refine .enclosed (.andThen (.nest (.concat fun x qs => ?_)) .line)
    exact .andThen .line (.item hp.stmt)

theorem block {x : Block} : p.Renders D (.node l (.block x) :: ps) (p.block x.stmts) ps :=
  .of_scans (GoTree.Renders.scans_node (x := x) hp.stmts rfl rfl rfl)

theorem key {k : Key} : p.Renders D (k.slots.parts ++ ps) (p.key k) ps := by
  cases k with
  | fieldName name => exact .andThen renders_ident .word
  | expr x => exact .andThen hp.expr .word
  | literal lit => exact .andThen hp.literal .word

theorem element {e : Element} : p.Renders D (e.slots.parts ++ ps) (p.element e) ps := by
  cases e with
  | expr x => exact hp.expr
  | literal lit => exact hp.literal

theorem keyedElement {e : KeyedElement} :
    p.Renders D (e.slots.parts ++ []) (p.keyedElement e) [] := by
  simp only [KeyedElement.slots, Slots.parts_bind, List.append_nil]
  exact .andThen (.option fun _ => hp.key) hp.element

theorem literalBody {lit : LiteralValue} :
    p.Renders (D + 1) (.list l .keyedElements lit.elements :: ps) (p.literalBody lit) ps :=
  .enclosed (.items rfl fun _ => .join (fun _ => .word) fun _ _ => .item hp.keyedElement)

theorem exprOrType {x : ExprOrType} : p.Renders D (x.slots.parts ++ ps) (p.exprOrType x) ps := by
  cases x with
  | expr x => exact hp.expr
  | type typ => exact hp.type

theorem callee {x : Callee} : p.Renders D (x.slots.parts ++ ps) (p.callee x) ps := by
  cases x with
  | expr x => exact hp.expr
  | type typ => exact hp.type

/-- What an expression without a symbol of its own renders. -/
theorem exprBody_shown {id : Id .expr} {x : Expr} (hx : p.store.get? id = some x)
    (hn : (Node.stored id).symbol? p.store = none) :
    p.Renders D x.slots.parts (p.exprBody id) [] := by
  unfold Drafter.exprBody Store.get
  rw [hx]
  cases x with
  | ident name => simp [Node.symbol?, hx] at hn
  | basicLit lit => simp [Node.symbol?, hx] at hn
  | funcLit sig body => exact .andThen .word (.andThen hp.signature (.andThen .word hp.block))
  | compositeLit typ lit => exact .andThen hp.type hp.literal
  | index base args =>
    refine .andThen hp.expr (.enclosed ?_)
    exact renders_list rfl (fun _ => .word) fun _ _ => .item hp.exprOrType
  | paren x => exact .enclosed hp.expr
  | selector x sel => exact .andThen hp.expr (.andThen .word renders_ident)
  | slice x lo hi max =>
    simp only [Expr.slots, Slots.parts_bind]
    refine .andThen hp.expr (.enclosed ?_)
    refine .andThen (.option fun _ => hp.expr) (.andThen .word ?_)
    exact .andThen (.option fun _ => hp.expr) (.option fun _ => .andThen .word hp.expr)
  | typeAssert x typ =>
    cases typ with
    | none => exact .andThen hp.expr (.andThen .word (.enclosed .word))
    | some typ => exact .andThen hp.expr (.andThen .word (.enclosed hp.type))
  | call callee typeArg args ellipsis =>
    simp only [Expr.slots, Slots.parts_bind]
    refine .andThen hp.callee (.enclosed ?_)
    refine .andThen (.option fun _ => .andThen hp.type (.ite .empty .word)) ?_
    exact .andThen hp.exprs (.ite .word .empty)
  | unary op x => exact .andThen .word hp.expr
  | binary left op right =>
    exact .andThen hp.expr (.andThen .word (.andThen .word (.andThen .word hp.expr)))
  | methodExpr recv name => exact .andThen hp.type (.andThen .word renders_ident)
  | bad => exact .word

theorem exprBody {id : Id .expr} :
    p.Renders (D + 1) (.node l (.stored id) :: ps) (p.exprBody id) ps := by
  refine .of_scans ?_
  rcases hx : p.store.get? id with _ | x
  · unfold Drafter.exprBody Store.get
    rw [hx]
    exact .dangling hx
  · rcases hn : (Node.stored id).symbol? p.store with _ | sym
    · exact (hp.exprBody_shown hx hn).scans_node rfl hx hn
    · unfold Drafter.exprBody Store.get
      rw [hx]
      cases x with
      | ident name => exact scans_symbol rfl hx (by simp [Node.symbol?, hx]) rfl
      | basicLit lit => exact scans_symbol rfl hx (by simp [Node.symbol?, hx]) rfl
      | _ => simp [Node.symbol?, hx] at hn

/-! ### Declarations -/

theorem specSlots {x : Spec} : p.Renders D x.slots.parts (p.spec x) [] := by
  cases x with
  | importSpec x =>
    simp only [Spec.slots, ImportSpec.slots, Slots.parts_bind, List.append_assoc]
    refine .andThen renders_doc (.andThen (.option fun _ => .andThen renders_ident .word) ?_)
    exact .andThen renders_basicLit renders_trailing
  | valueSpec x =>
    simp only [Spec.slots, ValueSpec.slots, Slots.parts_bind, List.append_assoc]
    refine .andThen renders_doc (.andThen renders_idents ?_)
    refine .andThen (.option fun _ => .andThen .word hp.type) ?_
    exact .andThen (.ifEmpty .empty (.andThen .word hp.exprs)) renders_trailing
  | typeSpec x =>
    simp only [Spec.slots, TypeSpec.slots, Slots.parts_bind, List.append_assoc]
    refine .andThen renders_doc (.andThen renders_ident ?_)
    refine .andThen (.option fun _ => hp.typeParams) (.andThen (.ite .word .word) ?_)
    exact .andThen hp.type renders_trailing

theorem spec {x : Spec} : p.Renders D (.node l ⟨.spec, x⟩ :: ps) (p.spec x) ps :=
  .of_scans (GoTree.Renders.scans_node (x := x) hp.specSlots rfl rfl rfl)

theorem specs {grouped : Bool} {xs : List Spec} :
    p.Renders D (xs.map (.item l .specs)) (p.specs grouped xs) [] := by
  unfold Drafter.specs
  split
  · refine .ite (.enclosed (.andThen (.nest (.andThen .line ?_)) .line)) (.item hp.spec)
    exact .item hp.spec
  · refine .enclosed (.andThen (.nest (.concat fun x qs => ?_)) .line)
    exact .andThen .line (.item hp.spec)

theorem decl {id : Id .decl} : p.Renders D (.node l (.stored id) :: ps) (p.decl id) ps := by
  refine .get rfl rfl fun x _ => ?_
  cases x with
  | gen x =>
    change p.Renders D (Decl.gen x).slots.parts _ []
    simp only [Decl.slots, GenDecl.slots, Slots.parts_bind, List.append_assoc]
    refine .andThen renders_doc (.andThen .word (.andThen .word ?_))
    exact .items rfl fun xs => hp.specs
  | bad => exact .word

theorem funcDecl {id : Id .func} : p.Renders D (.node l (.stored id) :: ps) (p.funcDecl id) ps := by
  refine .get rfl rfl fun x _ => ?_
  change p.Renders D x.slots.parts _ []
  simp only [FuncDecl.slots, Slots.parts_bind]
  refine .andThen renders_doc (.andThen .word ?_)
  refine .andThen (.option fun _ => .andThen hp.params .word) (.andThen renders_ident ?_)
  refine .andThen (.option fun _ => hp.typeParams) (.andThen hp.signature ?_)
  exact .option fun _ => .andThen .word hp.block

theorem topLevelDecl {x : TopLevelDecl} :
    p.Renders D (x.slots.parts ++ ps) (p.topLevelDecl x) ps := by
  cases x with
  | decl d => exact hp.decl
  | func f => exact hp.funcDecl

theorem file {id : Id .file} : p.Renders D (.node l (.stored id) :: ps) (p.file id) ps := by
  refine .get rfl rfl fun x _ => ?_
  change p.Renders D x.slots.parts _ []
  simp only [SourceFile.slots, Slots.parts_bind]
  refine .andThen renders_doc (.andThen .word (.andThen renders_ident (.andThen ?_ .line)))
  refine .items rfl fun xs => .concat fun d qs => ?_
  exact .andThen .line (.andThen .line (.item hp.topLevelDecl))

theorem package {x : Package} : p.Renders D (.node l ⟨.package, x⟩ :: ps) (p.package x) ps := by
  refine .of_scans (GoTree.Renders.scans_node (x := x) ?_ rfl rfl rfl)
  exact renders_list rfl (fun _ => .line) fun _ _ => .item hp.file

/-! ### Statements -/

theorem simple {id : Id .simpleStmt} :
    p.Renders D (.node l (.stored id) :: ps) (p.simple id) ps := by
  refine .get rfl rfl fun x _ => ?_
  cases x with
  | empty => exact .empty
  | expr x => exact hp.expr
  | send chan value => exact .andThen hp.expr (.andThen .word hp.expr)
  | incDec x op => exact .andThen hp.expr .word
  | assign lhs op rhs =>
    exact .andThen hp.exprs (.andThen .word (.andThen .word (.andThen .word hp.exprs)))
  | shortVarDecl names values => exact .andThen renders_idents (.andThen .word hp.exprs)

omit hp in
theorem renders_label {o : Option IdentName} :
    p.Renders D ((optionSlot (nameSlot l) o).parts ++ ps) (p.label o) ps :=
  .option fun _ => .andThen .word renders_ident

omit hp in
theorem renders_branch {x : BranchStmt} : p.Renders D (x.slots.parts ++ []) (p.branch x) [] := by
  cases x with
  | breakTo label =>
    simp only [BranchStmt.slots, Slots.parts_bind, List.append_nil]
    exact .andThen .word renders_label
  | continueTo label =>
    simp only [BranchStmt.slots, Slots.parts_bind, List.append_nil]
    exact .andThen .word renders_label
  | goto label => exact .andThen .word (.andThen .word renders_ident)
  | fallthrough => exact .word

theorem headerInit {o : Option (Id .simpleStmt)} :
    p.Renders D ((optionSlot (childSlot l) o).parts ++ ps) (p.headerInit o) ps :=
  .option fun _ => .andThen hp.simple .word

theorem forHeader {kind : ForKind} :
    p.Renders D (kind.shown.slots.parts ++ ps) (p.forHeader kind) ps := by
  cases kind with
  | infinite => exact .empty
  | cond x => exact .andThen hp.expr .word
  | clause init cond post =>
    simp only [ForKind.shown, ForKind.slots, Slots.parts_bind, List.append_assoc]
    refine .andThen (.option fun _ => hp.simple) (.andThen .word ?_)
    refine .andThen (.option fun _ => hp.expr) (.andThen .word ?_)
    exact .andThen (.option fun _ => hp.simple) .word
  | range key value define x =>
    cases key with
    | none => exact .andThen .empty (.andThen .word (.andThen hp.expr .word))
    | some key =>
      simp only [ForKind.shown, ForKind.slots, Slots.parts_bind, List.append_assoc]
      refine .andThen (.andThen hp.expr (.andThen (.option fun _ => ?_) (.ite .word .word)))
        (.andThen .word (.andThen hp.expr .word))
      exact .andThen .word hp.expr

theorem caseBody {seg : Segment .stmts} :
    p.Renders D (.list l .stmts seg :: ps) (p.caseBody seg) ps := by
  refine .nest (.items rfl fun xs => .concat fun x qs => ?_)
  exact .andThen .line (.item hp.stmt)

theorem typeCaseElem {x : TypeCaseElem} :
    p.Renders D (x.slots.parts ++ ps) (p.typeCaseElem x) ps := by
  cases x with
  | type typ => exact hp.type
  | nil => exact .word

theorem switchClause {id : Id .switchClause} :
    p.Renders D (.node l (.stored id) :: ps) (p.switchClause id) ps := by
  refine .get rfl rfl fun x _ => ?_
  cases x with
  | exprCase items stmts =>
    refine .andThen (.ifEmpty .word (.andThen .word (.andThen ?_ .word))) hp.caseBody
    exact hp.exprs
  | typeCase items stmts =>
    refine .andThen (.ifEmpty .word (.andThen .word (.andThen ?_ .word))) hp.caseBody
    exact renders_list rfl (fun _ => .word) fun _ _ => .item hp.typeCaseElem

theorem commClause {id : Id .commClause} :
    p.Renders D (.node l (.stored id) :: ps) (p.commClause id) ps := by
  refine .get rfl rfl fun x _ => ?_
  obtain ⟨comm, stmts⟩ := x
  cases comm with
  | none => exact .andThen .word hp.caseBody
  | some comm => exact .andThen (.andThen .word (.andThen hp.simple .word)) hp.caseBody

omit hp in
theorem renders_clauses {q : Pool} {seg : Segment q} {f : q.Item → Draft}
    (hq : (SlotPart.list l q seg).levels = 0)
    (h : ∀ x qs, p.Renders D (.item l q x :: qs) (f x) qs) :
    p.Renders D (.list l q seg :: ps) (p.clauses f seg) ps := by
  have hD : D + (SlotPart.list l q seg).levels = D := by rw [hq, Nat.add_zero]
  refine .items hD fun xs => .enclosed (.andThen (.concat fun x qs => ?_) .line)
  exact .andThen .line (h x qs)

theorem switchClauses {seg : Segment .switchClauses} :
    p.Renders D (.list l .switchClauses seg :: ps) (p.clauses p.switchClause seg) ps :=
  renders_clauses rfl fun _ _ => .item hp.switchClause

theorem stmtBody {id : Id .stmt} :
    p.Renders (D + 1) (.node l (.stored id) :: ps) (p.stmtBody id) ps := by
  refine .get rfl rfl fun x _ => ?_
  cases x with
  | simple s => exact hp.simple
  | decl d => exact hp.decl
  | labeled label stmt => exact .andThen renders_ident (.andThen .word (.andThen .line hp.stmt))
  | goStmt call => exact .andThen .word hp.expr
  | deferStmt call => exact .andThen .word hp.expr
  | returnStmt results => exact .andThen .word (.ifEmpty .empty (.andThen .word hp.exprs))
  | branch b =>
    change p.Renders D (Stmt.branch b).slots.parts _ []
    simp only [Stmt.slots, Slots.parts_bind]
    exact renders_branch
  | block stmts => exact hp.stmts
  | ifStmt init cond thenBlock elseStmt =>
    change p.Renders D (Stmt.ifStmt init cond thenBlock elseStmt).slots.parts _ []
    simp only [Stmt.slots, Slots.parts_bind]
    refine .andThen .word (.andThen hp.headerInit (.andThen hp.expr (.andThen .word ?_)))
    exact .andThen hp.block (.option fun _ => .andThen .word hp.stmt)
  | forStmt kind body =>
    -- only what is shown of the header can be rendered
    change p.Renders D (Stmt.forStmt kind.shown body).slots.parts _ []
    simp only [Stmt.slots, Slots.parts_bind]
    exact .andThen .word (.andThen hp.forHeader hp.block)
  | switchStmt init tag clauses =>
    change p.Renders D (Stmt.switchStmt init tag clauses).slots.parts _ []
    simp only [Stmt.slots, Slots.parts_bind]
    refine .andThen .word (.andThen hp.headerInit ?_)
    exact .andThen (.option fun _ => .andThen hp.expr .word) hp.switchClauses
  | typeSwitch init guard clauses =>
    change p.Renders D (Stmt.typeSwitch init guard clauses).slots.parts _ []
    simp only [Stmt.slots, TypeSwitchGuard.slots, Slots.parts_bind, List.append_assoc]
    refine .andThen .word (.andThen hp.headerInit ?_)
    refine .andThen (.option fun _ => .andThen renders_ident .word) (.andThen hp.expr ?_)
    refine .andThen .word (.andThen (.enclosed .word) (.andThen .word ?_))
    exact hp.switchClauses
  | select clauses =>
    exact .andThen .word (renders_clauses rfl fun _ _ => .item hp.commClause)
  | bad => exact .word

/-! ### Any node -/

theorem node (n : Node) : Scans p.store p.names D false [.node l n] (p.node n).scan := by
  obtain ⟨k, v⟩ := n
  refine GoTree.Renders.scans ?_
  cases k with
  | stored c =>
    cases c with
    | decl => exact hp.decl
    | stmt => exact hp.stmt
    | simpleStmt => exact hp.simple
    | expr => exact hp.expr
    | type => exact hp.type
    | signature => exact .andThen .word hp.signature
    | func => exact hp.funcDecl
    | field => exact hp.field
    | switchClause => exact hp.switchClause
    | commClause => exact hp.commClause
    | typeParams => exact hp.typeParams
    | typeParamDecl => exact hp.typeParamDecl
    | comment => exact renders_comment
    | commentGroup => exact renders_commentGroup
    | file => exact hp.file
  | fieldList => exact hp.params
  | ident => exact renders_ident
  | basicLit => exact renders_basicLit
  | block => exact hp.block
  | expandedBlock => exact .of_scans (GoTree.Renders.scans_node (x := v) hp.stmts rfl rfl rfl)
  | spec => exact hp.spec
  | package => exact hp.package

end Sound

end Drafter

namespace Store

variable (s : Store) (names : NameTable)

/-- The drafts of parts to depth `D` are sound to depth `D`. -/
theorem sound_draftPart (D : Nat) : Drafter.Sound ⟨s, names, s.draftPart names D⟩ D := by
  induction D with
  | zero =>
    refine ⟨?_, ?_, ?_, ?_⟩ <;>
    · intros
      exact .of_scans (.deep Nat.zero_lt_one)
  | succ D ih =>
    refine ⟨?_, ?_, ?_, ?_⟩ <;> intros
    · exact ih.exprBody
    · exact ih.typeBody
    · exact ih.stmtBody
    · exact ih.literalBody

/-- **Printing follows the parts.** Printing any node, in any store, obeys the rules. -/
theorem scans_draft (D : Nat) (l : String) (n : Node) :
    Scans s names D false [.node l n] (s.draft names D n).scan :=
  (s.sound_draftPart names D).node n

end Store

end GoTree
