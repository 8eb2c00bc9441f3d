import GoTree.Proofs.Rendering
import GoTree.Proofs.TextTrees

/-!
# Printing sees the text tree

`print_of_textTree` says that nodes with the same text tree are printed alike, whatever else the two
stores hold and however they are laid out. There is one lemma for each function of the drafter, and
each compares the drafts that two drafters make of constructs that are the same up to their slots,
given that the slots are alike.

Like the functions, the lemmas take the drafts of the parts below as given: two drafters are
`Twins` to a height when the drafts they are given match on expressions, types, statements and
literal values up to that height. Tying the knot is an induction on the height.
-/

namespace GoTree

open Slots (childSlot nameSlot literalSlot fieldListSlot blockSlot listSlot optionSlot)

/-! ### Constructs that are the same up to their slots -/

/-- Fields of a struct are the same up to their slots if the comments above them are, and the rest
is. -/
private theorem Field.blank_slots {x x' : Field}
    (h : (Field.printed true x).slots.blank = (Field.printed true x').slots.blank) :
    (optionSlot (childSlot "Field.doc") x.doc).blank =
        (optionSlot (childSlot "Field.doc") x'.doc).blank ∧
      (Field.printed false x).slots.blank = (Field.printed false x').slots.blank := by
  simp only [Field.slots, Field.printed, Field.shown, Slots.blank_bind, Slots.blank_pure,
    Field.mk.injEq] at h ⊢
  obtain ⟨hdoc, hrest⟩ := h
  exact ⟨hdoc, trivial, hrest⟩

/-- The constructor of a type stays when its slots are emptied. -/
private theorem TypeExpr.ctorIdx_blank (x : TypeExpr) :
    x.printed.slots.blank.ctorIdx = x.ctorIdx := by
  cases x with
  | named pkg name args => cases pkg <;> rfl
  | array len elem => cases len <;> rfl
  | _ => rfl

theorem Expr.ctorIdx_blank (x : Expr) : x.slots.blank.plain.ctorIdx = x.ctorIdx := by
  cases x with
  | slice | typeAssert | call =>
    simp only [Expr.slots, Slots.blank_bind]
    rfl
  | _ => rfl

private theorem BranchStmt.ctorIdx_blank (x : BranchStmt) : x.slots.blank.ctorIdx = x.ctorIdx := by
  cases x with
  | breakTo label => cases label <;> rfl
  | continueTo label => cases label <;> rfl
  | _ => rfl

private theorem ForKind.ctorIdx_blank (x : ForKind) : x.shown.slots.blank.ctorIdx = x.ctorIdx := by
  cases x with
  | clause init cond post =>
    simp only [ForKind.shown, ForKind.slots, Slots.blank_bind]
    rfl
  | range key value define x =>
    cases key with
    | none => rfl
    | some key => cases value <;> rfl
  | _ => rfl

private theorem Stmt.ctorIdx_blank (x : Stmt) : x.printed.slots.blank.ctorIdx = x.ctorIdx := by
  cases x with
  | branch | ifStmt | forStmt | switchStmt | typeSwitch =>
    simp only [Stmt.printed, Stmt.shown, Stmt.slots, Slots.blank_bind]
    rfl
  | _ => rfl

private theorem Decl.ctorIdx_blank (x : Decl) : x.slots.blank.ctorIdx = x.ctorIdx := by
  cases x with
  | gen x =>
    simp only [Decl.slots, Slots.blank_bind]
    rfl
  | bad => rfl

private theorem Spec.ctorIdx_blank (x : Spec) : x.printed.slots.blank.ctorIdx = x.ctorIdx := by
  cases x <;>
  · simp only [Spec.printed, Spec.slots, Slots.blank_bind]
    rfl

namespace Drafter

/-- The drafts of the parts below match up to a height. -/
structure Twins (p p' : Drafter) (D : Nat) : Prop where
  expr : ∀ {l : String} {id id' : Id .expr} {ps ps' : List SlotPart},
    Matches p p' D false (.node l (.stored id) :: ps) (.node l (.stored id') :: ps') (p.expr id)
      (p'.expr id') ps ps'
  type : ∀ {l : String} {id id' : Id .type} {ps ps' : List SlotPart},
    Matches p p' D false (.node l (.stored id) :: ps) (.node l (.stored id') :: ps') (p.type id)
      (p'.type id') ps ps'
  stmt : ∀ {l : String} {id id' : Id .stmt} {ps ps' : List SlotPart},
    Matches p p' D false (.node l (.stored id) :: ps) (.node l (.stored id') :: ps') (p.stmt id)
      (p'.stmt id') ps ps'
  literal : ∀ {l : String} {lit lit' : LiteralValue} {ps ps' : List SlotPart},
    Matches p p' D false (.list l .keyedElements lit.elements :: ps)
      (.list l .keyedElements lit'.elements :: ps') (p.literal lit) (p'.literal lit') ps ps'

variable {p p' : Drafter} {D : Nat} {l : String} {ps ps' : List SlotPart}

/-! ### Leaves and lists -/

theorem matches_ident {x x' : IdentName} :
    Matches p p' D false (.node l (.ident x) :: ps) (.node l (.ident x') :: ps') (p.ident x)
      (p'.ident x') ps ps' :=
  .symbol rfl rfl

theorem matches_basicLit {x x' : BasicLit} :
    Matches p p' D false (.node l ⟨.basicLit, x⟩ :: ps) (.node l ⟨.basicLit, x'⟩ :: ps')
      (p.symbol x.value) (p'.symbol x'.value) ps ps' :=
  .symbol rfl rfl

theorem matches_list {q : Pool} {seg seg' : Segment q} {sep : Draft} {f f' : q.Item → Draft}
    (hs : ∀ qs qs', Matches p p' D false qs qs' sep sep qs qs')
    (h : ∀ x x' qs qs', Matches p p' D false (.item l q x :: qs) (.item l q x' :: qs') (f x) (f' x')
      qs qs') :
    Matches p p' D false (.list l q seg :: ps) (.list l q seg' :: ps') (p.list sep f seg)
      (p'.list sep f' seg') ps ps' :=
  .items (Nat.le_succ D) fun _ _ _ => .join hs h

theorem matches_idents {seg seg' : Segment .identNames} :
    Matches p p' D false (.list l .identNames seg :: ps) (.list l .identNames seg' :: ps')
      (p.idents seg) (p'.idents seg') ps ps' :=
  matches_list (fun _ _ => .word) fun _ _ _ _ => .item fun _ => matches_ident

theorem Twins.exprs (hp : p.Twins p' D) {seg seg' : Segment .exprs} :
    Matches p p' D false (.list l .exprs seg :: ps) (.list l .exprs seg' :: ps') (p.exprs seg)
      (p'.exprs seg') ps ps' :=
  matches_list (fun _ _ => .word) fun _ _ _ _ => .item fun _ => hp.expr

/-! ### Comments -/

theorem matches_comment {id id' : Id .comment} :
    Matches p p' D false (.node l (.stored id) :: ps) (.node l (.stored id') :: ps')
      (p.comment id) (p'.comment id') ps ps' := by
  intro ha
  obtain ⟨x, x', -, hx, hx', -⟩ := ha.exists_of_node (Nat.le_succ D)
  have hget : p.store.get? id = some x := hx
  have hget' : p'.store.get? id' = some x' := hx'
  unfold comment Store.get
  rw [hget, hget']
  exact Matches.symbol (by simp [Node.symbol?, hget]) (by simp [Node.symbol?, hget']) ha

theorem matches_commentGroup {id id' : Id .commentGroup} :
    Matches p p' D false (.node l (.stored id) :: ps) (.node l (.stored id') :: ps')
      (p.commentGroup id) (p'.commentGroup id') ps ps' :=
  .get (Nat.le_succ D) fun _ _ _ _ _ =>
    matches_list (fun _ _ => .line) fun _ _ _ _ => .item fun _ => matches_comment

theorem matches_doc {o o' : Option (Id .commentGroup)}
    (ho : (optionSlot (childSlot l) o).blank = (optionSlot (childSlot l) o').blank) :
    Matches p p' D false ((optionSlot (childSlot l) o).parts ++ ps)
      ((optionSlot (childSlot l) o').parts ++ ps') (p.doc o) (p'.doc o') ps ps' :=
  .option ho fun _ _ _ => .andThen matches_commentGroup .line

theorem matches_trailing {o o' : Option (Id .commentGroup)}
    (ho : (optionSlot (childSlot l) o).blank = (optionSlot (childSlot l) o').blank) :
    Matches p p' D false ((optionSlot (childSlot l) o).parts ++ ps)
      ((optionSlot (childSlot l) o').parts ++ ps') (p.trailing o) (p'.trailing o') ps ps' :=
  .option ho fun _ _ _ => .andThen .word matches_commentGroup

namespace Twins

variable (hp : p.Twins p' D)

include hp

/-! ### Fields, signatures and type parameters -/

/-- Fields that are read match in all but the comment above them. -/
theorem field_printed {id id' : Id .field} {x x' : Field} (hx : p.store.get? id = some x)
    (hx' : p'.store.get? id' = some x')
    (hc : (Field.printed false x).slots.blank = (Field.printed false x').slots.blank) :
    Matches p p' D false (Field.printed false x).slots.parts (Field.printed false x').slots.parts
      (p.field id) (p'.field id') [] [] := by
  obtain ⟨doc, names, variadic, typ, tag, comment⟩ := x
  obtain ⟨doc', names', variadic', typ', tag', comment'⟩ := x'
  simp only [Field.slots, Field.printed, Field.shown, Slots.blank_bind, Slots.blank_pure,
    Field.mk.injEq] at hc
  obtain ⟨-, -, rfl, -, htag, hcomment⟩ := hc
  unfold Drafter.field Store.get
  rw [hx, hx']
  simp only [Field.slots, Field.printed, Field.shown, Slots.parts_bind]
  refine .andThen (.ifEmpty .empty (.andThen matches_idents .word)) ?_
  refine .andThen (.ite .word .empty) (.andThen hp.type ?_)
  refine .andThen (.option htag fun _ _ _ => .andThen .word matches_basicLit) ?_
  exact matches_trailing hcomment

theorem field {id id' : Id .field} :
    Matches p p' D false (.node l (.stored id) :: ps) (.node l (.stored id') :: ps') (p.field id)
      (p'.field id') ps ps' :=
  .node (Nat.le_succ D) fun _ _ hx hx' hc => hp.field_printed hx hx' hc

/-- Fields of a struct match in the comment above them as well. -/
theorem structField {id id' : Id .field} :
    Matches p p' D true (.node l (.stored id) :: ps) (.node l (.stored id') :: ps')
      (p.structField id) (p'.structField id') ps ps' := by
  refine .get (Nat.le_succ D) fun x x' hx hx' hc => ?_
  change (Field.printed true x).slots.blank = (Field.printed true x').slots.blank at hc
  change Matches p p' D false (Field.printed true x).slots.parts (Field.printed true x').slots.parts
    _ _ [] []
  obtain ⟨hdoc, hrest⟩ := Field.blank_slots hc
  rw [Field.parts_slots, Field.parts_slots (Field.printed true x')]
  exact .andThen (matches_doc hdoc) (hp.field_printed hx hx' hrest)

theorem params {list list' : FieldList} :
    Matches p p' D false (.node l ⟨.fieldList, list⟩ :: ps) (.node l ⟨.fieldList, list'⟩ :: ps')
      (p.params list) (p'.params list') ps ps' := by
  refine .value rfl rfl fun _ => .enclosed (matches_list (fun _ _ => .word) fun _ _ _ _ => ?_)
  exact .item fun _ => hp.field

theorem results {r r' : Results} (hr : r.slots.blank = r'.slots.blank) :
    Matches p p' D false (r.slots.parts ++ ps) (r'.slots.parts ++ ps') (p.results r) (p'.results r')
      ps ps' := by
  match r, r', hr with
  | .params list, .params list', _ => exact .andThen .word hp.params
  | .type typ, .type typ', _ => exact .andThen .word hp.type

theorem signature {id id' : Id .signature} :
    Matches p p' D false (.node l (.stored id) :: ps) (.node l (.stored id') :: ps')
      (p.signature id) (p'.signature id') ps ps' := by
  refine .get (Nat.le_succ D) fun x x' _ _ hc => ?_
  change (Signature.slots x).blank = (Signature.slots x').blank at hc
  change Matches p p' D false (Signature.slots x).parts (Signature.slots x').parts _ _ [] []
  simp only [Signature.slots, Slots.blank_bind, Slots.blank_pure, Signature.mk.injEq] at hc
  obtain ⟨-, hresults⟩ := hc
  simp only [Signature.slots, Slots.parts_bind]
  exact .andThen hp.params (.option hresults fun _ _ hr => hp.results hr)

theorem typeTerm {t t' : TypeTerm} (ht : t.slots.blank = t'.slots.blank) :
    Matches p p' D false (t.slots.parts ++ ps) (t'.slots.parts ++ ps') (p.typeTerm t)
      (p'.typeTerm t') ps ps' := by
  match t, t', ht with
  | .tilde typ, .tilde typ', _ => exact .andThen .word hp.type
  | .type typ, .type typ', _ => exact hp.type

theorem typeElem {e e' : TypeElem} :
    Matches p p' D false (e.slots.parts ++ ps) (e'.slots.parts ++ ps') (p.typeElem e)
      (p'.typeElem e') ps ps' :=
  matches_list (fun _ _ => .word) fun _ _ _ _ => .item fun ht => hp.typeTerm ht

theorem constraint {c c' : TypeConstraint} (hc : c.slots.blank = c'.slots.blank) :
    Matches p p' D false (c.slots.parts ++ ps) (c'.slots.parts ++ ps') (p.constraint c)
      (p'.constraint c') ps ps' := by
  match c, c', hc with
  | .any, .any, _ => exact .word
  | .typeElem elem, .typeElem elem', _ => exact hp.typeElem
  | .interface typ, .interface typ', _ => exact hp.type

theorem typeParamDecl {id id' : Id .typeParamDecl} :
    Matches p p' D false (.node l (.stored id) :: ps) (.node l (.stored id') :: ps')
      (p.typeParamDecl id) (p'.typeParamDecl id') ps ps' := by
  refine .get (Nat.le_succ D) fun x x' _ _ hc => ?_
  change (TypeParamDecl.slots x).blank = (TypeParamDecl.slots x').blank at hc
  change Matches p p' D false (TypeParamDecl.slots x).parts (TypeParamDecl.slots x').parts _ _ [] []
  simp only [TypeParamDecl.slots, Slots.blank_bind, Slots.blank_pure, TypeParamDecl.mk.injEq] at hc
  obtain ⟨-, hconstraint⟩ := hc
  simp only [TypeParamDecl.slots, Slots.parts_bind]
  exact .andThen matches_idents (.andThen .word (hp.constraint hconstraint))

theorem typeParams {id id' : Id .typeParams} :
    Matches p p' D false (.node l (.stored id) :: ps) (.node l (.stored id') :: ps')
      (p.typeParams id) (p'.typeParams id') ps ps' := by
  refine .get (Nat.le_succ D) fun _ _ _ _ _ => .enclosed ?_
  exact matches_list (fun _ _ => .word) fun _ _ _ _ => .item fun _ => hp.typeParamDecl

/-! ### Types -/

theorem arrayLen {x x' : ArrayLen} (hx : x.slots.blank = x'.slots.blank) :
    Matches p p' D false (x.slots.parts ++ ps) (x'.slots.parts ++ ps') (p.arrayLen x)
      (p'.arrayLen x') ps ps' := by
  match x, x', hx with
  | .expr _, .expr _, _ => exact hp.expr
  | .ellipsis, .ellipsis, _ => exact .word

theorem interfaceElem {e e' : InterfaceElem} (he : e.slots.blank = e'.slots.blank) :
    Matches p p' D false (e.slots.parts ++ ps) (e'.slots.parts ++ ps') (p.interfaceElem e)
      (p'.interfaceElem e') ps ps' := by
  match e, e', he with
  | .method name sig, .method name' sig', _ => exact .andThen matches_ident hp.signature
  | .typeElem elem, .typeElem elem', _ => exact hp.typeElem

omit hp in
theorem matches_members {b : Bool} {q : Pool} {f f' : q.Item → Draft} {xs xs' : List q.Item}
    (hlen : xs.length = xs'.length)
    (h : ∀ x x' qs qs',
      Matches p p' D b (.item l q x :: qs) (.item l q x' :: qs') (f x) (f' x') qs qs') :
    Matches p p' D b (xs.map (.item l q)) (xs'.map (.item l q)) (members f xs) (members f' xs')
      [] [] := by
  match xs, xs', hlen with
  | [], [], _ => exact .enclosed .empty
  | x :: xs, x' :: xs', _ =>
    refine .andThen .word (.enclosed (.andThen (.nest (.concat fun y y' qs qs' => ?_)) .line))
    exact .andThen .line (h y y' qs qs')

theorem typeBody {id id' : Id .type} :
    Matches p p' (D + 1) false (.node l (.stored id) :: ps) (.node l (.stored id') :: ps')
      (p.typeBody id) (p'.typeBody id') ps ps' := by
  refine .get (Nat.le_refl _) fun x x' _ _ hc => ?_
  change (TypeExpr.printed x).slots.blank = (TypeExpr.printed x').slots.blank at hc
  change Matches p p' D (TypeExpr.isStruct x) (TypeExpr.printed x).slots.parts
    (TypeExpr.printed x').slots.parts _ _ [] []
  -- the two constructors are the same, so of the pairs of cases only the equal ones remain
  have hidx : TypeExpr.ctorIdx x = TypeExpr.ctorIdx x' := by
    rw [← TypeExpr.ctorIdx_blank, ← TypeExpr.ctorIdx_blank x', hc]
  cases x with
  | named pkg name args =>
    cases x' with
    | named pkg' name' args' =>
      simp only [TypeExpr.printed, TypeExpr.slots, Slots.blank_bind, Slots.blank_pure,
        TypeExpr.named.injEq] at hc
      obtain ⟨hpkg, -, -⟩ := hc
      simp only [TypeExpr.printed, TypeExpr.slots, Slots.parts_bind]
      refine .andThen (.option hpkg fun _ _ _ => .andThen matches_ident .word) ?_
      refine .andThen matches_ident (.ifEmpty .empty (.enclosed ?_))
      exact matches_list (fun _ _ => .word) fun _ _ _ _ => .item fun _ => hp.type
    | _ => cases hidx
  | pointer elem =>
    cases x' with
    | pointer elem' => exact .andThen .word hp.type
    | _ => cases hidx
  | array len elem =>
    cases x' with
    | array len' elem' =>
      simp only [TypeExpr.printed, TypeExpr.slots, Slots.blank_bind, Slots.blank_pure,
        TypeExpr.array.injEq] at hc
      obtain ⟨hlen, -⟩ := hc
      simp only [TypeExpr.printed, TypeExpr.slots, Slots.parts_bind]
      exact .andThen (.enclosed (hp.arrayLen hlen)) hp.type
    | _ => cases hidx
  | slice elem =>
    cases x' with
    | slice elem' => exact .andThen (.enclosed .empty) hp.type
    | _ => cases hidx
  | map key val =>
    cases x' with
    | map key' val' => exact .andThen .word (.andThen (.enclosed hp.type) hp.type)
    | _ => cases hidx
  | chan dir elem =>
    cases x' with
    | chan dir' elem' =>
      cases hc
      exact .andThen .word hp.type
    | _ => cases hidx
  | struct fields =>
    cases x' with
    | struct fields' =>
      -- the field list is a node of its own, and passes on that its fields are those of a struct
      refine .value rfl rfl fun _ => .items (Nat.le_succ D) fun xs xs' hsize => ?_
      refine .andThen .word (matches_members hsize fun _ _ _ _ => ?_)
      exact .item fun _ => hp.structField
    | _ => cases hidx
  | interface elems =>
    cases x' with
    | interface elems' =>
      refine .items (Nat.le_succ D) fun xs xs' hsize => ?_
      refine .andThen .word (matches_members hsize fun _ _ _ _ => ?_)
      exact .item fun he => hp.interfaceElem he
    | _ => cases hidx
  | func sig =>
    cases x' with
    | func sig' => exact .andThen .word hp.signature
    | _ => cases hidx
  | paren typ =>
    cases x' with
    | paren typ' => exact .enclosed hp.type
    | _ => cases hidx
  | bad =>
    cases x' with
    | bad => exact .word
    | _ => cases hidx

/-! ### Expressions -/

theorem stmts {seg seg' : Segment .stmts} :
    Matches p p' D false (.list l .stmts seg :: ps) (.list l .stmts seg' :: ps') (p.block seg)
      (p'.block seg') ps ps' := by
  refine .items (Nat.le_succ D) fun xs xs' hsize => ?_
  have hempty : xs.isEmpty = xs'.isEmpty := by rw [Array.isEmpty, Array.isEmpty, hsize]
  by_cases he : xs.isEmpty
  · obtain rfl := Array.isEmpty_iff.mp he
    obtain rfl := Array.isEmpty_iff.mp (hempty ▸ he)
    exact .enclosed .empty
  · rw [if_neg he, if_neg (hempty ▸ he)]
    refine .enclosed (.andThen (.nest (.concat fun _ _ _ _ => ?_)) .line)
    exact .andThen .line (.item fun _ => hp.stmt)

theorem block {x x' : Block} :
    Matches p p' D false (.node l (.block x) :: ps) (.node l (.block x') :: ps') (p.block x.stmts)
      (p'.block x'.stmts) ps ps' :=
  .value rfl rfl fun _ => hp.stmts

theorem key {k k' : Key} (hk : k.slots.blank = k'.slots.blank) :
    Matches p p' D false (k.slots.parts ++ ps) (k'.slots.parts ++ ps') (p.key k) (p'.key k') ps
      ps' := by
  match k, k', hk with
  | .fieldName name, .fieldName name', _ => exact .andThen matches_ident .word
  | .expr x, .expr x', _ => exact .andThen hp.expr .word
  | .literal lit, .literal lit', _ => exact .andThen hp.literal .word

theorem element {e e' : Element} (he : e.slots.blank = e'.slots.blank) :
    Matches p p' D false (e.slots.parts ++ ps) (e'.slots.parts ++ ps') (p.element e)
      (p'.element e') ps ps' := by
  match e, e', he with
  | .expr x, .expr x', _ => exact hp.expr
  | .literal lit, .literal lit', _ => exact hp.literal

theorem keyedElement {e e' : KeyedElement} (he : e.slots.blank = e'.slots.blank) :
    Matches p p' D false (e.slots.parts ++ []) (e'.slots.parts ++ []) (p.keyedElement e)
      (p'.keyedElement e') [] [] := by
  simp only [KeyedElement.slots, Slots.blank_bind, Slots.blank_pure, KeyedElement.mk.injEq] at he
  obtain ⟨hkey, hvalue⟩ := he
  simp only [KeyedElement.slots, Slots.parts_bind, List.append_nil]
  exact .andThen (.option hkey fun _ _ hk => hp.key hk) (hp.element hvalue)

theorem literalBody {lit lit' : LiteralValue} :
    Matches p p' (D + 1) false (.list l .keyedElements lit.elements :: ps)
      (.list l .keyedElements lit'.elements :: ps') (p.literalBody lit) (p'.literalBody lit') ps
      ps' := by
  refine .enclosed (.items (Nat.le_refl _) fun _ _ _ => ?_)
  exact .join (fun _ _ => .word) fun _ _ _ _ => .item fun he => hp.keyedElement he

theorem exprOrType {x x' : ExprOrType} (hx : x.slots.blank = x'.slots.blank) :
    Matches p p' D false (x.slots.parts ++ ps) (x'.slots.parts ++ ps') (p.exprOrType x)
      (p'.exprOrType x') ps ps' := by
  match x, x', hx with
  | .expr x, .expr x', _ => exact hp.expr
  | .type typ, .type typ', _ => exact hp.type

theorem callee {x x' : Callee} (hx : x.slots.blank = x'.slots.blank) :
    Matches p p' D false (x.slots.parts ++ ps) (x'.slots.parts ++ ps') (p.callee x) (p'.callee x')
      ps ps' := by
  match x, x', hx with
  | .expr x, .expr x', _ => exact hp.expr
  | .type typ, .type typ', _ => exact hp.type

/-- Expressions that are read and have no symbol of their own. -/
theorem exprBody_plain {id id' : Id .expr} {x x' : Expr} (hx : p.store.get? id = some x)
    (hx' : p'.store.get? id' = some x') (hc : x.slots.blank.plain = x'.slots.blank.plain)
    (hn : (Node.stored id).symbol? p.store = none) :
    Matches p p' D false x.slots.parts x'.slots.parts (p.exprBody id) (p'.exprBody id') [] [] := by
  have hidx : x.ctorIdx = x'.ctorIdx := by
    rw [← Expr.ctorIdx_blank, ← Expr.ctorIdx_blank x', hc]
  unfold Drafter.exprBody Store.get
  rw [hx, hx']
  cases x with
  | ident name => simp [Node.symbol?, hx] at hn
  | basicLit lit => simp [Node.symbol?, hx] at hn
  | funcLit sig body =>
    cases x' with
    | funcLit sig' body' => exact .andThen .word (.andThen hp.signature (.andThen .word hp.block))
    | _ => cases hidx
  | compositeLit typ lit =>
    cases x' with
    | compositeLit typ' lit' => exact .andThen hp.type hp.literal
    | _ => cases hidx
  | index base args =>
    cases x' with
    | index base' args' =>
      refine .andThen hp.expr (.enclosed (matches_list (fun _ _ => .word) fun _ _ _ _ => ?_))
      exact .item fun hx => hp.exprOrType hx
    | _ => cases hidx
  | paren x =>
    cases x' with
    | paren x' => exact .enclosed hp.expr
    | _ => cases hidx
  | selector x sel =>
    cases x' with
    | selector x' sel' => exact .andThen hp.expr (.andThen .word matches_ident)
    | _ => cases hidx
  | slice x lo hi max =>
    cases x' with
    | slice x' lo' hi' max' =>
      simp only [Expr.slots, Slots.blank_bind, Slots.blank_pure, Expr.plain, Expr.slice.injEq] at hc
      obtain ⟨-, hlo, hhi, hmax⟩ := hc
      simp only [Expr.slots, Slots.parts_bind]
      refine .andThen hp.expr (.enclosed ?_)
      refine .andThen (.option hlo fun _ _ _ => hp.expr) (.andThen .word ?_)
      refine .andThen (.option hhi fun _ _ _ => hp.expr) (.option hmax fun _ _ _ => ?_)
      exact .andThen .word hp.expr
    | _ => cases hidx
  | typeAssert x typ =>
    cases x' with
    | typeAssert x' typ' =>
      simp only [Expr.slots, Slots.blank_bind, Slots.blank_pure, Expr.plain,
        Expr.typeAssert.injEq] at hc
      obtain ⟨-, htyp⟩ := hc
      rcases Slots.optionSlot_cases htyp with ⟨rfl, rfl⟩ | ⟨_, _, rfl, rfl, -⟩
      · exact .andThen hp.expr (.andThen .word (.enclosed .word))
      · exact .andThen hp.expr (.andThen .word (.enclosed hp.type))
    | _ => cases hidx
  | call callee typeArg args ellipsis =>
    cases x' with
    | call callee' typeArg' args' ellipsis' =>
      simp only [Expr.slots, Slots.blank_bind, Slots.blank_pure, Expr.plain, Expr.call.injEq] at hc
      obtain ⟨hcallee, htypeArg, -, rfl⟩ := hc
      simp only [Expr.slots, Slots.parts_bind]
      refine .andThen (hp.callee hcallee) (.enclosed ?_)
      -- whether a comma follows the type is known from the arguments, which come next
      refine .andThen (.option htypeArg fun _ _ _ => .andThen hp.type ?_) ?_
      · exact .ifNextEmpty .empty .word
      · exact .andThen hp.exprs (.ite .word .empty)
    | _ => cases hidx
  | unary op x =>
    cases x' with
    | unary op' x' =>
      cases hc
      exact .andThen .word hp.expr
    | _ => cases hidx
  | binary left op right =>
    cases x' with
    | binary left' op' right' =>
      cases hc
      exact .andThen hp.expr (.andThen .word (.andThen .word (.andThen .word hp.expr)))
    | _ => cases hidx
  | methodExpr recv name =>
    cases x' with
    | methodExpr recv' name' => exact .andThen hp.type (.andThen .word matches_ident)
    | _ => cases hidx
  | bad =>
    cases x' with
    | bad => exact .word
    | _ => cases hidx

theorem exprBody {id id' : Id .expr} :
    Matches p p' (D + 1) false (.node l (.stored id) :: ps) (.node l (.stored id') :: ps')
      (p.exprBody id) (p'.exprBody id') ps ps' := by
  -- an identifier or a literal has a text of its own, any other expression only slots
  rcases hn : (Node.stored id).symbol? p.store with _ | sym
  · exact .node (Nat.le_refl _) fun _ _ hx hx' hc => hp.exprBody_plain hx hx' hc hn
  · intro ha
    obtain ⟨x, x', -, hx, hx', hc, -⟩ := ha.exists_of_node (Nat.le_refl _)
    have hidx : Expr.ctorIdx x = Expr.ctorIdx x' := by
      rw [← Expr.ctorIdx_blank, ← Expr.ctorIdx_blank x']
      exact congrArg Expr.ctorIdx hc
    have hget : p.store.get? id = some x := hx
    have hget' : p'.store.get? id' = some x' := hx'
    unfold Drafter.exprBody Store.get
    rw [hget, hget']
    cases x with
    | ident name =>
      cases x' with
      | ident name' =>
        exact Matches.symbol (by simp [Node.symbol?, hget]) (by simp [Node.symbol?, hget']) ha
      | _ => cases hidx
    | basicLit lit =>
      cases x' with
      | basicLit lit' =>
        exact Matches.symbol (by simp [Node.symbol?, hget]) (by simp [Node.symbol?, hget']) ha
      | _ => cases hidx
    | _ => simp [Node.symbol?, hget] at hn

/-! ### Declarations -/

theorem spec {x x' : Spec} :
    Matches p p' D false (.node l ⟨.spec, x⟩ :: ps) (.node l ⟨.spec, x'⟩ :: ps') (p.spec x)
      (p'.spec x') ps ps' := by
  refine .value rfl rfl fun hc => ?_
  change x.printed.slots.blank = x'.printed.slots.blank at hc
  change Matches p p' D false x.printed.slots.parts x'.printed.slots.parts _ _ [] []
  have hidx : x.ctorIdx = x'.ctorIdx := by
    rw [← Spec.ctorIdx_blank, ← Spec.ctorIdx_blank x', hc]
  cases x with
  | importSpec x =>
    cases x' with
    | importSpec x' =>
      simp only [Spec.printed, Spec.slots, ImportSpec.slots, Slots.blank_bind, Slots.blank_pure,
        Spec.importSpec.injEq, ImportSpec.mk.injEq] at hc
      obtain ⟨hdoc, hname, -, hcomment⟩ := hc
      simp only [Spec.printed, Spec.slots, ImportSpec.slots, Slots.parts_bind, List.append_assoc]
      refine .andThen (matches_doc hdoc) ?_
      refine .andThen (.option hname fun _ _ _ => .andThen matches_ident .word) ?_
      exact .andThen matches_basicLit (matches_trailing hcomment)
    | _ => cases hidx
  | valueSpec x =>
    cases x' with
    | valueSpec x' =>
      simp only [Spec.printed, Spec.slots, ValueSpec.slots, Slots.blank_bind, Slots.blank_pure,
        Spec.valueSpec.injEq, ValueSpec.mk.injEq] at hc
      obtain ⟨hdoc, -, htyp, -, hcomment⟩ := hc
      simp only [Spec.printed, Spec.slots, ValueSpec.slots, Slots.parts_bind, List.append_assoc]
      refine .andThen (matches_doc hdoc) (.andThen matches_idents ?_)
      refine .andThen (.option htyp fun _ _ _ => .andThen .word hp.type) ?_
      exact .andThen (.ifEmpty .empty (.andThen .word hp.exprs)) (matches_trailing hcomment)
    | _ => cases hidx
  | typeSpec x =>
    cases x' with
    | typeSpec x' =>
      obtain ⟨doc, name, typeParams, isAlias, typ, comment⟩ := x
      obtain ⟨doc', name', typeParams', isAlias', typ', comment'⟩ := x'
      simp only [Spec.printed, Spec.slots, TypeSpec.slots, Slots.blank_bind, Slots.blank_pure,
        Spec.typeSpec.injEq, TypeSpec.mk.injEq] at hc
      obtain ⟨hdoc, -, hparams, rfl, -, hcomment⟩ := hc
      simp only [Spec.printed, Spec.slots, TypeSpec.slots, Slots.parts_bind, List.append_assoc]
      refine .andThen (matches_doc hdoc) (.andThen matches_ident ?_)
      refine .andThen (.option hparams fun _ _ _ => hp.typeParams) (.andThen (.ite .word .word) ?_)
      exact .andThen hp.type (matches_trailing hcomment)
    | _ => cases hidx

theorem specs {grouped : Bool} {xs xs' : List Spec} (hlen : xs.length = xs'.length) :
    Matches p p' D false (xs.map (.item l .specs)) (xs'.map (.item l .specs)) (p.specs grouped xs)
      (p'.specs grouped xs') [] [] := by
  -- only for a single specification does it matter whether it is grouped
  have hmany : ∀ ys ys' : List Spec, Matches p p' D false (ys.map (.item l .specs))
      (ys'.map (.item l .specs))
      (.enclosed .round (.nest (.concat (fun s => .line >> p.spec s) ys) >> .line))
      (.enclosed .round (.nest (.concat (fun s => .line >> p'.spec s) ys') >> .line)) [] [] := by
    intro ys ys'
    refine .enclosed (.andThen (.nest (.concat fun _ _ _ _ => ?_)) .line)
    exact .andThen .line (.item fun _ => hp.spec)
  match xs, xs', hlen with
  | [], [], _ => exact hmany _ _
  | [x], [x'], _ =>
    refine .ite (.enclosed (.andThen (.nest (.andThen .line ?_)) .line)) (.item fun _ => hp.spec)
    exact .item fun _ => hp.spec
  | x :: y :: xs, x' :: y' :: xs', _ => exact hmany _ _

theorem decl {id id' : Id .decl} :
    Matches p p' D false (.node l (.stored id) :: ps) (.node l (.stored id') :: ps') (p.decl id)
      (p'.decl id') ps ps' := by
  refine .get (Nat.le_succ D) fun x x' _ _ hc => ?_
  change (Decl.slots x).blank = (Decl.slots x').blank at hc
  change Matches p p' D false (Decl.slots x).parts (Decl.slots x').parts _ _ [] []
  have hidx : Decl.ctorIdx x = Decl.ctorIdx x' := by
    rw [← Decl.ctorIdx_blank, ← Decl.ctorIdx_blank x', hc]
  cases x with
  | gen x =>
    cases x' with
    | gen x' =>
      obtain ⟨doc, kind, grouped, specs⟩ := x
      obtain ⟨doc', kind', grouped', specs'⟩ := x'
      simp only [Decl.slots, GenDecl.slots, Slots.blank_bind, Slots.blank_pure, Decl.gen.injEq,
        GenDecl.mk.injEq] at hc
      obtain ⟨hdoc, rfl, rfl, -⟩ := hc
      simp only [Decl.slots, GenDecl.slots, Slots.parts_bind, List.append_assoc]
      refine .andThen (matches_doc hdoc) (.andThen .word (.andThen .word ?_))
      exact .items (Nat.le_succ D) fun _ _ hsize => hp.specs hsize
    | bad => cases hidx
  | bad =>
    cases x' with
    | gen _ => cases hidx
    | bad => exact .word

theorem funcDecl {id id' : Id .func} :
    Matches p p' D false (.node l (.stored id) :: ps) (.node l (.stored id') :: ps')
      (p.funcDecl id) (p'.funcDecl id') ps ps' := by
  refine .get (Nat.le_succ D) fun x x' _ _ hc => ?_
  change (FuncDecl.slots x).blank = (FuncDecl.slots x').blank at hc
  change Matches p p' D false (FuncDecl.slots x).parts (FuncDecl.slots x').parts _ _ [] []
  simp only [FuncDecl.slots, Slots.blank_bind, Slots.blank_pure, FuncDecl.mk.injEq] at hc
  obtain ⟨hdoc, hrecv, -, hparams, -, hbody⟩ := hc
  simp only [FuncDecl.slots, Slots.parts_bind]
  refine .andThen (matches_doc hdoc) (.andThen .word ?_)
  refine .andThen (.option hrecv fun _ _ _ => .andThen hp.params .word) ?_
  refine .andThen matches_ident (.andThen (.option hparams fun _ _ _ => hp.typeParams) ?_)
  exact .andThen hp.signature (.option hbody fun _ _ _ => .andThen .word hp.block)

theorem topLevelDecl {x x' : TopLevelDecl} (hx : x.slots.blank = x'.slots.blank) :
    Matches p p' D false (x.slots.parts ++ ps) (x'.slots.parts ++ ps') (p.topLevelDecl x)
      (p'.topLevelDecl x') ps ps' := by
  match x, x', hx with
  | .decl d, .decl d', _ => exact hp.decl
  | .func f, .func f', _ => exact hp.funcDecl

theorem file {id id' : Id .file} :
    Matches p p' D false (.node l (.stored id) :: ps) (.node l (.stored id') :: ps') (p.file id)
      (p'.file id') ps ps' := by
  refine .get (Nat.le_succ D) fun x x' _ _ hc => ?_
  -- the list of all comments is neither compared nor printed
  change { (SourceFile.slots x).blank with comments := .empty } =
    { (SourceFile.slots x').blank with comments := .empty } at hc
  change Matches p p' D false (SourceFile.slots x).parts (SourceFile.slots x').parts _ _ [] []
  simp only [SourceFile.slots, Slots.blank_bind, Slots.blank_pure, SourceFile.mk.injEq] at hc
  obtain ⟨hdoc, -⟩ := hc
  simp only [SourceFile.slots, Slots.parts_bind]
  refine .andThen (matches_doc hdoc) (.andThen .word (.andThen matches_ident (.andThen ?_ .line)))
  refine .items (Nat.le_succ D) fun _ _ _ => .concat fun _ _ _ _ => ?_
  exact .andThen .line (.andThen .line (.item fun hx => hp.topLevelDecl hx))

theorem package {x x' : Package} :
    Matches p p' D false (.node l ⟨.package, x⟩ :: ps) (.node l ⟨.package, x'⟩ :: ps')
      (p.package x) (p'.package x') ps ps' :=
  .value rfl rfl fun _ => matches_list (fun _ _ => .line) fun _ _ _ _ => .item fun _ => hp.file

/-! ### Statements -/

theorem simple {id id' : Id .simpleStmt} :
    Matches p p' D false (.node l (.stored id) :: ps) (.node l (.stored id') :: ps') (p.simple id)
      (p'.simple id') ps ps' := by
  refine .get (Nat.le_succ D) fun x x' _ _ hc => ?_
  cases x with
  | empty =>
    cases x' with
    | empty => exact .empty
    | _ => cases hc
  | expr x =>
    cases x' with
    | expr x' => exact hp.expr
    | _ => cases hc
  | send chan value =>
    cases x' with
    | send chan' value' => exact .andThen hp.expr (.andThen .word hp.expr)
    | _ => cases hc
  | incDec x op =>
    cases x' with
    | incDec x' op' =>
      cases hc
      exact .andThen hp.expr .word
    | _ => cases hc
  | assign lhs op rhs =>
    cases x' with
    | assign lhs' op' rhs' =>
      cases hc
      exact .andThen hp.exprs (.andThen .word (.andThen .word (.andThen .word hp.exprs)))
    | _ => cases hc
  | shortVarDecl names values =>
    cases x' with
    | shortVarDecl names' values' => exact .andThen matches_idents (.andThen .word hp.exprs)
    | _ => cases hc

omit hp in
theorem matches_label {o o' : Option IdentName}
    (ho : (optionSlot (nameSlot l) o).blank = (optionSlot (nameSlot l) o').blank) :
    Matches p p' D false ((optionSlot (nameSlot l) o).parts ++ ps)
      ((optionSlot (nameSlot l) o').parts ++ ps') (p.label o) (p'.label o') ps ps' :=
  .option ho fun _ _ _ => .andThen .word matches_ident

omit hp in
theorem matches_branch {x x' : BranchStmt} (hx : x.slots.blank = x'.slots.blank) :
    Matches p p' D false (x.slots.parts ++ []) (x'.slots.parts ++ []) (p.branch x) (p'.branch x')
      [] [] := by
  have hidx : x.ctorIdx = x'.ctorIdx := by
    rw [← BranchStmt.ctorIdx_blank, ← BranchStmt.ctorIdx_blank x', hx]
  match x, x', hidx, hx with
  | .breakTo label, .breakTo label', _, hx =>
    simp only [BranchStmt.slots, Slots.blank_bind, Slots.blank_pure,
      BranchStmt.breakTo.injEq] at hx
    simp only [BranchStmt.slots, Slots.parts_bind, List.append_nil]
    exact .andThen .word (matches_label hx)
  | .continueTo label, .continueTo label', _, hx =>
    simp only [BranchStmt.slots, Slots.blank_bind, Slots.blank_pure,
      BranchStmt.continueTo.injEq] at hx
    simp only [BranchStmt.slots, Slots.parts_bind, List.append_nil]
    exact .andThen .word (matches_label hx)
  | .goto label, .goto label', _, _ => exact .andThen .word (.andThen .word matches_ident)
  | .fallthrough, .fallthrough, _, _ => exact .word

theorem headerInit {o o' : Option (Id .simpleStmt)}
    (ho : (optionSlot (childSlot l) o).blank = (optionSlot (childSlot l) o').blank) :
    Matches p p' D false ((optionSlot (childSlot l) o).parts ++ ps)
      ((optionSlot (childSlot l) o').parts ++ ps') (p.headerInit o) (p'.headerInit o') ps ps' :=
  .option ho fun _ _ _ => .andThen hp.simple .word

/-- Ranges with a key: what stands before the keyword. -/
theorem rangeKey {key key' : Id .expr} {value value' : Option (Id .expr)} {define : Bool}
    {m : String} (hv : (optionSlot (childSlot m) value).blank =
      (optionSlot (childSlot m) value').blank) :
    Matches p p' D false (.node l (.stored key) :: ((optionSlot (childSlot m) value).parts ++ ps))
      (.node l (.stored key') :: ((optionSlot (childSlot m) value').parts ++ ps'))
      (p.expr key >> Draft.option (fun value => .word ", " >> p.expr value) value >>
        if define then .word " := " else .word " = ")
      (p'.expr key' >> Draft.option (fun value => .word ", " >> p'.expr value) value' >>
        if define then .word " := " else .word " = ") ps ps' :=
  .andThen hp.expr (.andThen (.option hv fun _ _ _ => .andThen .word hp.expr) (.ite .word .word))

theorem forHeader {k k' : ForKind} (hk : k.shown.slots.blank = k'.shown.slots.blank) :
    Matches p p' D false (k.shown.slots.parts ++ ps) (k'.shown.slots.parts ++ ps') (p.forHeader k)
      (p'.forHeader k') ps ps' := by
  have hidx : k.ctorIdx = k'.ctorIdx := by
    rw [← ForKind.ctorIdx_blank, ← ForKind.ctorIdx_blank k', hk]
  cases k with
  | infinite =>
    cases k' with
    | infinite => exact .empty
    | _ => cases hidx
  | cond x =>
    cases k' with
    | cond x' => exact .andThen hp.expr .word
    | _ => cases hidx
  | clause init cond post =>
    cases k' with
    | clause init' cond' post' =>
      simp only [ForKind.shown, ForKind.slots, Slots.blank_bind, Slots.blank_pure,
        ForKind.clause.injEq] at hk
      obtain ⟨hinit, hcond, hpost⟩ := hk
      simp only [ForKind.shown, ForKind.slots, Slots.parts_bind, List.append_assoc]
      refine .andThen (.option hinit fun _ _ _ => hp.simple) (.andThen .word ?_)
      refine .andThen (.option hcond fun _ _ _ => hp.expr) (.andThen .word ?_)
      exact .andThen (.option hpost fun _ _ _ => hp.simple) .word
    | _ => cases hidx
  | range key value define x =>
    cases k' with
    | range key' value' define' x' =>
      cases key with
      | none =>
        cases key' with
        | none =>
          -- values without a key are not shown, so there is nothing to compare
          cases hk
          exact .andThen .empty (.andThen .word (.andThen hp.expr .word))
        | some key' => cases value' <;> cases hk
      | some key =>
        cases key' with
        | none => cases value <;> cases hk
        | some key' =>
          simp only [ForKind.shown, ForKind.slots, Slots.blank_bind, Slots.blank_pure,
            ForKind.range.injEq] at hk
          obtain ⟨-, hvalue, rfl, -⟩ := hk
          simp only [ForKind.shown, ForKind.slots, Slots.parts_bind, List.append_assoc]
          exact .andThen (hp.rangeKey hvalue) (.andThen .word (.andThen hp.expr .word))
    | _ => cases hidx

theorem caseBody {seg seg' : Segment .stmts} :
    Matches p p' D false (.list l .stmts seg :: ps) (.list l .stmts seg' :: ps') (p.caseBody seg)
      (p'.caseBody seg') ps ps' := by
  refine .nest (.items (Nat.le_succ D) fun _ _ _ => .concat fun _ _ _ _ => ?_)
  exact .andThen .line (.item fun _ => hp.stmt)

theorem typeCaseElem {x x' : TypeCaseElem} (hx : x.slots.blank = x'.slots.blank) :
    Matches p p' D false (x.slots.parts ++ ps) (x'.slots.parts ++ ps') (p.typeCaseElem x)
      (p'.typeCaseElem x') ps ps' := by
  match x, x', hx with
  | .type typ, .type typ', _ => exact hp.type
  | .nil, .nil, _ => exact .word

theorem switchClause {id id' : Id .switchClause} :
    Matches p p' D false (.node l (.stored id) :: ps) (.node l (.stored id') :: ps')
      (p.switchClause id) (p'.switchClause id') ps ps' := by
  refine .get (Nat.le_succ D) fun x x' _ _ hc => ?_
  match x, x', hc with
  | .exprCase items stmts, .exprCase items' stmts', _ =>
    refine .andThen (.ifEmpty .word (.andThen .word (.andThen ?_ .word))) hp.caseBody
    exact hp.exprs
  | .typeCase items stmts, .typeCase items' stmts', _ =>
    refine .andThen (.ifEmpty .word (.andThen .word (.andThen ?_ .word))) hp.caseBody
    exact matches_list (fun _ _ => .word) fun _ _ _ _ => .item fun hx => hp.typeCaseElem hx

theorem commClause {id id' : Id .commClause} :
    Matches p p' D false (.node l (.stored id) :: ps) (.node l (.stored id') :: ps')
      (p.commClause id) (p'.commClause id') ps ps' := by
  refine .get (Nat.le_succ D) fun x x' _ _ hc => ?_
  obtain ⟨comm, stmts⟩ := x
  obtain ⟨comm', stmts'⟩ := x'
  change (CommClause.slots ⟨comm, stmts⟩).blank = (CommClause.slots ⟨comm', stmts'⟩).blank at hc
  simp only [CommClause.slots, Slots.blank_bind, Slots.blank_pure, CommClause.mk.injEq] at hc
  obtain ⟨hcomm, -⟩ := hc
  rcases Slots.optionSlot_cases hcomm with ⟨rfl, rfl⟩ | ⟨_, _, rfl, rfl, -⟩
  · exact .andThen .word hp.caseBody
  · exact .andThen (.andThen .word (.andThen hp.simple .word)) hp.caseBody

omit hp in
theorem matches_clauses {q : Pool} {seg seg' : Segment q} {f f' : q.Item → Draft}
    (h : ∀ x x' qs qs',
      Matches p p' D false (.item l q x :: qs) (.item l q x' :: qs') (f x) (f' x') qs qs') :
    Matches p p' D false (.list l q seg :: ps) (.list l q seg' :: ps') (p.clauses f seg)
      (p'.clauses f' seg') ps ps' := by
  refine .items (Nat.le_succ D) fun _ _ _ => .enclosed (.andThen (.concat ?_) .line)
  exact fun x x' qs qs' => .andThen .line (h x x' qs qs')

theorem switchClauses {seg seg' : Segment .switchClauses} :
    Matches p p' D false (.list l .switchClauses seg :: ps) (.list l .switchClauses seg' :: ps')
      (p.clauses p.switchClause seg) (p'.clauses p'.switchClause seg') ps ps' :=
  matches_clauses fun _ _ _ _ => .item fun _ => hp.switchClause

theorem stmtBody {id id' : Id .stmt} :
    Matches p p' (D + 1) false (.node l (.stored id) :: ps) (.node l (.stored id') :: ps')
      (p.stmtBody id) (p'.stmtBody id') ps ps' := by
  refine .get (Nat.le_refl _) fun x x' _ _ hc => ?_
  change (Stmt.printed x).slots.blank = (Stmt.printed x').slots.blank at hc
  change Matches p p' D false (Stmt.printed x).slots.parts (Stmt.printed x').slots.parts _ _ [] []
  have hidx : Stmt.ctorIdx x = Stmt.ctorIdx x' := by
    rw [← Stmt.ctorIdx_blank, ← Stmt.ctorIdx_blank x', hc]
  cases x with
  | simple s =>
    cases x' with
    | simple s' => exact hp.simple
    | _ => cases hidx
  | decl d =>
    cases x' with
    | decl d' => exact hp.decl
    | _ => cases hidx
  | labeled label stmt =>
    cases x' with
    | labeled label' stmt' =>
      exact .andThen matches_ident (.andThen .word (.andThen .line hp.stmt))
    | _ => cases hidx
  | goStmt call =>
    cases x' with
    | goStmt call' => exact .andThen .word hp.expr
    | _ => cases hidx
  | deferStmt call =>
    cases x' with
    | deferStmt call' => exact .andThen .word hp.expr
    | _ => cases hidx
  | returnStmt results =>
    cases x' with
    | returnStmt results' =>
      exact .andThen .word (.ifEmpty .empty (.andThen .word hp.exprs))
    | _ => cases hidx
  | branch b =>
    cases x' with
    | branch b' =>
      simp only [Stmt.printed, Stmt.shown, Stmt.slots, Slots.blank_bind, Slots.blank_pure,
        Stmt.branch.injEq] at hc
      simp only [Stmt.printed, Stmt.shown, Stmt.slots, Slots.parts_bind]
      exact matches_branch hc
    | _ => cases hidx
  | block stmts =>
    cases x' with
    | block stmts' => exact hp.stmts
    | _ => cases hidx
  | ifStmt init cond thenBlock elseStmt =>
    cases x' with
    | ifStmt init' cond' thenBlock' elseStmt' =>
      simp only [Stmt.printed, Stmt.shown, Stmt.slots, Slots.blank_bind, Slots.blank_pure,
        Stmt.ifStmt.injEq] at hc
      obtain ⟨hinit, -, -, helse⟩ := hc
      simp only [Stmt.printed, Stmt.shown, Stmt.slots, Slots.parts_bind]
      refine .andThen .word (.andThen (hp.headerInit hinit) (.andThen hp.expr (.andThen .word ?_)))
      exact .andThen hp.block (.option helse fun _ _ _ => .andThen .word hp.stmt)
    | _ => cases hidx
  | forStmt kind body =>
    cases x' with
    | forStmt kind' body' =>
      simp only [Stmt.printed, Stmt.shown, Stmt.slots, Slots.blank_bind, Slots.blank_pure,
        Stmt.forStmt.injEq] at hc
      obtain ⟨hkind, -⟩ := hc
      simp only [Stmt.printed, Stmt.shown, Stmt.slots, Slots.parts_bind]
      exact .andThen .word (.andThen (hp.forHeader hkind) hp.block)
    | _ => cases hidx
  | switchStmt init tag clauses =>
    cases x' with
    | switchStmt init' tag' clauses' =>
      simp only [Stmt.printed, Stmt.shown, Stmt.slots, Slots.blank_bind, Slots.blank_pure,
        Stmt.switchStmt.injEq] at hc
      obtain ⟨hinit, htag, -⟩ := hc
      simp only [Stmt.printed, Stmt.shown, Stmt.slots, Slots.parts_bind]
      refine .andThen .word (.andThen (hp.headerInit hinit) ?_)
      exact .andThen (.option htag fun _ _ _ => .andThen hp.expr .word) hp.switchClauses
    | _ => cases hidx
  | typeSwitch init guard clauses =>
    cases x' with
    | typeSwitch init' guard' clauses' =>
      simp only [Stmt.printed, Stmt.shown, Stmt.slots, TypeSwitchGuard.slots, Slots.blank_bind,
        Slots.blank_pure, Stmt.typeSwitch.injEq, TypeSwitchGuard.mk.injEq] at hc
      obtain ⟨hinit, ⟨hbind, -⟩, -⟩ := hc
      simp only [Stmt.printed, Stmt.shown, Stmt.slots, TypeSwitchGuard.slots, Slots.parts_bind,
        List.append_assoc]
      refine .andThen .word (.andThen (hp.headerInit hinit) ?_)
      refine .andThen (.option hbind fun _ _ _ => .andThen matches_ident .word) ?_
      refine .andThen hp.expr (.andThen .word (.andThen (.enclosed .word) (.andThen .word ?_)))
      exact hp.switchClauses
    | _ => cases hidx
  | select clauses =>
    cases x' with
    | select clauses' =>
      exact .andThen .word (matches_clauses fun _ _ _ _ => .item fun _ => hp.commClause)
    | _ => cases hidx
  | bad =>
    cases x' with
    | bad => exact .word
    | _ => cases hidx

/-! ### Any node -/

theorem node {k : Kind} {v v' : k.Value} :
    Matches p p' D false [.node l ⟨k, v⟩] [.node l ⟨k, v'⟩] (p.node ⟨k, v⟩) (p'.node ⟨k, v'⟩)
      [] [] := by
  cases k with
  | stored c =>
    cases c with
    | decl => exact hp.decl
    | stmt => exact hp.stmt
    | simpleStmt => exact hp.simple
    | expr => exact hp.expr
    | type => exact hp.type
    | signature => exact .andThen .word hp.signature
    | func => exact hp.funcDecl
    | field => exact hp.field
    | switchClause => exact hp.switchClause
    | commClause => exact hp.commClause
    | typeParams => exact hp.typeParams
    | typeParamDecl => exact hp.typeParamDecl
    | comment => exact matches_comment
    | commentGroup => exact matches_commentGroup
    | file => exact hp.file
  | fieldList => exact hp.params
  | ident => exact matches_ident
  | basicLit => exact matches_basicLit
  | block => exact hp.block
  | expandedBlock => exact .value rfl rfl fun _ => hp.stmts
  | spec => exact hp.spec
  | package => exact hp.package

end Twins

end Drafter

namespace Store

variable {s s' : Store} {names names' : NameTable} {D : Nat}

/-- The drafts of parts match up to the height that both depths suffice for. -/
theorem twins_draftPart {depth depth' : Nat} (h : D ≤ depth) (h' : D ≤ depth') :
    Drafter.Twins ⟨s, names, s.draftPart names depth⟩ ⟨s', names', s'.draftPart names' depth'⟩
      D := by
  -- on the height, not on the depths: the same height is reached in drafts of different depths
  induction D generalizing depth depth' with
  | zero =>
    refine ⟨?_, ?_, ?_, ?_⟩ <;>
    · intros
      exact fun ha => absurd ha Alike.not_zero
  | succ D ih =>
    obtain ⟨depth, rfl⟩ := Nat.exists_eq_add_of_le' h
    obtain ⟨depth', rfl⟩ := Nat.exists_eq_add_of_le' h'
    have hp := ih (Nat.le_add_left D depth) (Nat.le_add_left D depth')
    refine ⟨?_, ?_, ?_, ?_⟩ <;> intros
    · exact hp.exprBody
    · exact hp.typeBody
    · exact hp.stmtBody
    · exact hp.literalBody

/-- Nodes with the same text tree have drafts with the same text. -/
theorem same_draft {depth depth' : Nat} {n n' : Node} {T : TextTree}
    (hT : Depicts s names false [.node "" n] [T]) (hT' : Depicts s' names' false [.node "" n'] [T])
    (h : T.height ≤ depth) (h' : T.height ≤ depth') :
    Draft.Same (s.draft names depth n) (s'.draft names' depth' n') := by
  have hkind : n.kind = n'.kind := by
    obtain ⟨_, _, _, rfl⟩ := hT.exists_node
    obtain ⟨_, _, _, hnode⟩ := hT'.exists_node
    exact (TextTree.node.inj hnode).1
  obtain ⟨k, v⟩ := n
  obtain ⟨k', v'⟩ := n'
  cases hkind
  have hheight : TextTree.heightAll [T] ≤ T.height :=
    TextTree.heightAll_cons_le_iff.mpr ⟨Nat.le_refl _, Nat.zero_le _⟩
  exact ((twins_draftPart h h').node ⟨[T], hheight, hT, hT'⟩).1

/-- Nodes with the same text tree are printed alike. -/
theorem print_congr {depth depth' : Nat} {n n' : Node} {T : TextTree}
    (hT : Depicts s names false [.node "" n] [T]) (hT' : Depicts s' names' false [.node "" n'] [T])
    (h : T.height ≤ depth) (h' : T.height ≤ depth') :
    s.print names depth n = s'.print names' depth' n' ∧
      ∃ text, s.print names depth n = .ok text := by
  obtain ⟨a, a', ha, ha', hsame⟩ := same_draft hT hT' h h'
  rw [print_eq_text, print_eq_text, ha, ha']
  exact ⟨congrArg Except.ok (hsame 0 ""), a.text, rfl⟩

end Store

/-- **Printing sees only the text tree.** Take any two stores with names and any node of each, such
that the nodes have the same text tree: they unfold to the same constructs as far as printing
follows them, with the same texts at the leaves. Then both are printed, with the same text, at any
depth from the height of the tree on. So the text depends neither on ids, list handles, symbols,
positions and the kinds of literals and comments, nor on what is shared or never reached. -/
theorem print_of_textTree {s s' : Store} {names names' : NameTable} {n n' : Node} {T : TextTree}
    (hT : Depicts s names false [.node "" n] [T])
    (hT' : Depicts s' names' false [.node "" n'] [T]) :
    ∃ text, ∀ depth, T.height ≤ depth →
      s.print names depth n = .ok text ∧ s'.print names' depth n' = .ok text := by
  obtain ⟨-, text, htext⟩ := Store.print_congr hT hT' (Nat.le_refl _) (Nat.le_refl _)
  refine ⟨text, fun depth h => ⟨?_, ?_⟩⟩
  · exact (Store.print_congr hT hT h (Nat.le_refl _)).1.trans htext
  · exact (Store.print_congr hT' hT h (Nat.le_refl _)).1.trans htext

/-- The loop `for range f(f, f)`, with one node for all of `f`. -/
def denseLoop : Store where
  tables := { exprs := .ofNodes #[.ident ⟨⟨0⟩, .none⟩, .call (.expr ⟨0⟩) none ⟨0, 2⟩ false]
              stmts := .ofNodes #[.forStmt (.range none none true ⟨1⟩) {}] }
  buffers := { exprs := #[⟨0⟩, ⟨0⟩] }

def denseNames : NameTable where
  strings := #["f"]

/-- The same loop with a node for each `f`, among nodes and list items that are not reached. There
is a value in its header, which dangles; it is not printed, as there is no key. -/
def sparseLoop : Store where
  tables := { exprs := .ofNodes #[.call (.expr ⟨3⟩) none ⟨1, 2⟩ false, .ident ⟨⟨1⟩, ⟨4, 5⟩⟩,
                .ident ⟨⟨1⟩, .none⟩, .ident ⟨⟨1⟩, .none⟩, .bad]
              stmts := .ofNodes #[.bad, .forStmt (.range none (some ⟨7⟩) true ⟨0⟩) ⟨⟨1, 0⟩⟩] }
  buffers := { exprs := #[⟨4⟩, ⟨1⟩, ⟨2⟩], stmts := #[⟨0⟩] }

def sparseNames : NameTable where
  strings := #["g", "f"]

/-- The text tree of both loops. -/
def loopTree : TextTree :=
  let name : TextTree := .node (.stored .expr) (Expr.ident ⟨⟨0⟩, .none⟩) (some "f") []
  let arg : TextTree := .item .exprs (Kind.stored .expr).filler [name]
  let call : Expr := .call (.expr (Kind.stored .expr).filler) none .empty false
  let loop : Stmt := .forStmt (.range none none true (Kind.stored .expr).filler) Kind.block.filler
  .node (.stored .stmt) loop none
    [.node (.stored .expr) call none [name, .list .exprs [arg, arg]],
      .node .block (Kind.block.filler) none [.list .stmts []]]

private theorem depicts_denseLoop :
    Depicts denseLoop denseNames false [.node "" (.stored (⟨0⟩ : Id .stmt))] [loopTree] := by
  refine .node_of_eq rfl rfl rfl (.node_of_eq rfl rfl rfl ?_ ?_) .nil
  · refine .node_of_eq rfl rfl rfl .nil (.list rfl (.item ?_ (.item ?_ .nil)) .nil)
    · exact .node_of_eq rfl rfl rfl .nil .nil
    · exact .node_of_eq rfl rfl rfl .nil .nil
  · exact .node_of_eq rfl rfl rfl (.list rfl .nil .nil) .nil

private theorem depicts_sparseLoop :
    Depicts sparseLoop sparseNames false [.node "" (.stored (⟨1⟩ : Id .stmt))] [loopTree] := by
  refine .node_of_eq rfl rfl rfl (.node_of_eq rfl rfl rfl ?_ ?_) .nil
  · refine .node_of_eq rfl rfl rfl .nil (.list rfl (.item ?_ (.item ?_ .nil)) .nil)
    · exact .node_of_eq rfl rfl rfl .nil .nil
    · exact .node_of_eq rfl rfl rfl .nil .nil
  · exact .node_of_eq rfl rfl rfl (.list rfl .nil .nil) .nil

/-- Both loops are printed as `for range f(f, f)`. -/
theorem print_of_textTree_loops :
    let dense : Node := .stored (⟨0⟩ : Id .stmt)
    let sparse : Node := .stored (⟨1⟩ : Id .stmt)
    (Depicts denseLoop denseNames false [.node "" dense] [loopTree] ∧
      Depicts sparseLoop sparseNames false [.node "" sparse] [loopTree]) ∧
      ∃ text, (∀ depth, 5 ≤ depth → denseLoop.print denseNames depth dense = .ok text ∧
        sparseLoop.print sparseNames depth sparse = .ok text) ∧
        text = "for range f(f, f) \x7b\x7d" := by
  intro dense sparse
  obtain ⟨text, htext⟩ := print_of_textTree depicts_denseLoop depicts_sparseLoop
  have hprint : denseLoop.print denseNames 5 dense = .ok "for range f(f, f) \x7b\x7d" := rfl
  have h5 := (htext 5 (by decide)).1
  rw [hprint] at h5
  exact ⟨⟨depicts_denseLoop, depicts_sparseLoop⟩, text, fun depth h => htext depth h,
    (Except.ok.inj h5).symm⟩

end GoTree
