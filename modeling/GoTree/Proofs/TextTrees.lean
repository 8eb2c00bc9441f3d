import GoTree.Proofs.Scanning
import GoTree.Proofs.Bounds

/-!
# Text trees

A `TextTree` is what printing can see of a node: the constructs it is made of, as far as printing
follows them, and the texts of its leaves. It has no ids, no list handles and no symbols.
`Depicts s names b ps ts` says that with the store `s` and the names `names` the parts `ps` have the
text trees `ts`. So nodes of two stores may have the same text tree although the stores are laid out
differently, share different nodes and have numbered their names in different orders.

What is not seen is taken out in two steps. `Kind.printed` leaves out what printing does not look at
in a body: besides what is not shown (`Kind.shown`), the handle of an empty list in those places
where printing asks for the number of items first. `Kind.plain` leaves out what stands beside the
slots and has no bearing on the text: positions, the kinds of literals and comments, the name of a
package, the list of all comments of a file, and the numbers of symbols.

Two lists of parts are **alike** for two drafters when they have the same text trees (`Alike`).
Drafts that two drafters make from the first parts of lists that are alike **match** if they have
the same text and leave parts that are alike (`Matches`). This is how drafts are compared piece by
piece.
-/

namespace GoTree

open Slots (childSlot nameSlot literalSlot fieldListSlot blockSlot listSlot optionSlot)

/-! ### Emptied slots in sequence -/

section Blank

variable {α β : Type}

theorem Slots.blank_bind (x : Slots α) (f : α → Slots β) :
    (x >>= f).blank = (f x.blank).blank := by
  induction x with
  | done a => rfl
  | node l k v next ih => exact ih k.filler
  | list l p seg next ih => exact ih .empty

theorem Slots.blank_pure (a : α) : (pure a : Slots α).blank = a :=
  rfl

/-- Optional parts are both present or both absent if they are so when emptied. -/
theorem Slots.optionSlot_cases {slots : α → Slots α} {o o' : Option α}
    (h : (optionSlot slots o).blank = (optionSlot slots o').blank) :
    (o = none ∧ o' = none) ∨
      ∃ a a', o = some a ∧ o' = some a' ∧ (slots a).blank = (slots a').blank := by
  cases o with
  | none =>
    cases o' with
    | none => exact .inl ⟨rfl, rfl⟩
    | some a' =>
      rw [optionSlot, optionSlot, blank_bind] at h
      cases h
  | some a =>
    cases o' with
    | none =>
      rw [optionSlot, optionSlot, blank_bind] at h
      cases h
    | some a' =>
      rw [optionSlot, optionSlot, blank_bind, blank_bind] at h
      exact .inr ⟨a, a', rfl, rfl, Option.some.inj h⟩

end Blank

/-! ### What printing sees of a body -/

/-- All lists without items, as one. -/
def Segment.normal {p : Pool} (seg : Segment p) : Segment p :=
  if seg.isEmpty then .empty else seg

private theorem Segment.isEmpty_normal {p : Pool} (seg : Segment p) :
    seg.normal.isEmpty = seg.isEmpty := by
  unfold normal
  split
  · next h => rw [h]; rfl
  · rfl

/-- A field as printing sees it. -/
def Field.printed (inStruct : Bool) (x : Field) : Field :=
  { Field.shown inStruct x with names := x.names.normal }

/-- A statement as printing sees it. -/
def Stmt.printed : Stmt → Stmt
  | .returnStmt results => .returnStmt results.normal
  | x => x.shown

/-- A type as printing sees it. -/
def TypeExpr.printed : TypeExpr → TypeExpr
  | .named pkg name args => .named pkg name args.normal
  | x => x

/-- A clause as printing sees it. -/
def SwitchClause.printed : SwitchClause → SwitchClause
  | .exprCase items stmts => .exprCase items.normal stmts
  | .typeCase items stmts => .typeCase items.normal stmts

/-- A specification as printing sees it. -/
def Spec.printed : Spec → Spec
  | .valueSpec x => .valueSpec { x with values := x.values.normal }
  | x => x

/-- A body as printing sees it. -/
def Kind.printed (inStruct : Bool) : (k : Kind) → k.Body → k.Body
  | .stored .field, x => Field.printed inStruct x
  | .stored .stmt, x => Stmt.printed x
  | .stored .type, x => TypeExpr.printed x
  | .stored .switchClause, x => SwitchClause.printed x
  | .spec, x => Spec.printed x
  | _, x => x

/-- An expression without what tells leaves apart. -/
def Expr.plain : Expr → Expr
  | .ident _ => .ident ⟨⟨0⟩, .none⟩
  | .basicLit _ => .basicLit ⟨.int, ⟨0⟩⟩
  | x => x

/-- A body without what printing makes no use of, and without symbols. -/
def Kind.plain : (k : Kind) → k.Body → k.Body
  | .stored .expr, x => Expr.plain x
  | .stored .comment, _ => Comment.mk .line ⟨0⟩
  | .stored .file, x => { (show SourceFile from x) with comments := .empty }
  | .ident, _ => IdentName.mk ⟨0⟩ .none
  | .basicLit, _ => BasicLit.mk .int ⟨0⟩
  | .package, x => { (show Package from x) with name := ⟨0⟩ }
  | _, x => x

/-- The construct of a body: all that printing sees of it outside of its slots. -/
def Kind.construct (inStruct : Bool) (k : Kind) (x : k.Body) : k.Body :=
  k.plain (k.bodySlots (k.printed inStruct x)).blank

private theorem TypeExpr.isStruct_blank (x : TypeExpr) :
    x.printed.slots.blank.isStruct = x.isStruct := by
  cases x with
  | named pkg name args => cases pkg <;> rfl
  | array len elem => cases len <;> rfl
  | _ => rfl

/-- Whether fields are those of a struct is seen from the construct. -/
private theorem Kind.inStruct_eq {b : Bool} {k : Kind} {x x' : k.Body}
    (h : k.construct b x = k.construct b x') : k.inStruct b x = k.inStruct b x' := by
  cases k with
  | stored c =>
    cases c with
    | type =>
      change TypeExpr.isStruct x = TypeExpr.isStruct x'
      rw [← TypeExpr.isStruct_blank, ← TypeExpr.isStruct_blank x']
      exact congrArg TypeExpr.isStruct h
    | _ => rfl
  | _ => rfl

/-! ### Text trees -/

/-- What printing sees of a node, of a list, or of an item of a list. -/
inductive TextTree where
  | node (k : Kind) (construct : k.Body) (text : Option String) (below : List TextTree)
  | list (p : Pool) (below : List TextTree)
  | item (p : Pool) (construct : p.Item) (below : List TextTree)

namespace TextTree

mutual

/-- The number of levels of a text tree. -/
def height : TextTree → Nat
  | node _ _ _ us => heightAll us + 1
  | list _ us => heightAll us + 1
  | item _ _ us => heightAll us + 1

/-- The number of levels of a list of text trees. -/
def heightAll : List TextTree → Nat
  | [] => 0
  | T :: ts => max T.height (heightAll ts)

end

private theorem height_pos (T : TextTree) : 0 < T.height := by
  cases T <;> exact Nat.succ_pos _

theorem heightAll_cons_le_iff {T : TextTree} {ts : List TextTree} {D : Nat} :
    heightAll (T :: ts) ≤ D ↔ T.height ≤ D ∧ heightAll ts ≤ D := by
  rw [heightAll]
  exact Nat.max_le

end TextTree

/-- With a store and names, parts have text trees. `b` tells whether the fields among the parts are
fields of a struct. -/
inductive Depicts (s : Store) (names : NameTable) :
    Bool → List SlotPart → List TextTree → Prop where
  | nil {b : Bool} : Depicts s names b [] []
  /-- A leaf has the text of its symbol, which has to stand for one; other nodes have no text. -/
  | node {b : Bool} {l : String} {n : Node} {x : n.kind.Body} {text : Option String}
      {ps : List SlotPart} {us ts : List TextTree} (hx : n.body? s = some x)
      (ht : (n.symbol? s).map names.string? = text.map some)
      (hu : Depicts s names (n.kind.inStruct b x) (n.kind.bodySlots (n.kind.printed b x)).parts us)
      (h : Depicts s names b ps ts) :
      Depicts s names b (.node l n :: ps) (.node n.kind (n.kind.construct b x) text us :: ts)
  | list {b : Bool} {l : String} {p : Pool} {seg : Segment p} {xs : Array p.Item}
      {ps : List SlotPart} {us ts : List TextTree} (hx : s.items seg = .ok xs)
      (hu : Depicts s names b (xs.toList.map (.item l p)) us) (h : Depicts s names b ps ts) :
      Depicts s names b (.list l p seg :: ps) (.list p us :: ts)
  | item {b : Bool} {l : String} {p : Pool} {x : p.Item} {ps : List SlotPart}
      {us ts : List TextTree} (hu : Depicts s names b (p.slots l x).parts us)
      (h : Depicts s names b ps ts) :
      Depicts s names b (.item l p x :: ps) (.item p (p.slots l x).blank us :: ts)

/-- The rule for nodes, where the construct is given. -/
theorem Depicts.node_of_eq {s : Store} {names : NameTable} {b : Bool} {l : String} {n : Node}
    {x c : n.kind.Body} {text : Option String} {ps : List SlotPart} {us ts : List TextTree}
    (hx : n.body? s = some x) (hc : n.kind.construct b x = c)
    (ht : (n.symbol? s).map names.string? = text.map some)
    (hu : Depicts s names (n.kind.inStruct b x) (n.kind.bodySlots (n.kind.printed b x)).parts us)
    (h : Depicts s names b ps ts) :
    Depicts s names b (.node l n :: ps) (.node n.kind c text us :: ts) := by
  subst hc
  exact .node hx ht hu h

private theorem Depicts.length_eq {s : Store} {names : NameTable} {b : Bool} {ps : List SlotPart}
    {ts : List TextTree} (h : Depicts s names b ps ts) : ts.length = ps.length := by
  induction h with
  | nil => rfl
  | node _ _ _ _ _ ih => exact congrArg Nat.succ ih
  | list _ _ _ _ ih => exact congrArg Nat.succ ih
  | item _ _ _ ih => exact congrArg Nat.succ ih

/-- The kind of a node is seen from its text tree. -/
theorem Depicts.exists_node {s : Store} {names : NameTable} {b : Bool} {l : String} {n : Node}
    {ps : List SlotPart} {T : TextTree} {ts : List TextTree}
    (h : Depicts s names b (.node l n :: ps) (T :: ts)) :
    ∃ construct text below, T = .node n.kind construct text below := by
  cases h
  exact ⟨_, _, _, rfl⟩

/-- A list that is read is empty if there are no items. -/
private theorem Store.isEmpty_iff_of_items {s : Store} {p : Pool} {seg : Segment p}
    {xs : Array p.Item} (h : s.items seg = .ok xs) : seg.isEmpty ↔ xs.size = 0 := by
  have hstop : seg.stop ≤ (s.buffer p).size := by
    unfold Store.items at h
    split at h
    · cases h
    · next hf => exact (Segment.fault?_eq_none_iff.mp hf).2
  rw [Store.eq_extract_of_items h, Segment.isEmpty, beq_iff_eq, ← UInt32.toNat_inj]
  simp only [Array.size_extract, Segment.stop] at hstop ⊢
  change seg.len.toNat = 0 ↔ _
  omega

/-! ### Parts that are alike -/

/-- For two drafters, two lists of parts have the same text trees, of at most `D` levels. -/
def Alike (p p' : Drafter) (D : Nat) (b : Bool) (ps ps' : List SlotPart) : Prop :=
  ∃ ts, TextTree.heightAll ts ≤ D ∧ Depicts p.store p.names b ps ts ∧
    Depicts p'.store p'.names b ps' ts

namespace Alike

variable {p p' : Drafter} {D D' : Nat} {b : Bool} {l : String} {ps ps' : List SlotPart}

theorem nil : Alike p p' D b [] [] :=
  ⟨[], Nat.zero_le D, .nil, .nil⟩

/-- No part has a text tree without levels. -/
theorem not_zero {q : SlotPart} : ¬Alike p p' 0 b (q :: ps) ps' := by
  rintro ⟨ts, hts, h, -⟩
  cases ts with
  | nil => cases h
  | cons T ts =>
    have hT : T.height ≤ 0 := (TextTree.heightAll_cons_le_iff.mp hts).1
    exact absurd T.height_pos (Nat.not_lt.mpr hT)

theorem length_eq (h : Alike p p' D b ps ps') : ps.length = ps'.length := by
  obtain ⟨ts, -, h, h'⟩ := h
  exact h.length_eq.symm.trans h'.length_eq

/-- Nodes that are alike are of the same construct and have the same text, and what is below them is
alike. -/
theorem exists_of_node {k : Kind} {v v' : k.Value}
    (h : Alike p p' D b (.node l ⟨k, v⟩ :: ps) (.node l ⟨k, v'⟩ :: ps')) (hD : D ≤ D' + 1) :
    ∃ (x x' : k.Body) (text : Option String),
      Node.body? p.store ⟨k, v⟩ = some x ∧ Node.body? p'.store ⟨k, v'⟩ = some x' ∧
      k.construct b x = k.construct b x' ∧
      (Node.symbol? p.store ⟨k, v⟩).map p.names.string? = text.map some ∧
      (Node.symbol? p'.store ⟨k, v'⟩).map p'.names.string? = text.map some ∧
      Alike p p' D' (k.inStruct b x) (k.bodySlots (k.printed b x)).parts
        (k.bodySlots (k.printed b x')).parts ∧
      Alike p p' D b ps ps' := by
  obtain ⟨ts, hts, h, h'⟩ := h
  cases h with
  | @node _ _ _ x text _ us ts hx ht hu h =>
    -- the construct has to be a variable before the second derivation can be taken apart
    generalize hB : Kind.construct b k x = B at h'
    cases h' with
    | @node _ _ _ x' _ _ _ _ hx' ht' hu' h' =>
      obtain ⟨hT, hts⟩ := TextTree.heightAll_cons_le_iff.mp hts
      have hus : TextTree.heightAll us ≤ D' := by
        rw [TextTree.height] at hT
        omega
      rw [← Kind.inStruct_eq hB] at hu'
      exact ⟨x, x', text, hx, hx', hB, ht, ht', ⟨us, hus, hu, hu'⟩, ts, hts, h, h'⟩

/-- Lists that are alike have the same number of items, which are alike. -/
theorem exists_of_list {q : Pool} {seg seg' : Segment q}
    (h : Alike p p' D b (.list l q seg :: ps) (.list l q seg' :: ps')) (hD : D ≤ D' + 1) :
    ∃ xs xs', p.store.items seg = .ok xs ∧ p'.store.items seg' = .ok xs' ∧
      Alike p p' D' b (xs.toList.map (.item l q)) (xs'.toList.map (.item l q)) ∧
      Alike p p' D b ps ps' := by
  obtain ⟨ts, hts, h, h'⟩ := h
  cases h with
  | @list _ _ _ _ xs _ us ts hx hu h =>
    cases h' with
    | @list _ _ _ _ xs' _ _ _ hx' hu' h' =>
      obtain ⟨hT, hts⟩ := TextTree.heightAll_cons_le_iff.mp hts
      have hus : TextTree.heightAll us ≤ D' := by
        rw [TextTree.height] at hT
        omega
      exact ⟨xs, xs', hx, hx', ⟨us, hus, hu, hu'⟩, ts, hts, h, h'⟩

/-- Lists that are alike are empty on both sides or on none. -/
theorem isEmpty_eq {q : Pool} {seg seg' : Segment q}
    (h : Alike p p' D b (.list l q seg :: ps) (.list l q seg' :: ps')) :
    seg.isEmpty = seg'.isEmpty := by
  obtain ⟨xs, xs', hx, hx', hitems, -⟩ := h.exists_of_list (Nat.le_succ D)
  have hsize : xs.size = xs'.size := by simpa using hitems.length_eq
  rw [Bool.eq_iff_iff, Store.isEmpty_iff_of_items hx, Store.isEmpty_iff_of_items hx', hsize]

private theorem exists_of_item {q : Pool} {x x' : q.Item}
    (h : Alike p p' D b (.item l q x :: ps) (.item l q x' :: ps')) :
    (q.slots l x).blank = (q.slots l x').blank ∧
      Alike p p' D b (q.slots l x).parts (q.slots l x').parts ∧ Alike p p' D b ps ps' := by
  obtain ⟨ts, hts, h, h'⟩ := h
  cases h with
  | @item _ _ _ _ _ us ts hu h =>
    generalize (q.slots l x).blank = B at h' ⊢
    cases h' with
    | item hu' h' =>
      obtain ⟨hT, hts⟩ := TextTree.heightAll_cons_le_iff.mp hts
      have hus : TextTree.heightAll us ≤ D := by
        rw [TextTree.height] at hT
        omega
      exact ⟨rfl, ⟨us, hus, hu, hu'⟩, ts, hts, h, h'⟩

end Alike

/-! ### Drafts with the same text -/

/-- Both drafts succeed, with documents that have the same text at any indentation. -/
def Draft.Same (d d' : Draft) : Prop :=
  ∃ a a', d = .ok a ∧ d' = .ok a' ∧ ∀ indent out, a.write indent out = a'.write indent out

namespace Draft.Same

variable {d d' e e' : Draft}

theorem ok {a : Doc} : Draft.Same (.ok a) (.ok a) :=
  ⟨a, a, rfl, rfl, fun _ _ => rfl⟩

private theorem andThen (h : d.Same d') (h' : e.Same e') : Draft.Same (d >> e) (d' >> e') := by
  obtain ⟨a, a', rfl, rfl, ha⟩ := h
  obtain ⟨c, c', rfl, rfl, hc⟩ := h'
  refine ⟨a ++ c, a' ++ c', rfl, rfl, fun indent out => ?_⟩
  change c.write indent (a.write indent out) = c'.write indent (a'.write indent out)
  rw [ha, hc]

private theorem nest (h : d.Same d') : Draft.Same (Draft.nest d) (Draft.nest d') := by
  obtain ⟨a, a', rfl, rfl, ha⟩ := h
  exact ⟨.nest a, .nest a', rfl, rfl, fun indent out => ha (indent + 1) out⟩

private theorem enclosed {k : Bracket} (h : d.Same d') :
    Draft.Same (Draft.enclosed k d) (Draft.enclosed k d') := by
  obtain ⟨a, a', rfl, rfl, ha⟩ := h
  refine ⟨.enclosed k a, .enclosed k a', rfl, rfl, fun indent out => ?_⟩
  rw [Doc.write, Doc.write, ha]

end Draft.Same

/-! ### Drafts that match -/

/-- The drafts `d` and `d'` of two drafters are made from the first parts of two lists: if the lists
are alike, then the drafts have the same text, and the rests `qs` and `qs'` are alike. -/
def Matches (p p' : Drafter) (D : Nat) (b : Bool) (ps ps' : List SlotPart) (d d' : Draft)
    (qs qs' : List SlotPart) : Prop :=
  Alike p p' D b ps ps' → d.Same d' ∧ Alike p p' D b qs qs'

namespace Matches

variable {p p' : Drafter} {D D' : Nat} {b : Bool} {l : String}
  {ps ps' qs qs' rs rs' : List SlotPart} {d d' e e' : Draft}

theorem andThen (h : Matches p p' D b ps ps' d d' qs qs')
    (h' : Matches p p' D b qs qs' e e' rs rs') :
    Matches p p' D b ps ps' (d >> e) (d' >> e') rs rs' := by
  intro ha
  obtain ⟨hd, hqs⟩ := h ha
  obtain ⟨he, hrs⟩ := h' hqs
  exact ⟨hd.andThen he, hrs⟩

/-- A draft that is made from no part. -/
theorem ok {a : Doc} : Matches p p' D b ps ps' (.ok a) (.ok a) ps ps' :=
  fun ha => ⟨.ok, ha⟩

theorem empty : Matches p p' D b ps ps' .empty .empty ps ps' :=
  ok

theorem word {text : String}
    {plain : text.toList.all (fun c => !(c == '\n' || Bracket.isBracket c)) = true} :
    Matches p p' D b ps ps' (Draft.word text plain) (Draft.word text plain) ps ps' :=
  ok

theorem line : Matches p p' D b ps ps' .line .line ps ps' :=
  ok

theorem nest (h : Matches p p' D b ps ps' d d' qs qs') :
    Matches p p' D b ps ps' (Draft.nest d) (Draft.nest d') qs qs' := by
  intro ha
  obtain ⟨hd, hqs⟩ := h ha
  exact ⟨hd.nest, hqs⟩

theorem enclosed {k : Bracket} (h : Matches p p' D b ps ps' d d' qs qs') :
    Matches p p' D b ps ps' (Draft.enclosed k d) (Draft.enclosed k d') qs qs' := by
  intro ha
  obtain ⟨hd, hqs⟩ := h ha
  exact ⟨hd.enclosed, hqs⟩

/-- The same choice is made on both sides. -/
theorem ite {c : Bool} (h : Matches p p' D b ps ps' d d' qs qs')
    (h' : Matches p p' D b ps ps' e e' qs qs') :
    Matches p p' D b ps ps' (if c then d else e) (if c then d' else e') qs qs' := by
  split
  · exact h
  · exact h'

/-- The slots of an optional part that is present on both sides or on none. -/
theorem option {α : Type} {slots : α → Slots α} {f f' : α → Draft} {o o' : Option α}
    (ho : (optionSlot slots o).blank = (optionSlot slots o').blank)
    (h : ∀ a a', (slots a).blank = (slots a').blank →
      Matches p p' D b ((slots a).parts ++ ps) ((slots a').parts ++ ps') (f a) (f' a') ps ps') :
    Matches p p' D b ((optionSlot slots o).parts ++ ps) ((optionSlot slots o').parts ++ ps')
      (Draft.option f o) (Draft.option f' o') ps ps' := by
  rcases Slots.optionSlot_cases ho with ⟨rfl, rfl⟩ | ⟨a, a', rfl, rfl, ha⟩
  · exact .empty
  · have hp : ∀ a, (optionSlot slots (some a)).parts = (slots a).parts := by
      intro a
      rw [optionSlot, Slots.parts_bind, Slots.parts_pure, List.append_nil]
    rw [hp, hp]
    exact h a a' ha

/-! ### Nodes -/

/-- Leaves with the same text. -/
theorem symbol {k : Kind} {v v' : k.Value} {sym sym' : Symbol}
    (hn : Node.symbol? p.store ⟨k, v⟩ = some sym)
    (hn' : Node.symbol? p'.store ⟨k, v'⟩ = some sym') :
    Matches p p' D b (.node l ⟨k, v⟩ :: ps) (.node l ⟨k, v'⟩ :: ps') (p.symbol sym) (p'.symbol sym')
      ps ps' := by
  intro ha
  obtain ⟨-, -, text, -, -, -, ht, ht', -, hps⟩ := ha.exists_of_node (Nat.le_succ D)
  rw [hn] at ht
  rw [hn'] at ht'
  cases text with
  | none => cases ht
  | some text =>
    refine ⟨⟨.name sym text, .name sym' text, ?_, ?_, fun _ _ => rfl⟩, hps⟩
    · simp only [Drafter.symbol, NameTable.resolve, Option.some.inj ht]
      rfl
    · simp only [Drafter.symbol, NameTable.resolve, Option.some.inj ht']
      rfl

/-- Nodes are matched by drafts of their bodies. -/
theorem node {k : Kind} {v v' : k.Value} (hD : D ≤ D' + 1)
    (h : ∀ x x', Node.body? p.store ⟨k, v⟩ = some x → Node.body? p'.store ⟨k, v'⟩ = some x' →
      k.construct b x = k.construct b x' →
      Matches p p' D' (k.inStruct b x) (k.bodySlots (k.printed b x)).parts
        (k.bodySlots (k.printed b x')).parts d d' [] []) :
    Matches p p' D b (.node l ⟨k, v⟩ :: ps) (.node l ⟨k, v'⟩ :: ps') d d' ps ps' := by
  intro ha
  obtain ⟨x, x', -, hx, hx', hc, -, -, hparts, hps⟩ := ha.exists_of_node hD
  exact ⟨(h x x' hx hx' hc hparts).1, hps⟩

/-- Nodes that are values are their own bodies. -/
theorem value {k : Kind} {v v' : k.Value} {x x' : k.Body}
    (hx : Node.body? p.store ⟨k, v⟩ = some x) (hx' : Node.body? p'.store ⟨k, v'⟩ = some x')
    (h : k.construct b x = k.construct b x' →
      Matches p p' D (k.inStruct b x) (k.bodySlots (k.printed b x)).parts
        (k.bodySlots (k.printed b x')).parts d d' [] []) :
    Matches p p' D b (.node l ⟨k, v⟩ :: ps) (.node l ⟨k, v'⟩ :: ps') d d' ps ps' := by
  refine .node (Nat.le_succ D) fun y y' hy hy' hc => ?_
  cases hx.symm.trans hy
  cases hx'.symm.trans hy'
  exact h hc

/-- Stored nodes are read first. -/
theorem get {c : Category} {id id' : Id c} {f f' : c.Payload → Draft} (hD : D ≤ D' + 1)
    (h : ∀ x x', p.store.get? id = some x → p'.store.get? id' = some x' →
      (Kind.stored c).construct b x = (Kind.stored c).construct b x' →
      Matches p p' D' ((Kind.stored c).inStruct b x)
        ((Kind.stored c).bodySlots ((Kind.stored c).printed b x)).parts
        ((Kind.stored c).bodySlots ((Kind.stored c).printed b x')).parts (f x) (f' x') [] []) :
    Matches p p' D b (.node l (.stored id) :: ps) (.node l (.stored id') :: ps')
      (p.store.get id >>= f) (p'.store.get id' >>= f') ps ps' := by
  refine .node hD fun x x' hx hx' hc => ?_
  have hget : p.store.get id >>= f = f x := by
    rw [Store.get, show p.store.get? id = some x from hx]
    rfl
  have hget' : p'.store.get id' >>= f' = f' x' := by
    rw [Store.get, show p'.store.get? id' = some x' from hx']
    rfl
  rw [hget, hget']
  exact h x x' hx hx' hc

/-! ### Lists -/

section Lists

variable {q : Pool} {seg seg' : Segment q} {f f' : q.Item → Draft}

/-- Lists are read first. -/
theorem items {g g' : Array q.Item → Draft} (hD : D ≤ D' + 1)
    (h : ∀ xs xs' : Array q.Item, xs.size = xs'.size →
      Matches p p' D' b (xs.toList.map (.item l q)) (xs'.toList.map (.item l q)) (g xs) (g' xs')
        [] []) :
    Matches p p' D b (.list l q seg :: ps) (.list l q seg' :: ps') (p.store.items seg >>= g)
      (p'.store.items seg' >>= g') ps ps' := by
  intro ha
  obtain ⟨xs, xs', hx, hx', hitems, hps⟩ := ha.exists_of_list hD
  have hsize : xs.size = xs'.size := by simpa using hitems.length_eq
  rw [hx, hx']
  exact ⟨(h xs xs' hsize hitems).1, hps⟩

/-- A list is read only if it has items. -/
theorem ifEmpty (h : Matches p p' D b ps ps' d d' ps ps')
    (h' : Matches p p' D b (.list l q seg :: ps) (.list l q seg' :: ps') e e' ps ps') :
    Matches p p' D b (.list l q seg.normal :: ps) (.list l q seg'.normal :: ps')
      (if seg.isEmpty then d else e) (if seg'.isEmpty then d' else e') ps ps' := by
  intro ha
  have hempty : seg.isEmpty = seg'.isEmpty := by
    have hnormal := ha.isEmpty_eq
    rwa [Segment.isEmpty_normal, Segment.isEmpty_normal] at hnormal
  by_cases he : seg.isEmpty
  · -- the list is not read, and may be no range of its buffer
    rw [if_pos he, if_pos (hempty ▸ he)]
    obtain ⟨-, -, -, -, -, hps⟩ := ha.exists_of_list (Nat.le_succ D)
    exact h hps
  · rw [Segment.normal, Segment.normal, if_neg he, if_neg (hempty ▸ he)] at ha
    rw [if_neg he, if_neg (hempty ▸ he)]
    exact h' ha

/-- Whether the next list has items can be asked before it is read. -/
theorem ifNextEmpty
    (h : Matches p p' D b (.list l q seg :: ps) (.list l q seg' :: ps') d d' qs qs')
    (h' : Matches p p' D b (.list l q seg :: ps) (.list l q seg' :: ps') e e' qs qs') :
    Matches p p' D b (.list l q seg :: ps) (.list l q seg' :: ps') (if seg.isEmpty then d else e)
      (if seg'.isEmpty then d' else e') qs qs' := by
  intro ha
  rw [ha.isEmpty_eq]
  exact Matches.ite h h' ha

theorem item {x x' : q.Item} (h : (q.slots l x).blank = (q.slots l x').blank →
      Matches p p' D b ((q.slots l x).parts ++ []) ((q.slots l x').parts ++ []) d d' [] []) :
    Matches p p' D b (.item l q x :: ps) (.item l q x' :: ps') d d' ps ps' := by
  intro ha
  obtain ⟨hblank, hparts, hps⟩ := ha.exists_of_item
  rw [List.append_nil, List.append_nil] at h
  exact ⟨(h hblank hparts).1, hps⟩

theorem concat {xs xs' : List q.Item} (h : ∀ x x' qs qs',
      Matches p p' D b (.item l q x :: qs) (.item l q x' :: qs') (f x) (f' x') qs qs') :
    Matches p p' D b (xs.map (.item l q)) (xs'.map (.item l q)) (Draft.concat f xs)
      (Draft.concat f' xs') [] [] := by
  intro ha
  induction xs generalizing xs' with
  | nil =>
    have hlen := ha.length_eq
    rw [List.length_map, List.length_map] at hlen
    obtain rfl := List.eq_nil_of_length_eq_zero hlen.symm
    exact ⟨.ok, .nil⟩
  | cons x xs ih =>
    cases xs' with
    | nil => cases ha.length_eq
    | cons x' xs' => exact (h x x' _ _).andThen (fun ha' => ih ha') ha

theorem join {sep sep' : Draft} {xs xs' : List q.Item}
    (hs : ∀ qs qs', Matches p p' D b qs qs' sep sep' qs qs')
    (h : ∀ x x' qs qs',
      Matches p p' D b (.item l q x :: qs) (.item l q x' :: qs') (f x) (f' x') qs qs') :
    Matches p p' D b (xs.map (.item l q)) (xs'.map (.item l q)) (Draft.join sep f xs)
      (Draft.join sep' f' xs') [] [] := by
  intro ha
  cases xs with
  | nil =>
    have hlen := ha.length_eq
    rw [List.length_map, List.length_map] at hlen
    obtain rfl := List.eq_nil_of_length_eq_zero hlen.symm
    exact ⟨.ok, .nil⟩
  | cons x xs =>
    cases xs' with
    | nil => cases ha.length_eq
    | cons x' xs' =>
      exact (h x x' _ _).andThen (.concat fun y y' qs qs' => (hs _ _).andThen (h y y' qs qs')) ha

end Lists

end Matches

end GoTree
