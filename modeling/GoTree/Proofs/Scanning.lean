import GoTree.Print.Drafter
import GoTree.Proofs.Parts
import GoTree.Transform.Rules

/-!
# What printing reads

Printing is written construct by construct. What it reads can be said once for all constructs, in
the same terms as what a traversal visits: the parts of a node, in order. `Scans s names D b ps r`
says that printing the parts `ps` comes to `r`, which is either the symbols of all names that are
printed or the first fault.

Printing is not a traversal in disguise. It leaves out two parts of a node, the comment above a
field that is no **field of a struct** and the value of a range loop without a key (`Kind.shown`);
`b` tells whether the fields among `ps` are fields of a struct. It counts other **levels**: only
expressions, types, statements and literal values take one from the depth `D`. And it passes over
some lists that are empty without looking at their handles. Which ones is left open by the rules.

A draft that **renders** the first parts of a list leaves the rest of the list to the draft after it
(`Renders`); this is how drafts are put together.
-/

namespace GoTree

open Slots (childSlot nameSlot literalSlot fieldListSlot blockSlot listSlot optionSlot)

/-! ### Parts in sequence -/

section Parts

variable {α β : Type}

theorem Slots.parts_bind (x : Slots α) (f : α → Slots β) :
    (x >>= f).parts = x.parts ++ (f x.rebuild).parts := by
  induction x with
  | done a => rfl
  | node l k v next ih => exact congrArg (SlotPart.node l ⟨k, v⟩ :: ·) (ih v)
  | list l p seg next ih => exact congrArg (SlotPart.list l p seg :: ·) (ih seg)

theorem Slots.parts_pure (a : α) : (pure a : Slots α).parts = [] :=
  rfl

end Parts

/-! ### What of a node is printed -/

/-- A field as it is printed: the comment above it is printed in a struct only. -/
def Field.shown : (inStruct : Bool) → Field → Field
  | true, x => x
  | false, x => { x with doc := none }

/-- The header of a loop as it is printed: the value of a range is printed after a key only. -/
def ForKind.shown : ForKind → ForKind
  | .range none _ define x => .range none none define x
  | kind => kind

/-- A statement as it is printed. -/
def Stmt.shown : Stmt → Stmt
  | .forStmt kind body => .forStmt kind.shown body
  | x => x

/-- A body as it is printed. -/
def Kind.shown (inStruct : Bool) : (k : Kind) → k.Body → k.Body
  | .stored .field, x => Field.shown inStruct x
  | .stored .stmt, x => Stmt.shown x
  | _, x => x

def TypeExpr.isStruct : TypeExpr → Bool
  | .struct _ => true
  | _ => false

/-- Whether the fields in a body are fields of a struct: those of a struct type are, and a field
list is what the node around it says. -/
def Kind.inStruct (inStruct : Bool) : (k : Kind) → k.Body → Bool
  | .stored .type, x => TypeExpr.isStruct x
  | .fieldList, _ => inStruct
  | _, _ => false

/-- The number of levels of depth that printing a part takes. -/
def SlotPart.levels : SlotPart → Nat
  | .node _ ⟨.stored .expr, _⟩ => 1
  | .node _ ⟨.stored .type, _⟩ => 1
  | .node _ ⟨.stored .stmt, _⟩ => 1
  | .list _ .keyedElements _ => 1
  | _ => 0

theorem SlotPart.levels_le_one (q : SlotPart) : q.levels ≤ 1 := by
  unfold levels
  split <;> decide

/-- The parts of a field are those of its comment above and those of the field without it. -/
theorem Field.parts_slots (x : Field) :
    x.slots.parts =
      (optionSlot (childSlot "Field.doc") x.doc).parts ++ (Field.shown false x).slots.parts := by
  simp only [Field.slots, Field.shown, Slots.parts_bind]
  rfl

private theorem ForKind.parts_shown_sublist (kind : ForKind) :
    kind.shown.slots.parts.Sublist kind.slots.parts := by
  unfold ForKind.shown
  split
  · next value define x =>
    cases value with
    | none => exact .refl _
    | some value => exact .cons _ (.refl _)
  · exact .refl _

/-- What is printed is among the parts of a body, in order. -/
theorem Kind.parts_shown_sublist (b : Bool) (k : Kind) (x : k.Body) :
    (k.bodySlots (k.shown b x)).parts.Sublist (k.bodySlots x).parts := by
  unfold Kind.shown
  split
  · next x =>
    cases b with
    | true => exact .refl _
    | false =>
      change List.Sublist _ x.slots.parts
      rw [Field.parts_slots]
      exact List.sublist_append_right _ _
  · next x =>
    cases x with
    | forStmt kind body =>
      change List.Sublist (Stmt.forStmt kind.shown body).slots.parts
        (Stmt.forStmt kind body).slots.parts
      simp only [Stmt.slots, Slots.parts_bind]
      exact kind.parts_shown_sublist.append (.refl _)
    | _ => exact .refl _
  · exact .refl _

/-! ### The rules -/

/-- The symbols of what has been printed, or the first fault. -/
abbrev Scan : Type :=
  Except Fault (List Symbol)

/-- One scan after another. -/
def Scan.seq : Scan → Scan → Scan
  | .ok u, r => r.map (u ++ ·)
  | .error e, _ => .error e

@[simp]
theorem Scan.seq_nil (r : Scan) : r.seq (.ok []) = r := by
  cases r with
  | error e => rfl
  | ok u => exact congrArg Except.ok (List.append_nil u)

@[simp]
theorem Scan.nil_seq (r : Scan) : Scan.seq (.ok []) r = r := by
  cases r <;> rfl

private theorem Scan.seq_assoc (r r' r'' : Scan) : (r.seq r').seq r'' = r.seq (r'.seq r'') := by
  cases r with
  | error e => rfl
  | ok u =>
    cases r' with
    | error e => rfl
    | ok v =>
      cases r'' with
      | error e => rfl
      | ok w => exact congrArg Except.ok (List.append_assoc u v w)

/-- A symbol stands for a string. -/
def NameTable.Knows (names : NameTable) (sym : Symbol) : Prop :=
  ∃ text, names.string? sym = some text

/-- Printing the parts of a list, through at most `D` levels, comes to a scan. -/
inductive Scans (s : Store) (names : NameTable) : Nat → Bool → List SlotPart → Scan → Prop where
  | nil {D : Nat} {b : Bool} : Scans s names D b [] (.ok [])
  | cons {D : Nat} {b : Bool} {q q' : SlotPart} {ps : List SlotPart} {r r' : Scan}
      (h : Scans s names D b [q] r) (ht : Scans s names D b (q' :: ps) r') :
      Scans s names D b (q :: q' :: ps) (r.seq r')
  /-- A leaf prints its symbol, any other node what is shown of its body. -/
  | node {D D' : Nat} {b : Bool} {l : String} {n : Node} {x : n.kind.Body} {r : Scan}
      (hD : D' + (SlotPart.node l n).levels = D) (hx : n.body? s = some x)
      (hn : ∀ sym, n.symbol? s = some sym → names.Knows sym)
      (h : Scans s names D' (n.kind.inStruct b x) (n.kind.bodySlots (n.kind.shown b x)).parts r) :
      Scans s names D b [.node l n] (Scan.seq (.ok (n.symbol? s).toList) r)
  | unknown {D : Nat} {b : Bool} {l : String} {n : Node} {sym : Symbol}
      (hn : n.symbol? s = some sym) (hs : ¬names.Knows sym) :
      Scans s names D b [.node l n] (.error .invalidSymbol)
  | dangling {D : Nat} {b : Bool} {l : String} {n : Node} {e : Fault} (hx : n.body? s = none) :
      Scans s names D b [.node l n] (.error e)
  | list {D D' : Nat} {b : Bool} {l : String} {p : Pool} {seg : Segment p} {xs : Array p.Item}
      {r : Scan} (hD : D' + (SlotPart.list l p seg).levels = D) (hx : s.items seg = .ok xs)
      (h : Scans s names D' b (xs.toList.map (.item l p)) r) :
      Scans s names D b [.list l p seg] r
  | range {D : Nat} {b : Bool} {l : String} {p : Pool} {seg : Segment p} {e : Fault}
      (hx : s.items seg = .error e) : Scans s names D b [.list l p seg] (.error e)
  /-- An empty list is passed over. -/
  | skip {D : Nat} {b : Bool} {l : String} {p : Pool} {seg : Segment p} (he : seg.isEmpty) :
      Scans s names D b [.list l p seg] (.ok [])
  | item {D : Nat} {b : Bool} {l : String} {p : Pool} {x : p.Item} {r : Scan}
      (h : Scans s names D b (p.slots l x).parts r) : Scans s names D b [.item l p x] r
  /-- No level is left. -/
  | deep {D : Nat} {b : Bool} {q : SlotPart} (hD : D < q.levels) :
      Scans s names D b [q] (.error .tooDeep)

namespace Scans

variable {s : Store} {names : NameTable} {D : Nat} {b : Bool} {q : SlotPart}
  {ps qs : List SlotPart} {r r' : Scan}

theorem first (h : Scans s names D b [q] r) (ht : Scans s names D b ps r') :
    Scans s names D b (q :: ps) (r.seq r') := by
  cases ps with
  | nil =>
    cases ht
    rwa [Scan.seq_nil]
  | cons q' ps => exact .cons h ht

theorem exists_of_cons (h : Scans s names D b (q :: ps) r) :
    ∃ r₁ r₂, Scans s names D b [q] r₁ ∧ Scans s names D b ps r₂ ∧ r = r₁.seq r₂ := by
  cases ps with
  | nil => exact ⟨r, .ok [], h, .nil, r.seq_nil.symm⟩
  | cons q' ps =>
    cases h with
    | cons h ht => exact ⟨_, _, h, ht, rfl⟩

theorem append (h : Scans s names D b ps r) (h' : Scans s names D b qs r') :
    Scans s names D b (ps ++ qs) (r.seq r') := by
  induction ps generalizing r with
  | nil =>
    cases h
    rwa [Scan.nil_seq]
  | cons q ps ih =>
    obtain ⟨r₁, r₂, h₁, h₂, rfl⟩ := h.exists_of_cons
    rw [Scan.seq_assoc]
    exact h₁.first (ih h₂)

end Scans

/-! ### Drafts -/

/-- The scan that a draft stands for. -/
def Draft.scan (d : Draft) : Scan :=
  d.map Doc.symbols

private theorem Draft.scan_andThen (d e : Draft) : (d >> e).scan = d.scan.seq e.scan := by
  cases d with
  | error f => rfl
  | ok a => cases e <;> rfl

private theorem Draft.scan_nest (d : Draft) : (Draft.nest d).scan = d.scan := by
  cases d <;> rfl

private theorem Draft.scan_enclosed (k : Bracket) (d : Draft) :
    (Draft.enclosed k d).scan = d.scan := by
  cases d <;> rfl

/-- A draft is made from the first parts of a list and leaves the parts `qs`. -/
def Renders (s : Store) (names : NameTable) (D : Nat) (b : Bool) (ps : List SlotPart) (d : Draft)
    (qs : List SlotPart) : Prop :=
  ∃ us, ps = us ++ qs ∧ Scans s names D b us d.scan

namespace Renders

variable {s : Store} {names : NameTable} {D : Nat} {b : Bool} {ps qs rs : List SlotPart}
  {d e : Draft}

theorem scans (h : Renders s names D b ps d []) : Scans s names D b ps d.scan := by
  obtain ⟨us, rfl, h⟩ := h
  rwa [List.append_nil]

theorem of_scans {q : SlotPart} (h : Scans s names D b [q] d.scan) :
    Renders s names D b (q :: ps) d ps :=
  ⟨[q], rfl, h⟩

theorem andThen (h : Renders s names D b ps d qs) (h' : Renders s names D b qs e rs) :
    Renders s names D b ps (d >> e) rs := by
  obtain ⟨us, rfl, h⟩ := h
  obtain ⟨vs, rfl, h'⟩ := h'
  refine ⟨us ++ vs, by rw [List.append_assoc], ?_⟩
  rw [Draft.scan_andThen]
  exact h.append h'

theorem empty : Renders s names D b ps .empty ps :=
  ⟨[], rfl, .nil⟩

theorem word {text : String}
    {plain : text.toList.all (fun c => !(c == '\n' || Bracket.isBracket c)) = true} :
    Renders s names D b ps (Draft.word text plain) ps :=
  ⟨[], rfl, .nil⟩

theorem line : Renders s names D b ps .line ps :=
  ⟨[], rfl, .nil⟩

theorem nest (h : Renders s names D b ps d qs) : Renders s names D b ps (Draft.nest d) qs := by
  obtain ⟨us, rfl, h⟩ := h
  exact ⟨us, rfl, by rwa [Draft.scan_nest]⟩

theorem enclosed {k : Bracket} (h : Renders s names D b ps d qs) :
    Renders s names D b ps (Draft.enclosed k d) qs := by
  obtain ⟨us, rfl, h⟩ := h
  exact ⟨us, rfl, by rwa [Draft.scan_enclosed]⟩

theorem ite {c : Prop} [Decidable c] (h : Renders s names D b ps d qs)
    (h' : Renders s names D b ps e qs) : Renders s names D b ps (if c then d else e) qs := by
  split
  · exact h
  · exact h'

/-- The slots of an optional part are rendered by an optional draft. -/
theorem option {α : Type} {slots : α → Slots α} {f : α → Draft} {o : Option α}
    (h : ∀ a, Renders s names D b ((slots a).parts ++ ps) (f a) ps) :
    Renders s names D b ((optionSlot slots o).parts ++ ps) (Draft.option f o) ps := by
  cases o with
  | none => exact .empty
  | some a =>
    have hp : (optionSlot slots (some a)).parts = (slots a).parts := by
      rw [optionSlot, Slots.parts_bind, Slots.parts_pure, List.append_nil]
    rw [hp]
    exact h a

/-! ### Lists -/

section Lists

variable {l : String} {p : Pool} {seg : Segment p} {f : p.Item → Draft}

/-- A list is read when its turn comes, and its items are rendered one level further down. -/
theorem items {D' : Nat} {g : Array p.Item → Draft}
    (hD : D' + (SlotPart.list l p seg).levels = D)
    (h : ∀ xs : Array p.Item, Renders s names D' b (xs.toList.map (.item l p)) (g xs) []) :
    Renders s names D b (.list l p seg :: ps) (s.items seg >>= g) ps := by
  refine .of_scans ?_
  rcases hx : s.items seg with e | xs
  · exact .range hx
  · exact .list hD hx (h xs).scans

/-- An empty list may be passed over. -/
theorem ifEmpty (h : Renders s names D b ps d ps)
    (h' : Renders s names D b (.list l p seg :: ps) e ps) :
    Renders s names D b (.list l p seg :: ps) (if seg.isEmpty then d else e) ps := by
  split
  · next he =>
    obtain ⟨us, hus, h⟩ := h
    refine ⟨.list l p seg :: us, congrArg _ hus, ?_⟩
    have hs : Scans s names D b [.list l p seg] (.ok []) := .skip he
    have hc := hs.first h
    rwa [Scan.nil_seq] at hc
  · exact h'

theorem item {x : p.Item} (h : Renders s names D b ((p.slots l x).parts ++ []) d []) :
    Renders s names D b (.item l p x :: ps) d ps := by
  rw [List.append_nil] at h
  exact .of_scans (.item h.scans)

theorem concat {xs : List p.Item} (h : ∀ x qs, Renders s names D b (.item l p x :: qs) (f x) qs) :
    Renders s names D b (xs.map (.item l p)) (Draft.concat f xs) [] := by
  induction xs with
  | nil => exact .empty
  | cons x xs ih => exact (h x _).andThen ih

theorem join {sep : Draft} {xs : List p.Item} (hs : ∀ qs, Renders s names D b qs sep qs)
    (h : ∀ x qs, Renders s names D b (.item l p x :: qs) (f x) qs) :
    Renders s names D b (xs.map (.item l p)) (Draft.join sep f xs) [] := by
  cases xs with
  | nil => exact .empty
  | cons x xs => exact (h x _).andThen (.concat fun y qs => (hs _).andThen (h y qs))

end Lists

end Renders

end GoTree
