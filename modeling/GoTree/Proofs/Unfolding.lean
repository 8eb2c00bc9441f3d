import GoTree.Proofs.StoreLaws
import Mathlib.Algebra.Order.Group.Multiset
import Mathlib.Tactic.Abel

/-!
# Trees and what a store holds of them

A `Tree` is what a node is when all its handles are followed: the label says what the node is apart
from its slots, the children are the contents of the slots in order. Lists and their items are trees
too.

`Unfolds s ps ts fp` says that in the store `s` the parts `ps` unfold to the trees `ts`, and that
`fp` is their **footprint**: every address that is read on the way, with its multiplicity. A node is
**tree-shaped** when it unfolds to some tree and no address is read twice: then nothing is shared,
no two lists overlap, and every handle resolves. The list of all comment groups of a file is no
slot, so it is not followed.

Unfolding is a function of the store (`Unfolds.unique`), and it depends on the footprint alone
(`Unfolds.frame`).
-/

namespace GoTree

/-- What a tree is at its root. -/
inductive Label where
  /-- A node; the body has its slots emptied. -/
  | node (k : Kind) (blank : k.Body)
  | list (p : Pool)
  /-- An item of a list, with its slots emptied. -/
  | item (p : Pool) (blank : p.Item)

/-- Finite trees. -/
inductive Tree where
  | mk (label : Label) (children : List Tree)

/-- The kind of a tree that is a node. -/
def Tree.kind? : Tree → Option Kind
  | mk (.node k _) _ => some k
  | _ => none

/-! ### Cells -/

/-- The addresses of `n` cells of a buffer, from cell `k` on. -/
def cells (p : Pool) : (k n : Nat) → Multiset Address
  | _, 0 => 0
  | k, n + 1 => {.cell p k} + cells p (k + 1) n

/-- The address of a stored node. -/
def Node.footprint : Node → Multiset Address
  | ⟨.stored c, id⟩ => {.node c id.index}
  | _ => 0

/-- The cells of a buffer from cell `k` on hold the items of a list. -/
def Store.Reads (s : Store) (p : Pool) : Nat → List p.Item → Prop
  | _, [] => True
  | k, x :: xs => (s.buffer p)[k]? = some x ∧ s.Reads p (k + 1) xs

theorem mem_cells {p : Pool} {k n : Nat} {a : Address} :
    a ∈ cells p k n ↔ ∃ i, k ≤ i ∧ i < k + n ∧ a = .cell p i := by
  induction n generalizing k with
  | zero =>
    rw [cells]
    constructor
    · intro h
      exact absurd h (Multiset.notMem_zero a)
    · rintro ⟨i, hk, hi, -⟩
      omega
  | succ n ih =>
    rw [cells, Multiset.mem_add, Multiset.mem_singleton, ih]
    constructor
    · rintro (rfl | ⟨i, hk, hi, rfl⟩)
      · exact ⟨k, by omega, by omega, rfl⟩
      · exact ⟨i, by omega, by omega, rfl⟩
    · rintro ⟨i, hk, hi, rfl⟩
      by_cases h : i = k
      · exact .inl (by rw [h])
      · exact .inr ⟨i, by omega, by omega, rfl⟩

theorem nodup_cells (p : Pool) (k n : Nat) : (cells p k n).Nodup := by
  induction n generalizing k with
  | zero => exact Multiset.nodup_zero
  | succ n ih =>
    rw [cells, Multiset.nodup_add]
    refine ⟨Multiset.nodup_singleton _, ih (k + 1), Multiset.disjoint_left.mpr ?_⟩
    intro a ha hc
    obtain rfl := Multiset.mem_singleton.mp ha
    obtain ⟨i, hk, -, hi⟩ := mem_cells.mp hc
    cases hi
    omega

theorem cells_add (p : Pool) (k m n : Nat) :
    cells p k (m + n) = cells p k m + cells p (k + m) n := by
  induction m generalizing k with
  | zero => simp [cells]
  | succ m ih =>
    rw [show m + 1 + n = m + n + 1 by omega, cells, cells, ih,
      show k + 1 + m = k + (m + 1) by omega, add_assoc]

namespace Store

variable {s s' : Store} {p : Pool} {k : Nat} {xs ys : List p.Item}

theorem Reads.allocated (h : s.Reads p k xs) : ∀ a ∈ cells p k xs.length, s.Allocated a := by
  induction xs generalizing k with
  | nil => simp [cells]
  | cons x xs ih =>
    rw [List.length_cons, cells]
    intro a ha
    rcases Multiset.mem_add.mp ha with ha | ha
    · obtain rfl := Multiset.mem_singleton.mp ha
      exact allocated_of_getElem? h.1
    · exact ih h.2 a ha

/-- Reading depends on the cells alone. -/
theorem Reads.frame (h : s.Reads p k xs) (hs : ∀ a ∈ cells p k xs.length, s.SameAt s' a) :
    s'.Reads p k xs := by
  induction xs generalizing k with
  | nil => trivial
  | cons x xs ih =>
    rw [List.length_cons, cells] at hs
    have hk : s.SameAt s' (.cell p k) :=
      hs _ (Multiset.mem_add.mpr (.inl (Multiset.mem_singleton_self _)))
    exact ⟨Eq.trans hk h.1, ih h.2 fun a ha => hs a (Multiset.mem_add.mpr (.inr ha))⟩

theorem Reads.append (h : s.Reads p k xs) (h' : s.Reads p (k + xs.length) ys) :
    s.Reads p k (xs ++ ys) := by
  induction xs generalizing k with
  | nil => exact h'
  | cons x xs ih =>
    refine ⟨h.1, ih h.2 ?_⟩
    rwa [show k + 1 + xs.length = k + (x :: xs).length by rw [List.length_cons]; omega]

theorem Reads.getElem?_eq (h : s.Reads p k xs) {j : Nat} (hj : j < xs.length) :
    (s.buffer p)[k + j]? = xs[j]? := by
  induction xs generalizing k j with
  | nil => cases hj
  | cons x xs ih =>
    cases j with
    | zero => exact h.1
    | succ j =>
      rw [show k + (j + 1) = k + 1 + j by omega, List.getElem?_cons_succ]
      exact ih h.2 (Nat.lt_of_succ_lt_succ hj)

/-- The cells that are read, as a stretch of the buffer. -/
theorem Reads.extract_eq (h : s.Reads p k xs) :
    (s.buffer p).extract k (k + xs.length) = xs.toArray := by
  -- the last cell is in use, so the stretch lies in the buffer
  have hsize : k + xs.length ≤ (s.buffer p).size ∨ xs.length = 0 := by
    by_cases h0 : xs.length = 0
    · exact .inr h0
    · have hlast : s.Allocated (.cell p (k + (xs.length - 1))) :=
        h.allocated _ (mem_cells.mpr ⟨_, by omega, by omega, rfl⟩)
      simp only [Allocated] at hlast
      omega
  refine Array.ext_getElem? fun j => ?_
  by_cases hj : j < xs.length
  · rw [Array.getElem?_extract_of_lt (by omega), ← Array.getElem?_eq_getElem, h.getElem?_eq hj,
      List.getElem?_toArray]
  · rw [Array.getElem?_eq_none (by simp; omega), List.getElem?_toArray,
      List.getElem?_eq_none (by omega)]

theorem Reads.unique (h : s.Reads p k xs) (h' : s.Reads p k ys) (hl : xs.length = ys.length) :
    xs = ys := by
  induction xs generalizing k ys with
  | nil => exact (List.eq_nil_of_length_eq_zero hl.symm).symm
  | cons x xs ih =>
    cases ys with
    | nil => cases hl
    | cons y ys =>
      obtain rfl : x = y := Option.some.inj (h.1.symm.trans h'.1)
      rw [ih h.2 h'.2 (Nat.succ.inj hl)]

end Store

/-! ### Unfolding -/

/-- In the store `s`, parts unfold to trees with a footprint. -/
inductive Unfolds (s : Store) : List SlotPart → List Tree → Multiset Address → Prop where
  | nil : Unfolds s [] [] 0
  | node {l : String} {n : Node} {x : n.kind.Body} {ps : List SlotPart} {us ts : List Tree}
      {fp gp : Multiset Address} (hx : n.body? s = some x)
      (hu : Unfolds s (n.kind.bodySlots x).parts us fp) (ht : Unfolds s ps ts gp) :
      Unfolds s (.node l n :: ps) (.mk (.node n.kind (n.kind.bodySlots x).blank) us :: ts)
        (n.footprint + fp + gp)
  | list {l : String} {p : Pool} {seg : Segment p} {xs : List p.Item} {ps : List SlotPart}
      {us ts : List Tree} {fp gp : Multiset Address} (hs : seg.stop ≤ (s.buffer p).size)
      (hl : xs.length = seg.length) (hx : s.Reads p seg.start.toNat xs)
      (hu : Unfolds s (xs.map (.item l p)) us fp) (ht : Unfolds s ps ts gp) :
      Unfolds s (.list l p seg :: ps) (.mk (.list p) us :: ts)
        (cells p seg.start.toNat seg.length + fp + gp)
  | item {l : String} {p : Pool} {x : p.Item} {ps : List SlotPart} {us ts : List Tree}
      {fp gp : Multiset Address} (hu : Unfolds s (p.slots l x).parts us fp)
      (ht : Unfolds s ps ts gp) :
      Unfolds s (.item l p x :: ps) (.mk (.item p (p.slots l x).blank) us :: ts) (fp + gp)

/-- A node unfolds to a tree in which no address is met twice. -/
def Store.TreeShaped (s : Store) (n : Node) (T : Tree) (fp : Multiset Address) : Prop :=
  Unfolds s [.node "" n] [T] fp ∧ fp.Nodup

theorem Node.allocated_footprint {s : Store} {n : Node} {x : n.kind.Body}
    (h : n.body? s = some x) : ∀ a ∈ n.footprint, s.Allocated a := by
  obtain ⟨k, v⟩ := n
  cases k with
  | stored c =>
    intro a ha
    obtain rfl := Multiset.mem_singleton.mp ha
    exact Store.allocated_of_get? h
  | _ =>
    intro a ha
    exact absurd ha (Multiset.notMem_zero a)

/-- The body of a node depends on its own address alone. -/
theorem Node.body?_frame {s s' : Store} {n : Node} (h : ∀ a ∈ n.footprint, s.SameAt s' a) :
    n.body? s' = n.body? s := by
  obtain ⟨k, v⟩ := n
  cases k with
  | stored c => exact Store.get?_eq_of_sameAt (h _ (Multiset.mem_singleton_self _))
  | _ => rfl

namespace Unfolds

variable {s s' : Store} {q : SlotPart} {ps qs : List SlotPart} {T : Tree} {ts us : List Tree}
  {fp gp : Multiset Address}

/-- All that is read is in use. -/
theorem allocated (h : Unfolds s ps ts fp) : ∀ a ∈ fp, s.Allocated a := by
  induction h with
  | nil =>
    intro a ha
    exact absurd ha (Multiset.notMem_zero a)
  | node hx hu ht ihu iht =>
    intro a ha
    simp only [Multiset.mem_add] at ha
    rcases ha with (ha | ha) | ha
    · exact Node.allocated_footprint hx a ha
    · exact ihu a ha
    · exact iht a ha
  | list hs hl hx hu ht ihu iht =>
    intro a ha
    simp only [Multiset.mem_add] at ha
    rcases ha with (ha | ha) | ha
    · rw [← hl] at ha
      exact hx.allocated a ha
    · exact ihu a ha
    · exact iht a ha
  | item hu ht ihu iht =>
    intro a ha
    rcases Multiset.mem_add.mp ha with ha | ha
    · exact ihu a ha
    · exact iht a ha

/-- Unfolding depends on the footprint alone. -/
theorem frame (h : Unfolds s ps ts fp) (hg : s.Grows s') (hs : ∀ a ∈ fp, s.SameAt s' a) :
    Unfolds s' ps ts fp := by
  induction h with
  | nil => exact .nil
  | node hx hu ht ihu iht =>
    simp only [Multiset.mem_add] at hs
    have hb := Node.body?_frame fun a ha => hs a (.inl (.inl ha))
    exact .node (hb.trans hx) (ihu fun a ha => hs a (.inl (.inr ha)))
      (iht fun a ha => hs a (.inr ha))
  | @list l p seg xs ps us ts fp gp hb hl hx hu ht ihu iht =>
    simp only [Multiset.mem_add] at hs
    refine .list (Nat.le_trans hb (hg.buffer p)) hl (hx.frame fun a ha => ?_)
      (ihu fun a ha => hs a (.inl (.inr ha))) (iht fun a ha => hs a (.inr ha))
    rw [hl] at ha
    exact hs a (.inl (.inl ha))
  | item hu ht ihu iht =>
    simp only [Multiset.mem_add] at hs
    exact .item (ihu fun a ha => hs a (.inl ha)) (iht fun a ha => hs a (.inr ha))

/-- Parts have one unfolding. -/
theorem unique (h : Unfolds s ps ts fp) (h' : Unfolds s ps us gp) : ts = us ∧ fp = gp := by
  induction h generalizing us gp with
  | nil =>
    cases h'
    exact ⟨rfl, rfl⟩
  | node hx hu ht ihu iht =>
    cases h' with
    | node hx' hu' ht' =>
      obtain rfl := Option.some.inj (hx.symm.trans hx')
      obtain ⟨rfl, rfl⟩ := ihu hu'
      obtain ⟨rfl, rfl⟩ := iht ht'
      exact ⟨rfl, rfl⟩
  | list hs hl hx hu ht ihu iht =>
    cases h' with
    | list hs' hl' hx' hu' ht' =>
      obtain rfl := hx.unique hx' (hl.trans hl'.symm)
      obtain ⟨rfl, rfl⟩ := ihu hu'
      obtain ⟨rfl, rfl⟩ := iht ht'
      exact ⟨rfl, rfl⟩
  | item hu ht ihu iht =>
    cases h' with
    | item hu' ht' =>
      obtain ⟨rfl, rfl⟩ := ihu hu'
      obtain ⟨rfl, rfl⟩ := iht ht'
      exact ⟨rfl, rfl⟩

theorem append (h : Unfolds s ps ts fp) (h' : Unfolds s qs us gp) :
    Unfolds s (ps ++ qs) (ts ++ us) (fp + gp) := by
  induction h with
  | nil => simpa using h'
  | node hx hu ht ihu iht => simpa [add_assoc] using node hx hu iht
  | list hs hl hx hu ht ihu iht => simpa [add_assoc] using list hs hl hx hu iht
  | item hu ht ihu iht => simpa [add_assoc] using item hu iht

/-- The first part unfolds by itself. -/
theorem exists_of_cons (h : Unfolds s (q :: ps) ts fp) :
    ∃ T us fp₁ fp₂, ts = T :: us ∧ fp = fp₁ + fp₂ ∧ Unfolds s [q] [T] fp₁ ∧
      Unfolds s ps us fp₂ := by
  cases h with
  | node hx hu ht => exact ⟨_, _, _, _, rfl, rfl, by simpa using node hx hu .nil, ht⟩
  | list hs hl hx hu ht => exact ⟨_, _, _, _, rfl, rfl, by simpa using list hs hl hx hu .nil, ht⟩
  | item hu ht => exact ⟨_, _, _, _, rfl, rfl, by simpa using item hu .nil, ht⟩

theorem eq_of_nil (h : Unfolds s [] ts fp) : ts = [] ∧ fp = 0 := by
  cases h
  exact ⟨rfl, rfl⟩

theorem exists_of_node {l : String} {n : Node} (h : Unfolds s [.node l n] [T] fp) :
    ∃ x us gp, n.body? s = some x ∧ Unfolds s (n.kind.bodySlots x).parts us gp ∧
      T = .mk (.node n.kind (n.kind.bodySlots x).blank) us ∧ fp = n.footprint + gp := by
  cases h with
  | node hx hu ht =>
    cases ht
    exact ⟨_, _, _, hx, hu, rfl, add_zero _⟩

theorem exists_of_list {l : String} {p : Pool} {seg : Segment p}
    (h : Unfolds s [.list l p seg] [T] fp) :
    ∃ xs us gp, seg.stop ≤ (s.buffer p).size ∧ xs.length = seg.length ∧
      s.Reads p seg.start.toNat xs ∧ Unfolds s (xs.map (.item l p)) us gp ∧
      T = .mk (.list p) us ∧ fp = cells p seg.start.toNat seg.length + gp := by
  cases h with
  | list hs hl hx hu ht =>
    cases ht
    exact ⟨_, _, _, hs, hl, hx, hu, rfl, add_zero _⟩

theorem exists_of_item {l : String} {p : Pool} {x : p.Item} (h : Unfolds s [.item l p x] [T] fp) :
    ∃ us, Unfolds s (p.slots l x).parts us fp ∧ T = .mk (.item p (p.slots l x).blank) us := by
  cases h with
  | item hu ht =>
    cases ht
    exact ⟨_, by simpa using hu, rfl⟩

/-- The label of a slot is not part of the tree in it. -/
theorem relabel {l : String} {n : Node} (h : Unfolds s [.node l n] [T] fp) (l' : String) :
    Unfolds s [.node l' n] [T] fp := by
  obtain ⟨x, us, gp, hx, hu, rfl, rfl⟩ := h.exists_of_node
  simpa using node hx hu .nil

end Unfolds

end GoTree
