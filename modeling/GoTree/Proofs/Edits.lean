import GoTree.Proofs.RunFrame
import GoTree.Proofs.SingleVisits

/-!
# Runs as edits of a store

An **edit** at the addresses `fp` is a function on stores that leaves all sizes and spans, changes
nothing outside of `fp`, and puts at each address something that depends on nothing but what stood
there. Edits compose, and edits at disjoint addresses commute.

This module shows that a run on a tree-shaped root is an edit at the footprint of the tree, if the
transformer **reads below**: it never writes, its answer for a node is read off the entries that the
node unfolds to, it keeps the kind of each node, and where it goes on, its answer is the node that
it was given or a node without slots. The edit and the answer for the root are the same for all
stores that agree with the given one on the footprint (`Transformer.ReadsBelow.exists_edit`): this
one statement says that the run returns, that it reads nothing but the tree and that it writes
nothing but the tree, although what it writes may point anywhere.

The proof follows the recursion of the traversal, one depth after another. What a task does is first
found in the store at the start; since every task edits its own part of the footprint only, the
tasks after it find what they found there.
-/

namespace GoTree

variable {σ : Type}

/-! ### Edits -/

/-- Two stores have the same sizes and the same spans. -/
structure Store.SameSizes (s s' : Store) : Prop where
  table : ∀ c, (s'.table c).size = (s.table c).size
  spans : ∀ c, (s'.table c).spans = (s.table c).spans
  buffer : ∀ p, (s'.buffer p).size = (s.buffer p).size

namespace Store.SameSizes

variable {s s₁ s' : Store}

theorem refl (s : Store) : s.SameSizes s :=
  ⟨fun _ => rfl, fun _ => rfl, fun _ => rfl⟩

theorem symm (h : s.SameSizes s') : s'.SameSizes s :=
  ⟨fun c => (h.table c).symm, fun c => (h.spans c).symm, fun p => (h.buffer p).symm⟩

theorem trans (h : s.SameSizes s₁) (h' : s₁.SameSizes s') : s.SameSizes s' :=
  ⟨fun c => (h'.table c).trans (h.table c), fun c => (h'.spans c).trans (h.spans c),
    fun p => (h'.buffer p).trans (h.buffer p)⟩

theorem grows (h : s.SameSizes s') : s.Grows s' :=
  ⟨fun c => Nat.le_of_eq (h.table c).symm, fun p => Nat.le_of_eq (h.buffer p).symm⟩

/-- Stores of the same sizes that hold the same everywhere are equal. -/
theorem eq_of_sameAt (h : s.SameSizes s') (ha : ∀ a, s.SameAt s' a) : s' = s := by
  refine ext_read (fun c => ?_) (fun p => Array.ext_getElem? fun i => ha (.cell p i))
  have hnodes : (s'.table c).nodes = (s.table c).nodes :=
    Array.ext_getElem? fun i => ha (.node c i)
  exact Table.ext hnodes (h.spans c)

end Store.SameSizes

theorem Store.SameAt.symm {s s' : Store} {a : Address} (h : s.SameAt s' a) : s'.SameAt s a := by
  cases a with
  | node c i => exact Eq.symm h
  | cell p i => exact Eq.symm h

/-- Two stores have the same span at an entry of a table. -/
def Store.SameSpanAt (s s' : Store) : Address → Prop
  | .node c i => (s'.table c).spans[i]? = (s.table c).spans[i]?
  | .cell _ _ => True

private theorem Store.SameSizes.sameSpanAt {s s' : Store} (h : s.SameSizes s') (a : Address) :
    s.SameSpanAt s' a := by
  cases a with
  | node c i => rw [SameSpanAt, h.spans c]
  | cell p i => trivial

/-- Overwriting an item leaves the sizes of all buffers. -/
theorem Store.size_buffer_putItem {p : Pool} (s : Store) (seg : Segment p) (i : Nat) (x : p.Item)
    (q : Pool) : ((s.putItem seg i x).buffer q).size = (s.buffer q).size := by
  by_cases hq : q = p
  · subst hq
    simp [putItem]
  · rw [putItem, buffer_modifyBuffer_of_ne _ hq]

/-- A change of stores that touches the addresses `fp` only, each one by itself. -/
structure IsEdit (fp : Multiset Address) (e : Store → Store) : Prop where
  sizes : ∀ s : Store, s.SameSizes (e s)
  outside : ∀ {s : Store} {a : Address}, a ∉ fp → s.SameAt (e s) a
  inside : ∀ {s s' : Store} {a : Address}, s.SameSizes s' → s.SameAt s' a →
    (e s).SameAt (e s') a

namespace IsEdit

variable {fp gp : Multiset Address} {e f : Store → Store}

theorem id (fp : Multiset Address) : IsEdit fp id :=
  ⟨.refl, fun _ => .refl _ _, fun _ h => h⟩

theorem comp (hf : IsEdit gp f) (he : IsEdit fp e) : IsEdit (fp + gp) (f ∘ e) := by
  refine ⟨fun s => (he.sizes s).trans (hf.sizes (e s)), fun {s a} ha => ?_, fun {s s' a} hs h => ?_⟩
  · rw [Multiset.mem_add, not_or] at ha
    exact (he.outside ha.1).trans (hf.outside ha.2)
  · have hs' := ((he.sizes s).symm.trans hs).trans (he.sizes s')
    exact hf.inside hs' (he.inside hs h)

/-- Edits at disjoint addresses commute. -/
theorem comm (he : IsEdit fp e) (hf : IsEdit gp f) (hd : Disjoint fp gp) (s : Store) :
    f (e s) = e (f s) := by
  have hs : (e (f s)).SameSizes (f (e s)) :=
    ((hf.sizes s).trans (he.sizes (f s))).symm.trans ((he.sizes s).trans (hf.sizes (e s)))
  refine hs.eq_of_sameAt fun a => ?_
  by_cases ha : a ∈ fp
  · have hg : a ∉ gp := Multiset.disjoint_left.mp hd ha
    exact (he.inside (hf.sizes s) (hf.outside hg)).symm.trans (hf.outside hg)
  · exact (he.outside ha).symm.trans (hf.inside (he.sizes s) (he.outside ha))

theorem put {c : Category} (id : Id c) (x : c.Payload) :
    IsEdit {.node c id.index} fun s => s.put id x := by
  refine ⟨fun s => ⟨s.size_table_put id x, s.spans_table_put id x, fun p => rfl⟩,
    fun ha => Store.sameAt_put fun heq => ha (Multiset.mem_singleton.mpr heq),
    fun {s s' a} hs h => ?_⟩
  by_cases ha : a = .node c id.index
  · -- both stores hold `x` here if the entry is in use, and nothing otherwise
    subst ha
    have hsize : (s'.table c).nodes.size = (s.table c).nodes.size := hs.table c
    simp [Store.SameAt, Store.put, Table.put, Array.getElem?_setIfInBounds_self, hsize]
  · exact ((Store.sameAt_put ha).symm.trans h).trans (Store.sameAt_put ha)

theorem putItem {p : Pool} (seg : Segment p) (i : Nat) (x : p.Item) :
    IsEdit {.cell p (seg.start.toNat + i)} fun s => s.putItem seg i x := by
  refine ⟨fun s => ⟨fun c => rfl, fun c => rfl, s.size_buffer_putItem seg i x⟩,
    fun ha => Store.sameAt_putItem fun heq => ha (Multiset.mem_singleton.mpr heq),
    fun {s s' a} hs h => ?_⟩
  by_cases ha : a = .cell p (seg.start.toNat + i)
  · subst ha
    simp [Store.SameAt, Store.putItem, Array.getElem?_setIfInBounds_self, hs.buffer p]
  · exact ((Store.sameAt_putItem ha).symm.trans h).trans (Store.sameAt_putItem ha)

end IsEdit

/-! ### Stores that agree on a footprint -/

/-- A store has the sizes and spans of `s`, and holds the same at the addresses `fp`. -/
structure Store.AlikeOn (s : Store) (fp : Multiset Address) (s' : Store) : Prop where
  sizes : s.SameSizes s'
  same : ∀ a ∈ fp, s.SameAt s' a

namespace Store.AlikeOn

variable {s s' : Store} {fp gp : Multiset Address} {e : Store → Store}

theorem refl (s : Store) (fp : Multiset Address) : s.AlikeOn fp s :=
  ⟨.refl s, fun a _ => .refl s a⟩

theorem mono (h : s.AlikeOn gp s') (hsub : fp ⊆ gp) : s.AlikeOn fp s' :=
  ⟨h.sizes, fun a ha => h.same a (hsub ha)⟩

/-- An edit elsewhere is not seen. -/
theorem edit (h : s.AlikeOn gp s') (he : IsEdit fp e) (hd : Disjoint fp gp) :
    s.AlikeOn gp (e s') := by
  refine ⟨h.sizes.trans (he.sizes s'), fun a ha => (h.same a ha).trans (he.outside ?_)⟩
  exact Multiset.disjoint_right.mp hd ha

private theorem unfolds {ps : List SlotPart} {ts : List Tree} (h : s.AlikeOn fp s')
    (hu : Unfolds s ps ts fp) : Unfolds s' ps ts fp :=
  hu.frame h.sizes.grows h.same

end Store.AlikeOn

/-- A footprint that can be walked over: no address twice, and the end of every list that ends
with one of its cells fits in a word. -/
structure Walkable (fp : Multiset Address) : Prop where
  nodup : fp.Nodup
  word : ∀ p i, Address.cell p i ∈ fp → i + 1 < wordSize

namespace Walkable

variable {fp gp : Multiset Address}

theorem left (h : Walkable (fp + gp)) : Walkable fp :=
  ⟨(Multiset.nodup_add.mp h.nodup).1, fun p i hi => h.word p i (Multiset.mem_add.mpr (.inl hi))⟩

theorem right (h : Walkable (fp + gp)) : Walkable gp :=
  ⟨(Multiset.nodup_add.mp h.nodup).2.1,
    fun p i hi => h.word p i (Multiset.mem_add.mpr (.inr hi))⟩

theorem disjoint (h : Walkable (fp + gp)) : Disjoint fp gp :=
  (Multiset.nodup_add.mp h.nodup).2.2

end Walkable

/-! ### Transformers that read below -/

/-- An identifier or a literal: a node that has no slots and is not stored. -/
def Node.IsLeaf (n : Node) : Prop :=
  n.kind = .ident ∨ n.kind = .basicLit

/-- A transformer that reads nothing but the tree of the node it is given, and writes nothing.
What it does is asked at nodes that unfold only; `answer` is what it answers there. -/
structure Transformer.ReadsBelow (t : Transformer σ) (answer : Store → Node → Node × Bool) :
    Prop where
  replace : ∀ {s : Store} {n : Node} {T : Tree} {fp : Multiset Address} (q : σ),
    Unfolds s [.node "" n] [T] fp → ∃ q', t.replace n ⟨s, q⟩ = .ok (answer s n) ⟨s, q'⟩
  leave : ∀ c : Context σ, ∃ q, t.leave c = .ok () ⟨c.store, q⟩
  /-- The answer is a function of the node and of the entries that it unfolds to. -/
  below : ∀ {s s' : Store} {n : Node} {T : Tree} {fp : Multiset Address},
    Unfolds s [.node "" n] [T] fp → Unfolds s' [.node "" n] [T] fp →
    (∀ a ∈ fp, s.SameAt s' a ∧ s.SameSpanAt s' a) → answer s' n = answer s n
  kind : ∀ {s : Store} {n : Node} {T : Tree} {fp : Multiset Address},
    Unfolds s [.node "" n] [T] fp → (answer s n).1.kind = n.kind
  /-- It goes on below the node that it was given, or with a node that has no slots. -/
  goesOn : ∀ {s : Store} {n : Node} {T : Tree} {fp : Multiset Address},
    Unfolds s [.node "" n] [T] fp → (answer s n).2 = true →
    (answer s n).1 = n ∨ (answer s n).1.IsLeaf

/-! ### Refilling and closing -/

/-- A slot of a node or of an item. -/
def SlotPart.IsSlot : SlotPart → Prop
  | item .. => False
  | _ => True

namespace Slots

variable {α : Type} {x : Slots α}

theorem isSlot_of_mem_parts {q : SlotPart} (h : q ∈ x.parts) : q.IsSlot := by
  induction x with
  | done a => cases h
  | node l k v next ih =>
    rcases List.mem_cons.mp h with rfl | h
    · trivial
    · exact ih v h
  | list l p seg next ih =>
    rcases List.mem_cons.mp h with rfl | h
    · trivial
    · exact ih seg h

/-- Parts of the same shape can take the place of those in the slots. -/
theorem Steady.exists_refills (hx : x.Steady) {qs : List SlotPart}
    (h : List.Forall₂ SlotPart.SameShape x.parts qs) : ∃ y, x.Refills qs y := by
  induction x generalizing qs with
  | done a =>
    cases h
    exact ⟨a, .done a⟩
  | node l k v next ih =>
    rcases h with - | ⟨hq, hqs⟩
    obtain @⟨_, _, ⟨k', v'⟩, rfl⟩ := hq
    obtain ⟨hparts, hnext⟩ := hx v'
    rw [← hparts] at hqs
    obtain ⟨y, hy⟩ := ih v' hnext hqs
    exact ⟨y, .node hy⟩
  | list l p seg next ih =>
    have hlist : ∃ seg' qs', qs = .list l p seg' :: qs' ∧
        List.Forall₂ SlotPart.SameShape (next seg).parts qs' := by
      rcases h with - | ⟨hq, hqs⟩
      cases hq with
      | list => exact ⟨seg, _, rfl, hqs⟩
      | stmts _ _ seg' => exact ⟨seg', _, rfl, hqs⟩
    obtain ⟨seg', qs', rfl, hqs⟩ := hlist
    obtain ⟨hparts, hnext⟩ := hx seg'
    rw [← hparts] at hqs
    obtain ⟨y, hy⟩ := ih seg' hnext hqs
    exact ⟨y, .list hy⟩

end Slots

/-- Closing a node is an edit of its entry. -/
private theorem Node.exists_edit_close (n : Node) (y : n.kind.Body) :
    ∃ e r, IsEdit n.footprint e ∧ r.kind = n.kind ∧
      ∀ s : Store, (∀ a ∈ n.footprint, s.Allocated a) → n.close y s = .ok r (e s) := by
  obtain ⟨k, v⟩ := n
  cases k with
  | stored c =>
    refine ⟨_, .stored v, .put v y, rfl, fun s hs => ?_⟩
    have hv : v.index < (s.table c).size := hs _ (Multiset.mem_singleton_self _)
    exact (Node.close_stored v y s).trans (if_pos hv)
  | _ => exact ⟨id, ⟨_, y⟩, .id _, rfl, fun s _ => rfl⟩

/-! ### What a task does -/

/-- A result that can stand in the place of what a task takes up. -/
def Task.Keeps : (k : Task) → k.Result → Prop
  | visit _ n, r => r.kind = n.kind
  | parts ps, qs => List.Forall₂ SlotPart.SameShape ps qs
  | items .., _ => True
  | stmts .., res => res = none

/-- In all stores that agree with `s` on `fp`, a task has the same result and makes the same edit
at `fp`. -/
def Task.Edits (t : Transformer σ) (d : Nat) (s : Store) (fp : Multiset Address) (k : Task) :
    Prop :=
  ∃ (e : Store → Store) (w : List Mark) (r : k.Result), IsEdit fp e ∧ k.Keeps r ∧
    ∀ c : Context σ, s.AlikeOn fp c.store → ∃ q, Completes t d k c w r ⟨e c.store, q⟩

/-- At depth `d` the parts of every node and item that has outlines in `s` are done by edits. -/
def PartsEdit (t : Transformer σ) (d : Nat) (s : Store) : Prop :=
  ∀ {ps : List SlotPart} {os : List Outline} {fp : Multiset Address}, (∀ q ∈ ps, q.IsSlot) →
    Outlines s ps os fp → Walkable fp → Outline.heightAll os ≤ d → (Task.parts ps).Edits t d s fp

section Rules

variable {t : Transformer σ} {answer : Store → Node → Node × Bool} {d : Nat} {s : Store}
  {l : String} {os : List Outline} {fp : Multiset Address}

private theorem Transformer.ReadsBelow.replace_eq (ht : t.ReadsBelow answer) {n : Node} {T : Tree}
    (hu : Unfolds s [.node l n] [T] fp) {c : Context σ} (hc : s.AlikeOn fp c.store) :
    ∃ q, t.replace n c = .ok (answer s n) ⟨c.store, q⟩ := by
  have hu₀ := hu.relabel ""
  have hu₁ := hc.unfolds hu₀
  rw [← ht.below hu₀ hu₁ fun a ha => ⟨hc.same a ha, hc.sizes.sameSpanAt a⟩]
  exact ht.replace c.state hu₁

/-- A node without slots that is answered instead of the node that was given. -/
theorem Completes.of_leaf {o : Origin} {n a : Node} {c c₁ c₂ : Context σ} (ha : a.IsLeaf)
    (hr : t.replace n c = .ok (a, true) c₁) (hl : t.leave c₁ = .ok () c₂) :
    Completes t (d + 1) (.visit o n) c [.call o n a true, .leave, .finish o n a] a c₂ := by
  obtain ⟨k, v⟩ := a
  rcases ha with rfl | rfl
  · exact .down hr rfl .nil (.done _) rfl hl
  · exact .down hr rfl .nil (.done _) rfl hl

/-- Visits are edits, if the parts of nodes are done by edits. -/
theorem PartsEdit.visit (hp : PartsEdit t d s) (ht : t.ReadsBelow answer) {n : Node}
    (ho : Outlines s [.node l n] os fp) (hf : Walkable fp) (hd : Outline.heightAll os ≤ d + 1)
    (o : Origin) : (Task.visit o n).Edits t d s fp := by
  obtain ⟨ts, hts⟩ := ho.exists_unfolds
  obtain ⟨T, us, _, _, rfl, -, -, hnil⟩ := hts.exists_of_cons
  obtain ⟨rfl, -⟩ := hnil.eq_of_nil
  have hkind := ht.kind (hts.relabel "")
  have hgoes := ht.goesOn (hts.relabel "")
  have hreplace : ∀ c : Context σ, s.AlikeOn fp c.store →
      ∃ q, t.replace n c = .ok (answer s n) ⟨c.store, q⟩ := fun c hc => ht.replace_eq hts hc
  obtain ⟨x, us, gp, hx, hu, rfl, rfl⟩ := ho.exists_of_node
  have hus := Nat.le_of_succ_le_succ (Outline.heightAll_cons_le_iff.mp hd).1
  rcases hans : answer s n with ⟨a, _ | _⟩
  · -- the answer stands as it is
    rw [hans] at hkind hreplace
    refine ⟨id, [.call o n a false, .finish o n a], a, .id _, hkind, fun c hc => ?_⟩
    obtain ⟨q, hr⟩ := hreplace c hc
    exact ⟨q, .stay hr⟩
  · rw [hans] at hkind hgoes hreplace
    rcases hgoes rfl with rfl | hleaf
    · -- the parts of the node are done, and then it is closed
      obtain ⟨e, w, qs, he, hqs, hrun⟩ :=
        hp (fun q => Slots.isSlot_of_mem_parts) hu hf.right hus
      obtain ⟨y, hy⟩ := ((Kind.lawful _).steady x).exists_refills hqs
      obtain ⟨e', r, he', hr, hclose⟩ := Node.exists_edit_close a y
      refine ⟨e' ∘ e, .call o a a true :: w ++ [.leave, .finish o a r], r, ?_, hr, fun c hc => ?_⟩
      · rw [add_comm]
        exact he'.comp he
      · obtain ⟨q, hq⟩ := hreplace c hc
        obtain ⟨q₁, hw⟩ := hrun ⟨c.store, q⟩
          (hc.mono (Multiset.subset_of_le (Multiset.le_add_left _ _)))
        have hbody : a.body? c.store = some x :=
          (Node.body?_frame fun b hb => hc.same b (Multiset.mem_add.mpr (.inl hb))).trans hx
        have halloc : ∀ b ∈ a.footprint, (e c.store).Allocated b := fun b hb =>
          (he.sizes _).grows.allocated (Node.allocated_footprint hbody b hb)
        obtain ⟨q₂, hl⟩ := ht.leave ⟨e' (e c.store), q₁⟩
        exact ⟨q₂, .down hq hbody hw hy (hclose _ halloc) hl⟩
    · refine ⟨id, [.call o n a true, .leave, .finish o n a], a, .id _, hkind, fun c hc => ?_⟩
      obtain ⟨q, hq⟩ := hreplace c hc
      obtain ⟨q₁, hl⟩ := ht.leave ⟨c.store, q⟩
      obtain ⟨d, rfl⟩ := Nat.exists_eq_add_of_lt
        (Nat.lt_of_lt_of_le (Outline.one_le_heightAll us) hus)
      exact ⟨q₁, .of_leaf hleaf hq hl⟩

/-- A list that is walked over is a range of its buffer, unless it has no items. -/
private theorem Walkable.fault?_eq_none {p : Pool} {seg : Segment p} {n i : Nat}
    {gp : Multiset Address} (hf : Walkable (cells p (seg.start.toNat + i) (n + 1) + gp))
    (hs : seg.stop ≤ (s.buffer p).size) (hi : i + (n + 1) = seg.length) :
    seg.fault? (s.buffer p).size = none := by
  have hstop : seg.stop = seg.start.toNat + i + n + 1 := by
    rw [Segment.stop, show seg.len.toNat = seg.length from rfl, ← hi]
    omega
  have hlast : Address.cell p (seg.start.toNat + i + n) ∈
      cells p (seg.start.toNat + i) (n + 1) + gp :=
    Multiset.mem_add.mpr (.inl (mem_cells.mpr ⟨_, Nat.le_add_right _ _, by omega, rfl⟩))
  have hword := hf.word p _ hlast
  exact Segment.fault?_eq_none_iff.mpr ⟨by omega, hs⟩

theorem Store.item_eq_ok {p : Pool} {seg : Segment p} {i : Nat} {x : p.Item}
    (hf : seg.fault? (s.buffer p).size = none) (hi : i < seg.length)
    (hx : (s.buffer p)[seg.start.toNat + i]? = some x) : s.item seg i = .ok x := by
  rw [item, Segment.itemFault?, hf]
  simp only [if_pos hi, hx]

private theorem StoreM.setItem_eq_ok_of_fault? {p : Pool} {seg : Segment p} {i : Nat}
    (hf : seg.fault? (s.buffer p).size = none) (hi : i < seg.length) (x : p.Item) :
    setItem seg i x s = .ok () (s.putItem seg i x) := by
  rw [setItem, Segment.itemFault?, hf]
  simp only [if_pos hi]

/-- The next item of a list that is walked over: it is read in every store that agrees on the list,
and it can be written in every store of the same sizes. -/
theorem ItemsOutlined.exists_next {p : Pool} {seg : Segment p} {n i : Nat}
    (ho : ItemsOutlined s l p seg (n + 1) i os fp) (hf : Walkable fp)
    (hs : seg.stop ≤ (s.buffer p).size) (hi : i + (n + 1) = seg.length) :
    ∃ x us vs fp₁ fp₂, os = .group us :: vs ∧
      fp = {.cell p (seg.start.toNat + i)} + fp₁ + fp₂ ∧
      Outlines s (p.slots l x).parts us fp₁ ∧ ItemsOutlined s l p seg n (i + 1) vs fp₂ ∧
      (∀ s', s.AlikeOn fp s' → s'.item seg i = .ok x) ∧
      ∀ s', s.SameSizes s' → ∀ y, StoreM.setItem seg i y s' = .ok () (s'.putItem seg i y) := by
  have hlt : i < seg.length := by omega
  obtain ⟨x, hx, hfault⟩ : ∃ x, (s.buffer p)[seg.start.toNat + i]? = some x ∧
      seg.fault? (s.buffer p).size = none := by
    obtain ⟨_ | ⟨x, xs⟩, gp, hlen, hread, -, rfl⟩ := ho
    · cases hlen
    · exact ⟨x, hread.1, hf.fault?_eq_none hs hi⟩
  have hfault' : ∀ s', s.SameSizes s' → seg.fault? (s'.buffer p).size = none := by
    intro s' hs'
    rwa [hs'.buffer p]
  obtain ⟨us, vs, fp₁, fp₂, rfl, rfl, h₁, h₂⟩ := ho.exists_of_succ (Store.item_eq_ok hfault hlt hx)
  have hcell : Address.cell p (seg.start.toNat + i) ∈
      ({.cell p (seg.start.toNat + i)} + fp₁ + fp₂ : Multiset Address) := by simp
  refine ⟨x, us, vs, fp₁, fp₂, rfl, rfl, h₁, h₂, fun s' hs' => ?_, fun s' hs' y => ?_⟩
  · exact Store.item_eq_ok (hfault' s' hs'.sizes) hlt (Eq.trans (hs'.same _ hcell) hx)
  · exact StoreM.setItem_eq_ok_of_fault? (hfault' s' hs') hlt y

/-- The items of a list are done by edits. -/
theorem PartsEdit.items (hp : PartsEdit t d s) {p : Pool} {seg : Segment p} {n i : Nat}
    (ho : ItemsOutlined s l p seg n i os fp) (hf : Walkable fp)
    (hd : Outline.heightAll os ≤ d + 1) (hs : seg.stop ≤ (s.buffer p).size)
    (hi : i + n = seg.length) : (Task.items l p seg n i).Edits t d s fp := by
  induction n generalizing i os fp with
  | zero => exact ⟨id, [], (), .id _, trivial, fun c _ => ⟨c.state, .itemsDone⟩⟩
  | succ n ih =>
    obtain ⟨x, us, vs, fp₁, fp₂, rfl, rfl, h₁, h₂, hget, hset⟩ := ho.exists_next hf hs hi
    obtain ⟨hus, hvs⟩ := Outline.heightAll_cons_le_iff.mp hd
    obtain ⟨e₁, u, qs, he₁, hqs, hrun₁⟩ :=
      hp (fun q => Slots.isSlot_of_mem_parts) h₁ hf.left.right (Nat.le_of_succ_le_succ hus)
    obtain ⟨y, hy⟩ := ((p.lawful l).steady x).exists_refills hqs
    obtain ⟨e₂, w, _, he₂, -, hrun₂⟩ := ih h₂ hf.right hvs (by omega)
    have he := (IsEdit.putItem seg i y).comp he₁
    rw [add_comm] at he
    refine ⟨e₂ ∘ (fun s => s.putItem seg i y) ∘ e₁, u ++ w, (), he₂.comp he, trivial,
      fun c hc => ?_⟩
    have hc₁ := hc.mono (Multiset.subset_of_le (Multiset.le_add_right _ fp₂))
    have hc₂ := hc.mono (Multiset.subset_of_le (Multiset.le_add_left fp₂ _))
    obtain ⟨q₁, hv⟩ := hrun₁ c (hc₁.mono (Multiset.subset_of_le (Multiset.le_add_left fp₁ _)))
    obtain ⟨q₂, hw⟩ := hrun₂ ⟨(e₁ c.store).putItem seg i y, q₁⟩ (hc₂.edit he hf.disjoint)
    exact ⟨q₂, .itemsNext (hget _ hc) hv hy (hset _ (hc.sizes.trans (he₁.sizes _)) y) hw⟩

/-- The items of a statement list are done by edits: each answer is a statement and is written to
its cell. -/
private theorem PartsEdit.stmts (hp : PartsEdit t d s) (ht : t.ReadsBelow answer)
    {seg : Segment .stmts}
    {n i : Nat} (ho : ItemsOutlined s l .stmts seg n i os fp) (hf : Walkable fp)
    (hd : Outline.heightAll os ≤ d + 1) (hs : seg.stop ≤ (s.buffer .stmts).size)
    (hi : i + n = seg.length) : (Task.stmts l seg n i none).Edits t d s fp := by
  induction n generalizing i os fp with
  | zero => exact ⟨id, [], none, .id _, rfl, fun c _ => ⟨c.state, .stmtsDone⟩⟩
  | succ n ih =>
    obtain ⟨x, us, vs, fp₁, fp₂, rfl, rfl, h₁, h₂, hget, hset⟩ := ho.exists_next hf hs hi
    obtain ⟨hus, hvs⟩ := Outline.heightAll_cons_le_iff.mp hd
    obtain ⟨e₁, u, ⟨k, id⟩, he₁, rfl, hrun₁⟩ :=
      hp.visit ht h₁ hf.left.right (Nat.le_of_lt hus) (.item l)
    obtain ⟨e₂, w, res, he₂, hres, hrun₂⟩ := ih h₂ hf.right hvs (by omega)
    have he := (IsEdit.putItem seg i id).comp he₁
    rw [add_comm] at he
    refine ⟨e₂ ∘ (fun s => s.putItem seg i id) ∘ e₁, u ++ [] ++ w, res, he₂.comp he, hres,
      fun c hc => ?_⟩
    have hc₁ := hc.mono (Multiset.subset_of_le (Multiset.le_add_right _ fp₂))
    have hc₂ := hc.mono (Multiset.subset_of_le (Multiset.le_add_left fp₂ _))
    obtain ⟨q₁, hv⟩ := hrun₁ c (hc₁.mono (Multiset.subset_of_le (Multiset.le_add_left fp₁ _)))
    obtain ⟨q₂, hw⟩ := hrun₂ ⟨(e₁ c.store).putItem seg i id, q₁⟩ (hc₂.edit he hf.disjoint)
    have hwrite := hset _ (hc.sizes.trans (he₁.sizes _)) id
    exact ⟨q₂, .stmtsNext (hget _ hc) hv (.write hwrite) hw⟩

/-- The first part and the parts after it are edits, and so are they together. -/
theorem Task.Edits.cons {q : SlotPart} {ps : List SlotPart} {gp : Multiset Address}
    (hq : (Task.parts [q]).Edits t (d + 1) s fp) (hps : (Task.parts ps).Edits t (d + 1) s gp)
    (hf : Walkable (fp + gp)) : (Task.parts (q :: ps)).Edits t (d + 1) s (fp + gp) := by
  obtain ⟨e₁, u, _ | ⟨q', _ | _⟩, he₁, hq', hrun₁⟩ := hq
  · cases hq'
  · obtain ⟨e₂, w, qs, he₂, hqs, hrun₂⟩ := hps
    rcases hq' with - | ⟨hq', -⟩
    refine ⟨e₂ ∘ e₁, u ++ w, q' :: qs, he₂.comp he₁, .cons hq' hqs, fun c hc => ?_⟩
    have hc₁ := hc.mono (Multiset.subset_of_le (Multiset.le_add_right fp gp))
    have hc₂ := hc.mono (Multiset.subset_of_le (Multiset.le_add_left gp fp))
    obtain ⟨q₁, hv⟩ := hrun₁ c hc₁
    obtain ⟨q₂, hw⟩ := hrun₂ ⟨e₁ c.store, q₁⟩ (hc₂.edit he₁ hf.disjoint)
    exact ⟨q₂, Transformer.completes_cons hv hw⟩
  · rcases hq' with - | ⟨-, ⟨⟩⟩

private theorem Task.Edits.node {n : Node} (h : (Task.visit (.slot l) n).Edits t d s fp) :
    (Task.parts [.node l n]).Edits t (d + 1) s fp := by
  obtain ⟨e, w, r, he, hr, hrun⟩ := h
  refine ⟨e, w ++ [], [.node l r], he, .cons (.node l hr) .nil, fun c hc => ?_⟩
  obtain ⟨q, hv⟩ := hrun c hc
  exact ⟨q, .node hv hr .nil⟩

private theorem Task.Edits.list {p : Pool} {seg : Segment p} (hp : p ≠ .stmts)
    (hs : seg.stop ≤ (s.buffer p).size)
    (h : (Task.items l p seg seg.length 0).Edits t d s fp) :
    (Task.parts [.list l p seg]).Edits t (d + 1) s fp := by
  obtain ⟨e, w, _, he, -, hrun⟩ := h
  refine ⟨e, w ++ [], [.list l p seg], he, .cons (.list l p seg) .nil, fun c hc => ?_⟩
  obtain ⟨q, hv⟩ := hrun c hc
  exact ⟨q, .list hp (Nat.le_trans hs (hc.sizes.grows.buffer p)) hv .nil⟩

private theorem Task.Edits.stmts {seg : Segment .stmts} (hs : seg.stop ≤ (s.buffer .stmts).size)
    (h : (Task.stmts l seg seg.length 0 none).Edits t d s fp) :
    (Task.parts [.list l .stmts seg]).Edits t (d + 1) s fp := by
  obtain ⟨e, w, res, he, rfl, hrun⟩ := h
  refine ⟨e, w ++ [], [.list l .stmts seg], he, .cons (.list l .stmts seg) .nil, fun c hc => ?_⟩
  obtain ⟨q, hv⟩ := hrun c hc
  exact ⟨q, .stmts (Nat.le_trans hs (hc.sizes.grows.buffer .stmts)) hv rfl .nil⟩

/-- A list is taken up. -/
private theorem PartsEdit.list (hp : PartsEdit t d s) (ht : t.ReadsBelow answer) {p : Pool}
    {seg : Segment p} (ho : Outlines s [.list l p seg] os fp) (hf : Walkable fp)
    (hd : Outline.heightAll os ≤ d + 1) :
    (Task.parts [.list l p seg]).Edits t (d + 1) s fp := by
  have hs : seg.stop ≤ (s.buffer p).size := by
    cases ho with
    | list hs => exact hs
  obtain ⟨us, vs, fp₁, fp₂, rfl, rfl, h₁, hnil⟩ := ho.exists_of_list_cons
  cases hnil
  rw [add_zero] at hf ⊢
  have hus := Nat.le_of_lt (Outline.heightAll_cons_le_iff.mp hd).1
  by_cases hp' : p = .stmts
  · subst hp'
    exact .stmts hs (hp.stmts ht h₁ hf hus hs (Nat.zero_add _))
  · exact .list hp' hs (hp.items h₁ hf hus hs (Nat.zero_add _))

private theorem PartsEdit.succ (hp : PartsEdit t d s) (ht : t.ReadsBelow answer) :
    PartsEdit t (d + 1) s := by
  intro ps os fp hslots ho hf hd
  induction ps generalizing os fp with
  | nil =>
    cases ho
    exact ⟨id, [], [], .id _, .nil, fun c _ => ⟨c.state, .nil⟩⟩
  | cons q ps ih =>
    obtain ⟨o, us, fp₁, fp₂, rfl, rfl, h₁, h₂⟩ := ho.exists_of_cons
    have hd₁ := Outline.heightAll_singleton_le hd
    have hd₂ := (Outline.heightAll_cons_le_iff.mp hd).2
    refine .cons ?_ (ih (fun q' hq' => hslots q' (.tail q hq')) h₂ hf.right hd₂) hf
    cases q with
    | node l n => exact .node (hp.visit ht h₁ hf.left hd₁ (.slot l))
    | list l p seg => exact hp.list ht h₁ hf.left hd₁
    | item l p x => exact absurd (hslots _ (.head ps)) id

/-- At every depth, parts are done by edits: depth 0 suffices for nothing. -/
theorem partsEdit (ht : t.ReadsBelow answer) (d : Nat) (s : Store) : PartsEdit t d s := by
  induction d with
  | zero =>
    intro ps os fp _ _ _ hd
    have := Outline.one_le_heightAll os
    omega
  | succ d ih => exact ih.succ ht

end Rules

/-- A run on a tree-shaped root returns, with the same answer and the same edit in all stores that
agree with the given one on the footprint. -/
theorem Transformer.ReadsBelow.exists_edit {t : Transformer σ}
    {answer : Store → Node → Node × Bool} (ht : t.ReadsBelow answer) {s : Store} {n : Node}
    {T : Tree} {fp : Multiset Address} (hT : Unfolds s [.node "" n] [T] fp) (hf : Walkable fp) :
    ∃ D e r, IsEdit fp e ∧ ∀ depth, D ≤ depth → ∀ s', s.AlikeOn fp s' → ∀ q,
      (t.run depth n s' q).result = .ok r ∧ (t.run depth n s' q).store = e s' := by
  obtain ⟨os, ho⟩ := hT.exists_outlines
  have hp : PartsEdit t (Outline.heightAll os) s := partsEdit ht _ s
  obtain ⟨e, w, r, he, -, hrun⟩ := hp.visit ht ho hf (Nat.le_succ _) .root
  refine ⟨Outline.heightAll os, e, r, he, fun depth hdepth s' hs' q => ?_⟩
  obtain ⟨q', hv⟩ := hrun ⟨s', q⟩ hs'
  rw [(hv.mono hdepth).run_eq]
  exact ⟨rfl, rfl⟩

end GoTree
