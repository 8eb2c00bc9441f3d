import GoTree.Proofs.Adequacy
import GoTree.Proofs.Ownership
import GoTree.Proofs.TreeTraversal

/-!
# Traversal of stores refines traversal of trees

A transformer **implements** a tree transformer `F` when on tree-shaped nodes its answers unfold to
what `F` answers on their trees, and it only adds to the store: its answer is built from what it was
given and from what it has just added. `Transformer.run_refines` says that a run of it on a
tree-shaped root, if it returns, leaves a tree-shaped node, and that this node unfolds to what
`Tree.traverse` makes of the tree of the root.

The proof follows the rules of `GoTree.Proofs.History`. Each task owns the footprint of what it
takes up and hands over the footprint of what it yields (`Moves`); since the footprints of what is
still to be visited and of what is already finished are disjoint from it, the frame rule keeps both
as they are.
-/

namespace GoTree

variable {σ τ : Type}

/-- Nothing in use is overwritten. -/
structure Store.Extends (s s' : Store) : Prop where
  grows : s.Grows s'
  same : ∀ a, s.Allocated a → s.SameAt s' a

/-- A transformer that does on tree-shaped nodes what `F` does on their trees, adds to the store
without overwriting anything, and answers with a tree-shaped node made of addresses that are new or
were in the node it was given. `R` relates its states to those of `F`, for which the end of a node
is no event. -/
structure Transformer.Implements (t : Transformer σ) (F : τ → Tree → τ × Tree × Bool)
    (R : σ → τ → Prop) : Prop where
  replace : ∀ {n a : Node} {b : Bool} {c c' : Context σ} {q : τ} {T : Tree}
    {fp : Multiset Address}, c.store.TreeShaped n T fp → R c.state q →
    t.replace n c = .ok (a, b) c' →
    ∃ q' T' fp', F q T = (q', T', b) ∧ R c'.state q' ∧ c.store.Extends c'.store ∧
      c'.store.TreeShaped a T' fp' ∧ ∀ x ∈ fp', x ∈ fp ∨ ¬c.store.Allocated x
  leave : ∀ {c c' : Context σ} {q : τ}, t.leave c = .ok () c' → R c.state q →
    R c'.state q ∧ c.store.Extends c'.store

theorem Store.Extends.moves {s s' : Store} (h : s.Extends s') {fp fp' : Multiset Address}
    (hw : ∀ a ∈ fp', a ∈ fp ∨ ¬s.Allocated a) (hn : fp'.Nodup) : Moves s fp s' fp' :=
  ⟨h.grows, fun a ha _ => h.same a ha, hw, hn⟩

/-! ### Statement lists -/

/-- The contents of a statement list up to item `i` are `zs`: they are in the cells of the list as
long as nothing has been collected, and on the side afterwards. -/
inductive Stands (s : Store) (seg : Segment .stmts) (i : Nat) :
    Option (Array (Id .stmt)) → List (Id .stmt) → Prop where
  | inPlace {zs : List (Id .stmt)} (hl : zs.length = i)
      (hr : s.Reads .stmts seg.start.toNat zs) : Stands s seg i none zs
  | aside (zs : List (Id .stmt)) : Stands s seg i (some zs.toArray) zs

section Stmts

variable {s s' : Store} {seg : Segment .stmts} {l : String} {i : Nat} {r : Node} {w : List Mark}
  {out out' : Option (Array (Id .stmt))} {zs : List (Id .stmt)} {fp fp' : Multiset Address}

private theorem Stands.moves (h : Stands s seg i out zs) (hm : Moves s fp s' fp')
    (hn : out = none → (fp + cells .stmts seg.start.toNat i).Nodup) : Stands s' seg i out zs := by
  cases h with
  | aside => exact .aside zs
  | inPlace hl hr =>
    refine .inPlace hl (hm.reads hr ?_)
    rw [hl]
    exact hn rfl

/-- What is collected before item `i` are the contents up to `i`. -/
theorem Collected.eq_toArray {old : Array (Id .stmt)} (h : Collected seg i s out old)
    (hz : Stands s seg i out zs) (hi : i ≤ seg.length) : old = zs.toArray := by
  cases hz with
  | aside =>
    cases h
    rfl
  | inPlace hl hr =>
    cases h with
    | inPlace hx =>
      have hz' := hr.extract_eq
      rw [Store.eq_extract_of_items hx, Array.extract_extract, ← hz', hl]
      simp only [Segment.stop, Segment.length] at hi ⊢
      rw [Nat.add_zero, Nat.min_eq_left (by omega)]

/-- A statement is an item of a statement list. -/
theorem Unfolds.stmt_item {T : Tree} {id : Id .stmt} (h : Unfolds s [.node "" (.stored id)] [T] fp)
    (l : String) : Unfolds s [.item l .stmts id]
      [.mk (.item .stmts (Kind.filler (.stored .stmt))) [T]] fp := by
  rw [← add_zero fp]
  exact .item (h.relabel l) .nil

theorem Unfolds.exists_of_stmt_item {T : Tree} {id : Id .stmt}
    (h : Unfolds s [.item l .stmts id] [T] fp) :
    ∃ T', T = .mk (.item .stmts (Kind.filler (.stored .stmt))) [T'] ∧
      Unfolds s [.node "" (.stored id)] [T'] fp := by
  obtain ⟨us, hu, rfl⟩ := h.exists_of_item
  obtain ⟨T', us, fp₁, fp₂, rfl, rfl, hT', hu'⟩ := hu.exists_of_cons
  obtain ⟨rfl, rfl⟩ := hu'.eq_of_nil
  rw [add_zero]
  exact ⟨T', rfl, hT'.relabel ""⟩

/-- The items of a statement list have no label of their own. -/
private theorem Unfolds.relabel_stmts {ids : List (Id .stmt)} {us : List Tree} {l' : String}
    (h : Unfolds s (ids.map (.item l .stmts)) us fp) :
    Unfolds s (ids.map (.item l' .stmts)) us fp := by
  induction ids generalizing us fp with
  | nil => exact h
  | cons id ids ih =>
    obtain ⟨T, us, fp₁, fp₂, rfl, rfl, hT, hu⟩ := h.exists_of_cons
    obtain ⟨T', rfl, hT'⟩ := hT.exists_of_stmt_item
    exact (hT'.stmt_item l').append (ih hu)

private theorem Takes.eq_none (h : Takes l seg i s out r w out' s') (ho : out' = none) :
    out = none := by
  cases h with
  | write => rfl
  | push => cases ho
  | splice => cases ho

/-- Taking an answer owns the cell of the item and the answer. -/
theorem Takes.simulates {T : Tree} (h : Takes l seg i s out r w out' s')
    (hT : Unfolds s [.node "" r] [T] fp)
    (hn : ({.cell .stmts (seg.start.toNat + i)} + fp : Multiset Address).Nodup)
    (hz : Stands s seg i out zs) (hi : i < seg.length) :
    ∃ ids us gp, T.spliced (Kind.filler (.stored .stmt)) = some us ∧
      Unfolds s' (ids.map (.item l .stmts)) us gp ∧ Stands s' seg (i + 1) out' (zs ++ ids) ∧
      Moves s ({.cell .stmts (seg.start.toNat + i)} + fp) s'
        ({.cell .stmts (seg.start.toNat + i)} + gp) := by
  cases h with
  | @write id s' hs =>
    obtain ⟨hm, hc⟩ := StoreM.moves_setItem hs
    have hT' := hm.unfolds hT hn
    obtain ⟨x, us, gp, -, -, rfl, -⟩ := hT'.exists_of_node
    refine ⟨[id], _, fp, rfl, hT'.stmt_item l, ?_, hm.frame hn hT.allocated⟩
    cases hz with
    | inPlace hl hr =>
      have hd := nodup_cells .stmts seg.start.toNat (i + 1)
      rw [cells_add, add_comm] at hd
      refine .inPlace (by simp [hl]) (Store.Reads.append (hm.reads hr ?_) ?_)
      · rw [hl]
        simpa [cells] using hd
      · rw [hl]
        exact ⟨hc, trivial⟩
  | push a id =>
    obtain ⟨x, us, gp, -, -, rfl, -⟩ := hT.exists_of_node
    refine ⟨[id], _, fp, rfl, hT.stmt_item l, ?_, .refl s hn⟩
    cases hz
    rw [List.push_toArray]
    exact .aside _
  | @splice _ old new b hb hx ho =>
    obtain ⟨x, us, gp, hx', hu, rfl, rfl⟩ := hT.exists_of_node
    cases hx'
    obtain ⟨T, us, fp₁, fp₂, rfl, rfl, hL, hnil⟩ := hu.exists_of_cons
    obtain ⟨rfl, rfl⟩ := hnil.eq_of_nil
    obtain ⟨ids, vs, gp, -, hl, hr, hv, rfl, rfl⟩ := hL.exists_of_list
    obtain rfl : new = ids.toArray := by
      rw [Store.eq_extract_of_items hx, ← hr.extract_eq, hl]
      rfl
    obtain rfl := ho.eq_toArray hz (Nat.le_of_lt hi)
    refine ⟨ids, vs, gp, rfl, hv.relabel_stmts, ?_, ?_⟩
    · rw [List.append_toArray]
      exact .aside _
    · -- the cells of the block itself are left behind
      have hm : Moves s ({.cell .stmts (seg.start.toNat + i)} +
          ((Node.expandedBlock b).footprint +
            (cells .stmts b.stmts.start.toNat b.stmts.length + gp + 0))) s
          ({.cell .stmts (seg.start.toNat + i)} + gp +
            ((Node.expandedBlock b).footprint +
              cells .stmts b.stmts.start.toNat b.stmts.length)) := by
        convert Moves.refl s hn using 1
        abel
      exact hm.drop

end Stmts

/-! ### The simulation -/

/-- A task does in the store what the traversal of trees does with the trees of what it takes
up. -/
def Task.Simulates (F : τ → Tree → τ × Tree × Bool) (R : σ → τ → Prop) (d : Nat)
    (c c' : Context σ) : (k : Task) → k.Result → Prop
  | visit _ n, r => ∀ q T fp, R c.state q → c.store.TreeShaped n T fp →
      ∃ q' T' fp', Tree.traverse F d q T = some (q', T') ∧ R c'.state q' ∧
        Unfolds c'.store [.node "" r] [T'] fp' ∧ Moves c.store fp c'.store fp'
  | parts ps, ps' => ∀ q Ts fp, R c.state q → Unfolds c.store ps Ts fp → fp.Nodup →
      ∃ q' Ts' fp', Tree.traverseSlots F d q Ts = some (q', Ts') ∧ R c'.state q' ∧
        Unfolds c'.store ps' Ts' fp' ∧ Moves c.store fp c'.store fp'
  | items l p seg n i, _ => ∀ q xs us fp, R c.state q → xs.length = n →
      c.store.Reads p (seg.start.toNat + i) xs → Unfolds c.store (xs.map (.item l p)) us fp →
      (cells p (seg.start.toNat + i) n + fp).Nodup →
      ∃ q' ys us' fp',
        Tree.replaceEach (Tree.replaceItem (Tree.traverseSlots F d)) q us = some (q', us') ∧
        R c'.state q' ∧ ys.length = n ∧ c'.store.Reads p (seg.start.toNat + i) ys ∧
        Unfolds c'.store (ys.map (.item l p)) us' fp' ∧
        Moves c.store (cells p (seg.start.toNat + i) n + fp) c'.store
          (cells p (seg.start.toNat + i) n + fp')
  | stmts l seg n i out, res => ∀ q xs us fp zs, R c.state q → xs.length = n →
      c.store.Reads .stmts (seg.start.toNat + i) xs →
      Unfolds c.store (xs.map (.item l .stmts)) us fp →
      (cells .stmts (seg.start.toNat + i) n + fp).Nodup → Stands c.store seg i out zs →
      (out = none →
        (cells .stmts (seg.start.toNat + i) n + fp + cells .stmts seg.start.toNat i).Nodup) →
      ∃ q' ids us' fp',
        Tree.replaceEach (Tree.replaceStmt F (Tree.traverseSlots F d)) q us = some (q', us') ∧
        R c'.state q' ∧ Stands c'.store seg (i + n) res (zs ++ ids) ∧
        Unfolds c'.store (ids.map (.item l .stmts)) us' fp' ∧
        Moves c.store (cells .stmts (seg.start.toNat + i) n + fp) c'.store
          (cells .stmts (seg.start.toNat + i) n + fp')

section Rules

variable {t : Transformer σ} {F : τ → Tree → τ × Tree × Bool} {R : σ → τ → Prop} {d : Nat}
  {c c₁ c₂ c' : Context σ} {o : Origin} {n a r : Node}

private theorem simulates_stay (ht : t.Implements F R) (hr : t.replace n c = .ok (a, false) c') :
    (Task.visit o n).Simulates F R d c c' a := by
  intro q T fp hq hT
  obtain ⟨q', T', fp', hF, hq', he, hT', hw⟩ := ht.replace hT hq hr
  exact ⟨q', T', fp', Tree.visit_of_stay hF, hq', hT'.1, he.moves hw hT'.2⟩

private theorem simulates_down {x y : a.kind.Body} {s : Store} {ps : List SlotPart}
    (ht : t.Implements F R) (hr : t.replace n c = .ok (a, true) c₁)
    (hx : a.body? c₁.store = some x)
    (hw : (Task.parts (a.kind.bodySlots x).parts).Simulates F R d c₁ c₂ ps)
    (hy : (a.kind.bodySlots x).Refills ps y) (hc : a.close y c₂.store = .ok r s)
    (hl : t.leave ⟨s, c₂.state⟩ = .ok () c') : (Task.visit o n).Simulates F R d c c' r := by
  intro q T fp hq hT
  obtain ⟨q₁, T₁, fp₁, hF, hq₁, he, ⟨hT₁, hn₁⟩, hfp₁⟩ := ht.replace hT hq hr
  have hm₁ := he.moves hfp₁ hn₁
  obtain ⟨x', us, gp, hx', hu, rfl, rfl⟩ := hT₁.exists_of_node
  obtain rfl : x = x' := Option.some.inj (hx.symm.trans hx')
  have hgp : gp.Nodup := (Multiset.nodup_add.mp hn₁).2.1
  obtain ⟨q₂, us', gp', hs, hq₂, hu', hm₂⟩ := hw q₁ us gp hq₁ hu hgp
  -- the payload was copied out, and nothing below has touched the address of the node
  have hm₂' := hm₂.frame_left hn₁ (Node.allocated_footprint hx)
  rw [← (Kind.lawful a.kind).parts_eq hy] at hu'
  obtain ⟨hm₃, hr'⟩ := Node.moves_close hc hu' hm₂'.nodup
  rw [(Kind.lawful a.kind).blank_eq hy] at hr'
  obtain ⟨hq₃, he₃⟩ := ht.leave hl hq₂
  have hm := hm₁.trans (hm₂'.trans (hm₃.frame hm₂'.nodup hu'.allocated))
  refine ⟨q₂, _, a.footprint + gp', Tree.visit_of_descend hF hs, hq₃, ?_, ?_⟩
  · exact hr'.frame he₃.grows fun a ha => he₃.same a (hr'.allocated a ha)
  · exact hm.trans (he₃.moves (fun a ha => .inl ha) hm.nodup)

/-- A part is replaced in the store as `f` replaces its tree. -/
def SlotPart.Simulates (f : τ → Tree → Option (τ × List Tree)) (R : σ → τ → Prop)
    (c c' : Context σ) (p p' : SlotPart) : Prop :=
  ∀ q T fp, R c.state q → Unfolds c.store [p] [T] fp → fp.Nodup →
    ∃ q' T' fp', f q T = some (q', [T']) ∧ R c'.state q' ∧
      Unfolds c'.store [p'] [T'] fp' ∧ Moves c.store fp c'.store fp'

theorem SlotPart.Simulates.cons {p p' : SlotPart} {ps ps' : List SlotPart}
    (h : p.Simulates (Tree.replaceSlot F (Tree.traverseSlots F d)) R c c₁ p')
    (hw : (Task.parts ps).Simulates F R (d + 1) c₁ c₂ ps') :
    (Task.parts (p :: ps)).Simulates F R (d + 1) c c₂ (p' :: ps') := by
  intro q Ts fp hq hu hn
  obtain ⟨T, Ts, fp₁, fp₂, rfl, rfl, hT, hTs⟩ := hu.exists_of_cons
  obtain ⟨hn₁, hn₂, -⟩ := Multiset.nodup_add.mp hn
  obtain ⟨q₁, T₁, fp₁', hs₁, hq₁, hT₁, hm₁⟩ := h q T fp₁ hq hT hn₁
  have hTs₁ := hm₁.unfolds hTs hn
  obtain ⟨q₂, Ts₂, fp₂', hs₂, hq₂, hTs₂, hm₂⟩ := hw q₁ Ts fp₂ hq₁ hTs₁ hn₂
  have hm := hm₁.seq hm₂ hn hTs.allocated hT₁.allocated
  refine ⟨q₂, _, _, Tree.replaceEach_cons hs₁ hs₂, hq₂, ?_, hm⟩
  have hn' : (fp₂ + fp₁').Nodup := by
    rw [add_comm]
    exact (hm₁.frame hn hTs.allocated).nodup
  exact (hm₂.unfolds hT₁ hn').append hTs₂

private theorem simulates_node {l : String} (h : (Task.visit (.slot l) n).Simulates F R d c c₁ r)
    (hk : r.kind = n.kind) :
    SlotPart.Simulates (Tree.replaceSlot F (Tree.traverseSlots F d)) R c c₁ (.node l n)
      (.node l r) := by
  intro q T fp hq hT hn
  obtain ⟨q', T', fp', ht, hq', hT', hm⟩ := h q T fp hq ⟨hT.relabel "", hn⟩
  obtain ⟨x, us, gp, -, -, rfl, -⟩ := hT.exists_of_node
  refine ⟨q', T', fp', Tree.replaceSlot_node ht ?_, hq', hT'.relabel l, hm⟩
  obtain ⟨y, vs, gp', -, -, rfl, -⟩ := hT'.exists_of_node
  exact congrArg some hk

private theorem simulates_list {l : String} {p : Pool} {seg : Segment p} (hp : p ≠ .stmts)
    (h : (Task.items l p seg seg.length 0).Simulates F R d c c₁ ()) :
    SlotPart.Simulates (Tree.replaceSlot F (Tree.traverseSlots F d)) R c c₁ (.list l p seg)
      (.list l p seg) := by
  intro q T fp hq hT hn
  obtain ⟨xs, us, gp, hs, hl, hx, hu, rfl, rfl⟩ := hT.exists_of_list
  obtain ⟨q', ys, us', fp', ht, hq', hl', hy, hu', hm⟩ := h q xs us gp hq hl hx hu hn
  refine ⟨q', _, _, Tree.replaceSlot_list hp ht, hq', ?_, hm⟩
  simpa using Unfolds.list (Nat.le_trans hs (hm.grows.buffer p)) hl' hy hu' .nil

private theorem simulates_stmts {l : String} {seg seg' : Segment .stmts} {s : Store}
    {out : Option (Array (Id .stmt))}
    (h : (Task.stmts l seg seg.length 0 none).Simulates F R d c c₁ out)
    (hc : seg.settle out c₁.store = .ok seg' s) :
    SlotPart.Simulates (Tree.replaceSlot F (Tree.traverseSlots F d)) R c ⟨s, c₁.state⟩
      (.list l .stmts seg) (.list l .stmts seg') := by
  intro q T fp hq hT hn
  obtain ⟨xs, us, gp, hs, hl, hx, hu, rfl, rfl⟩ := hT.exists_of_list
  obtain ⟨q', ids, us', fp', ht, hq', hz, hu', hm⟩ := h q xs us gp [] hq hl hx hu hn
    (.inPlace rfl trivial) (fun _ => by simpa [cells] using hn)
  rw [List.nil_append, Nat.zero_add] at hz
  cases hz with
  | inPlace hl' hr =>
    cases hc
    refine ⟨q', _, _, Tree.replaceSlot_stmts ht, hq', ?_, hm⟩
    simpa using Unfolds.list (Nat.le_trans hs (hm.grows.buffer _)) hl' hr hu' .nil
  | aside =>
    -- the old cells are left behind, and the new list has cells of its own
    obtain ⟨hm', hs', hl', hr⟩ := StoreM.moves_list hc
    have hm₁ : Moves c.store (cells .stmts seg.start.toNat seg.length + gp) c₁.store fp' := by
      rw [add_comm _ fp'] at hm
      exact hm.drop
    have hm₂ := hm'.frame (by simpa using hm₁.nodup) hu'.allocated
    refine ⟨q', _, _, Tree.replaceSlot_stmts ht, hq', ?_, hm₁.trans (by simpa using hm₂)⟩
    have hu₂ := hm'.unfolds hu' (by simpa using hm₁.nodup)
    simpa using Unfolds.list hs' hl' hr hu₂ .nil

private theorem simulates_item {l : String} {p : Pool} {x y : p.Item} {ps : List SlotPart}
    (h : (Task.parts (p.slots l x).parts).Simulates F R d c c₁ ps)
    (hy : (p.slots l x).Refills ps y) :
    SlotPart.Simulates (Tree.replaceItem (Tree.traverseSlots F d)) R c c₁ (.item l p x)
      (.item l p y) := by
  intro q T fp hq hT hn
  obtain ⟨us, hu, rfl⟩ := hT.exists_of_item
  obtain ⟨q', us', fp', ht, hq', hu', hm⟩ := h q us fp hq hu hn
  refine ⟨q', _, fp', Tree.replaceItem_eq ht, hq', ?_, hm⟩
  rw [← (p.lawful l).parts_eq hy] at hu'
  rw [← (p.lawful l).blank_eq hy]
  simpa using Unfolds.item hu' .nil

/-- One item is done and written to its cell, then the rest of the list. -/
private theorem simulates_itemsNext {l : String} {p : Pool} {seg : Segment p} {m i : Nat}
    {x y : p.Item} {s : Store} (hx : c.store.item seg i = .ok x)
    (hv : SlotPart.Simulates (Tree.replaceItem (Tree.traverseSlots F d)) R c c₁ (.item l p x)
      (.item l p y))
    (hs : StoreM.setItem seg i y c₁.store = .ok () s)
    (hw : (Task.items l p seg m (i + 1)).Simulates F R d ⟨s, c₁.state⟩ c₂ ()) :
    (Task.items l p seg (m + 1) i).Simulates F R d c c₂ () := by
  intro q xs us fp hq hl hr hu hn
  obtain _ | ⟨x', xs⟩ := xs
  · cases hl
  obtain rfl : x' = x := Option.some.inj (hr.1.symm.trans (Store.getElem?_of_item hx))
  obtain rfl : xs.length = m := Nat.succ.inj hl
  obtain ⟨T, us, fp₁, fp₂, rfl, rfl, hT, hTs⟩ := hu.exists_of_cons
  -- the cell of the item goes with the item, the other cells with the rest
  rw [cells, Nat.add_assoc, add_add_add_comm] at hn
  obtain ⟨hn₁, hn₂, -⟩ := Multiset.nodup_add.mp hn
  have hg := forall_mem_add hr.2.allocated hTs.allocated
  obtain ⟨q₁, T₁, fp₁', ht₁, hq₁, hT₁, hm₁⟩ := hv q T fp₁ hq hT (Multiset.nodup_add.mp hn₁).2.1
  obtain ⟨hm₂, hy⟩ := StoreM.moves_setItem hs
  have hm₁' := hm₁.frame_left hn₁ (forall_mem_cell hr.1)
  have hmA := hm₁'.trans (hm₂.frame hm₁'.nodup hT₁.allocated)
  have hT₁' := hm₂.unfolds hT₁ hm₁'.nodup
  obtain ⟨hr', hTs'⟩ := hmA.rest hr.2 hTs hn
  obtain ⟨q₂, ys, us', fp₂', ht₂, hq₂, hl₂, hr₂, hu₂, hmB⟩ := hw q₁ xs us fp₂ hq₁ rfl hr' hTs' hn₂
  have hn₃ := (hmA.frame hn hg).nodup
  rw [add_comm] at hn₃
  refine ⟨q₂, y :: ys, _, _, Tree.replaceEach_cons ht₁ ht₂, hq₂, by rw [List.length_cons, hl₂],
    ⟨?_, hr₂⟩, (hmB.unfolds hT₁' ?_).append hu₂, ?_⟩
  · exact hmB.getElem? hy (nodup_of_eq_add _ hn₃ (add_assoc _ _ _).symm)
  · exact nodup_of_eq_add {.cell p (seg.start.toNat + i)} hn₃ (by abel)
  · rw [cells, add_add_add_comm, add_add_add_comm _ _ fp₁']
    exact hmA.seq hmB hn hg (forall_mem_add (forall_mem_cell hy) hT₁'.allocated)

/-- One statement is visited and its answer is taken, then the rest of the list. -/
private theorem simulates_stmtsNext {l : String} {seg : Segment .stmts} {m i : Nat} {x : Id .stmt}
    {out out' res : Option (Array (Id .stmt))} {s : Store} {w : List Mark}
    (hx : c.store.item seg i = .ok x)
    (hv : (Task.visit (.item l) (.stored x)).Simulates F R d c c₁ r)
    (ht : Takes l seg i c₁.store out r w out' s)
    (hw : (Task.stmts l seg m (i + 1) out').Simulates F R d ⟨s, c₁.state⟩ c₂ res) :
    (Task.stmts l seg (m + 1) i out).Simulates F R d c c₂ res := by
  intro q xs us fp zs hq hl hr hu hn hz hp
  obtain _ | ⟨x', xs⟩ := xs
  · cases hl
  obtain rfl : x' = x := Option.some.inj (hr.1.symm.trans (Store.getElem?_of_item hx))
  obtain rfl : xs.length = m := Nat.succ.inj hl
  obtain ⟨T₀, us, fp₁, fp₂, rfl, rfl, hT₀, hTs⟩ := hu.exists_of_cons
  obtain ⟨T, rfl, hT⟩ := hT₀.exists_of_stmt_item
  rw [cells, Nat.add_assoc, add_add_add_comm] at hn hp
  obtain ⟨hn₁, hn₂, -⟩ := Multiset.nodup_add.mp hn
  have hg := forall_mem_add hr.2.allocated hTs.allocated
  have hcell := forall_mem_cell hr.1
  obtain ⟨q₁, T₁, fp₁', ht₁, hq₁, hT₁, hm₁⟩ :=
    hv q T fp₁ hq ⟨hT, (Multiset.nodup_add.mp hn₁).2.1⟩
  have hm₁' := hm₁.frame_left hn₁ hcell
  have hz₁ := hz.moves hm₁ fun ho => nodup_of_eq_add ({.cell .stmts (seg.start.toNat + i)} +
    (cells .stmts (seg.start.toNat + (i + 1)) xs.length + fp₂)) (hp ho) (by abel)
  obtain ⟨ids, us₁, gp, hsp, hu₁, hz₂, hmT⟩ :=
    ht.simulates hT₁ hm₁'.nodup hz₁ (Store.lt_length_of_item hx)
  have hmA := hm₁'.trans hmT
  -- while nothing is collected, the contents up to the next item stay out of reach of the rest
  have hp₂ : out' = none → (cells .stmts (seg.start.toNat + (i + 1)) xs.length + fp₂ +
      cells .stmts seg.start.toNat (i + 1)).Nodup := by
    intro ho
    refine nodup_of_eq_add fp₁ (hp (ht.eq_none ho)) ?_
    rw [cells_add, cells, cells, add_zero]
    abel
  obtain ⟨hr', hTs'⟩ := hmA.rest hr.2 hTs hn
  obtain ⟨q₂, ids₂, us₂, fp₂', ht₂, hq₂, hz₃, hu₂, hmB⟩ :=
    hw q₁ xs us fp₂ (zs ++ ids) hq₁ rfl hr' hTs' hn₂ hz₂ hp₂
  have hn₃ := (hmA.frame hn hg).nodup
  rw [add_comm] at hn₃
  have hst := Tree.replaceEach_cons (Tree.replaceStmt_eq ht₁ hsp) ht₂
  refine ⟨q₂, ids ++ ids₂, _, gp + fp₂', hst, hq₂, ?_, ?_, ?_⟩
  · rw [← List.append_assoc, show i + (xs.length + 1) = i + 1 + xs.length by omega]
    exact hz₃
  · rw [List.map_append]
    refine (hmB.unfolds hu₁ ?_).append hu₂
    exact nodup_of_eq_add {.cell .stmts (seg.start.toNat + i)} hn₃ (by abel)
  · rw [cells, add_add_add_comm, add_add_add_comm _ _ gp]
    refine hmA.seq hmB hn hg (forall_mem_add ?_ hu₁.allocated)
    exact fun a ha => hmA.grows.allocated (hcell a ha)

/-- Every task of a transformer that implements `F` simulates the traversal of trees. -/
theorem Completes.simulates (ht : t.Implements F R) {k : Task} {w : List Mark} {r : k.Result}
    (h : Completes t d k c w r c') : k.Simulates F R d c c' r := by
  induction h with
  | stay hr => exact simulates_stay ht hr
  | down hr hx hw hy hc hl ih => exact simulates_down ht hr hx ih hy hc hl
  | @nil d c =>
    intro q Ts fp hq hu hn
    obtain ⟨rfl, rfl⟩ := hu.eq_of_nil
    exact ⟨q, [], 0, rfl, hq, .nil, .refl _ hn⟩
  | node hv hk hw ihv ihw => exact (simulates_node ihv hk).cons ihw
  | list hp hs hi hw ihi ihw => exact (simulates_list hp ihi).cons ihw
  | stmts hs hi hc hw ihi ihw => exact (simulates_stmts ihi hc).cons ihw
  | itemsDone =>
    intro q xs us fp hq hl hr hu hn
    obtain rfl := List.eq_nil_of_length_eq_zero hl
    obtain ⟨rfl, rfl⟩ := hu.eq_of_nil
    exact ⟨q, [], [], 0, rfl, hq, rfl, trivial, .nil, .refl _ hn⟩
  | itemsNext hx hv hy hs hw ihv ihw => exact simulates_itemsNext hx (simulates_item ihv hy) hs ihw
  | stmtsDone =>
    intro q xs us fp zs hq hl hr hu hn hz hp
    obtain rfl := List.eq_nil_of_length_eq_zero hl
    obtain ⟨rfl, rfl⟩ := hu.eq_of_nil
    refine ⟨q, [], [], 0, rfl, hq, ?_, .nil, .refl _ hn⟩
    rwa [List.append_nil]
  | stmtsNext hx hv ha hw ihv ihw => exact simulates_stmtsNext hx ihv ha ihw

end Rules

/-- **Refinement.** If a run of a transformer that implements `F` returns from a tree-shaped root,
the node it returns is tree-shaped in the final store, and its only unfolding is what
`Tree.traverse` makes of the tree of the root, for every bound from the depth of the run on. The
final states are related, and nothing outside of the tree of the root is overwritten. -/
theorem Transformer.run_refines {t : Transformer σ} {F : τ → Tree → τ × Tree × Bool}
    {R : σ → τ → Prop} (ht : t.Implements F R) {depth : Nat} {root r : Node} {store : Store}
    {state : σ} {q : τ} {T : Tree} {fp : Multiset Address} (hT : store.TreeShaped root T fp)
    (hq : R state q) (hr : (t.run depth root store state).result = .ok r) :
    ∃ q' T' fp', (∀ e, depth ≤ e → Tree.traverse F e q T = some (q', T')) ∧
      R (t.run depth root store state).state q' ∧
      (t.run depth root store state).store.TreeShaped r T' fp' ∧
      (∀ U gp, Unfolds (t.run depth root store state).store [.node "" r] [U] gp → U = T') ∧
      Moves store fp (t.run depth root store state).store fp' := by
  obtain ⟨w, hw⟩ := t.exists_history depth root store state
  obtain ⟨q', T', fp', htr, hq', hu, hm⟩ := (hw.completes hr).simulates ht q T fp hq hT
  refine ⟨q', T', fp', fun e he => Tree.traverse_mono he htr, hq', ⟨hu, hm.nodup⟩,
    fun U gp hU => ?_, hm⟩
  have hUT : [U] = [T'] := (hU.unique hu).1
  exact List.singleton_inj.mp hUT

/-! ### Pruning -/

/-- Keeps the first nodes that it is shown, as many as its state says, and afterwards answers every
statement by no statement at all. -/
def prune : Transformer Nat where
  replace := fun n ⟨s, k⟩ =>
    if k = 0 ∧ n.kind = .stored .stmt then .ok (.expandedBlock ⟨.empty⟩, false) ⟨s, k⟩
    else .ok (n, true) ⟨s, k - 1⟩

/-- The tree of an expanded block without statements. -/
def Tree.noStmts : Tree :=
  mk (.node .expandedBlock ⟨.empty⟩) [mk (.list .stmts) []]

/-- What `prune` does, on trees. -/
def pruneTree (k : Nat) (T : Tree) : Nat × Tree × Bool :=
  if k = 0 ∧ T.kind? = some (.stored .stmt) then (k, .noStmts, false) else (k - 1, T, true)

private theorem Unfolds.kind?_eq {s : Store} {l : String} {n : Node} {T : Tree}
    {fp : Multiset Address} (h : Unfolds s [.node l n] [T] fp) : T.kind? = some n.kind := by
  obtain ⟨x, us, gp, -, -, rfl, -⟩ := h.exists_of_node
  rfl

private theorem prune_implements : prune.Implements pruneTree Eq where
  replace := by
    rintro n a b ⟨s, k⟩ c' q T fp ⟨hT, hn⟩ rfl hr
    have hk : k = 0 ∧ T.kind? = some (.stored .stmt) ↔ k = 0 ∧ n.kind = .stored .stmt := by
      rw [hT.kind?_eq, Option.some_inj]
    simp only [prune] at hr
    split at hr
    · next hp =>
      cases hr
      refine ⟨k, .noStmts, 0, ?_, rfl, ⟨.refl s, fun a _ => .refl s a⟩,
        ⟨?_, Multiset.nodup_zero⟩, ?_⟩
      · exact if_pos (hk.mpr hp)
      · have hr : s.Reads .stmts 0 [] := trivial
        have hL : Unfolds s (Block.slots ⟨.empty⟩).parts [.mk (.list .stmts) []] (0 + 0 + 0) :=
          .list (Nat.zero_le _) rfl hr .nil .nil
        exact Unfolds.node (n := .expandedBlock ⟨.empty⟩) rfl hL .nil
      · exact fun x hx => absurd hx (Multiset.notMem_zero x)
    · next hp =>
      cases hr
      refine ⟨k - 1, T, fp, ?_, rfl, ⟨.refl s, fun a _ => .refl s a⟩, ⟨hT, hn⟩, fun x hx => .inl hx⟩
      exact if_neg fun h => hp (hk.mp h)
  leave := by
    rintro c c' q hl hq
    cases hl
    exact ⟨hq, .refl c.store, fun a _ => .refl c.store a⟩

/-- A block of two statements, the first of which is a block again. -/
def hedge : Store where
  tables := { stmts := .ofNodes #[.block ⟨0, 2⟩, .block ⟨2, 1⟩, .bad, .bad] }
  buffers := { stmts := #[⟨1⟩, ⟨2⟩, ⟨3⟩] }

theorem hedge_treeShaped :
    ∃ T fp, hedge.TreeShaped (.stored (⟨0⟩ : Id .stmt)) T fp := by
  have hr₁ : hedge.Reads .stmts 2 [⟨3⟩] := ⟨rfl, trivial⟩
  have hr₀ : hedge.Reads .stmts 0 [⟨1⟩, ⟨2⟩] := ⟨rfl, rfl, trivial⟩
  refine ⟨_, _, .node rfl (.list (by decide) rfl hr₀ (.item (.node rfl (.list (by decide) rfl hr₁
    (.item (.node rfl .nil .nil) .nil) .nil) .nil) (.item (.node rfl .nil .nil) .nil)) .nil) .nil,
    ?_⟩
  decide

/-- Of the block, the inner block is kept, and all other statements are dropped. -/
theorem run_refines_prune :
    let out := prune.run 9 (.stored (⟨0⟩ : Id .stmt)) hedge 2
    out.result = .ok (.stored (⟨0⟩ : Id .stmt)) ∧ out.state = 0 ∧
      ∃ T T' fp fp', hedge.TreeShaped (.stored (⟨0⟩ : Id .stmt)) T fp ∧
        Tree.traverse pruneTree 9 2 T = some (0, T') ∧
        out.store.TreeShaped (.stored (⟨0⟩ : Id .stmt)) T' fp' ∧ Moves hedge fp out.store fp' := by
  intro out
  obtain ⟨T, fp, hT⟩ := hedge_treeShaped
  have hr : out.result = .ok (.stored (⟨0⟩ : Id .stmt)) := rfl
  obtain ⟨q', T', fp', ht, hq', hT', -, hm⟩ :=
    Transformer.run_refines prune_implements hT (rfl : 2 = 2) hr
  obtain rfl : 0 = q' := hq'
  exact ⟨hr, rfl, T, T', fp, fp', hT, ht 9 (Nat.le_refl 9), hT', hm⟩

end GoTree
