import GoTree.Profile.Run
import GoTree.Proofs.AcyclicStores

/-!
# Counting the nodes of a tree

`Profile.counter true` keeps every node and counts what it sees. Where parts of a store have
outlines, it sees each place of the outlines once and no others, so that the count is the number of
nodes in the outlines (`Outlines.counts`), the store stays as it is, and the height of the outlines
is depth enough. `Counts s d k ps` says this of slots `ps` that hold `k` nodes.
-/

namespace GoTree

section

variable {σ : Type} {t : Transformer σ} {d : Nat} {c c' : Context σ} {w : List Mark} {n r : Node}

/-- A visit goes the same way wherever the node was found. -/
theorem Completes.relocate {o : Origin} (h : Completes t d (.visit o n) c w r c') (o' : Origin) :
    ∃ w', Completes t d (.visit o' n) c w' r c' := by
  cases h with
  | stay hr => exact ⟨_, .stay hr⟩
  | down hr hx hw hy hc hl => exact ⟨_, .down hr hx hw hy hc hl⟩

end

namespace Profile

/-- Within depth `d` the slots `ps` are kept, and `k` nodes are counted in them. -/
def Counts (s : Store) (d k : Nat) (ps : List SlotPart) : Prop :=
  ∀ q, ∃ w, Completes (counter true) d (.parts ps) ⟨s, q⟩ w ps ⟨s, q + k⟩

namespace Counts

variable {s : Store} {d j k : Nat} {l : String} {ps : List SlotPart}

theorem nil : Counts s (d + 1) 0 [] :=
  fun _ => ⟨[], .nil⟩

theorem cons {p : SlotPart} (h : Counts s (d + 1) j [p]) (ht : Counts s (d + 1) k ps) :
    Counts s (d + 1) (j + k) (p :: ps) := by
  intro q
  obtain ⟨u, hu⟩ := h q
  obtain ⟨w, hw⟩ := ht (q + j)
  rw [Nat.add_assoc] at hw
  exact ⟨u ++ w, Transformer.completes_cons hu hw⟩

/-- A node is counted, and then what is below it. -/
theorem visit {n : Node} {x : n.kind.Body} (hx : n.body? s = some x)
    (h : Counts s d k (n.kind.bodySlots x).parts) (o : Origin) (q : Nat) :
    ∃ w, Completes (counter true) d (.visit o n) ⟨s, q⟩ w n ⟨s, q + (k + 1)⟩ := by
  obtain ⟨w, hw⟩ := h (q + 1)
  rw [Nat.add_right_comm, Nat.add_assoc] at hw
  have hy : (n.kind.bodySlots x).Refills (n.kind.bodySlots x).parts x :=
    Slots.refills_parts_iff.mpr (n.kind.lawful.rebuild x).symm
  rcases hc : n.close x s with ⟨r, s'⟩ | ⟨f, s'⟩
  · obtain ⟨rfl, rfl⟩ := n.close_of_body? hx hc
    exact ⟨_, .down rfl hx hw hy hc rfl⟩
  · exact absurd hc (Node.close_ne_error hx (.refl s))

private theorem node {n : Node} {x : n.kind.Body} (hx : n.body? s = some x)
    (h : Counts s d k (n.kind.bodySlots x).parts) : Counts s (d + 1) (k + 1) [.node l n] := by
  intro q
  obtain ⟨w, hw⟩ := visit hx h (.slot l) q
  exact ⟨w ++ [], .node hw rfl .nil⟩

/-- A node that is counted in a slot is counted wherever it is found. -/
private theorem of_node {n : Node} (h : Counts s d k [.node l n]) (o : Origin) (q : Nat) :
    ∃ w, Completes (counter true) d (.visit o n) ⟨s, q⟩ w n ⟨s, q + k⟩ := by
  obtain ⟨w, hw⟩ := h q
  cases hw with
  | node hv hk hn =>
    cases hn
    obtain ⟨w', hw'⟩ := hv.relocate o
    exact ⟨w', hw'.mono (Nat.le_succ _)⟩

/-! ### Lists -/

variable {us : List Outline}

/-- Items are counted one by one. -/
theorem items (hm : s.Small) {p : Pool} {seg : Segment p} {n i : Nat} {xs : List p.Item}
    (hs : seg.stop ≤ (s.buffer p).size) (hi : i + n = seg.length) (hl : xs.length = n)
    (hx : s.Reads p (seg.start.toNat + i) xs)
    (h : List.Forall₂ (fun x u => Counts s d u.preorder.length (p.slots l x).parts) xs us)
    (q : Nat) : ∃ w, Completes (counter true) d (.items l p seg n i) ⟨s, q⟩ w ()
      ⟨s, q + (Outline.preorderAll us).length⟩ := by
  induction h generalizing n i q with
  | nil =>
    subst hl
    exact ⟨[], .itemsDone⟩
  | @cons x u xs us hcount _ ih =>
    subst hl
    obtain ⟨v, hv⟩ := hcount q
    obtain ⟨hread, hwrite⟩ := hm.item_and_setItem hs hi hx.1
    obtain ⟨w, hw⟩ := ih (i := i + 1) (by rw [← hi, List.length_cons]; omega) rfl hx.2
      (q + u.preorder.length)
    rw [Outline.preorderAll, List.length_append, ← Nat.add_assoc]
    exact ⟨v ++ w, .itemsNext hread hv
      (Slots.refills_parts_iff.mpr ((p.lawful l).rebuild x).symm) hwrite hw⟩

/-- Statements too, each of which is visited by itself. -/
private theorem stmts (hm : s.Small) {seg : Segment .stmts} {n i : Nat} {xs : List (Id .stmt)}
    (hs : seg.stop ≤ (s.buffer .stmts).size) (hi : i + n = seg.length) (hl : xs.length = n)
    (hx : s.Reads .stmts (seg.start.toNat + i) xs)
    (h : List.Forall₂ (fun x u => Counts s d u.preorder.length [.node l (.stored x)]) xs us)
    (q : Nat) : ∃ w, Completes (counter true) d (.stmts l seg n i none) ⟨s, q⟩ w none
      ⟨s, q + (Outline.preorderAll us).length⟩ := by
  induction h generalizing n i q with
  | nil =>
    subst hl
    exact ⟨[], .stmtsDone⟩
  | @cons x u xs us hcount _ ih =>
    subst hl
    obtain ⟨v, hv⟩ := hcount.of_node (.item l) q
    obtain ⟨hread, hwrite⟩ := hm.item_and_setItem hs hi hx.1
    obtain ⟨w, hw⟩ := ih (i := i + 1) (by rw [← hi, List.length_cons]; omega) rfl hx.2
      (q + u.preorder.length)
    rw [Outline.preorderAll, List.length_append, ← Nat.add_assoc]
    exact ⟨v ++ [] ++ w, .stmtsNext hread hv (.write hwrite) hw⟩

private theorem list (hm : s.Small) {p : Pool} {seg : Segment p} {xs : List p.Item}
    (hs : seg.stop ≤ (s.buffer p).size) (hl : xs.length = seg.length)
    (hx : s.Reads p seg.start.toNat xs)
    (h : List.Forall₂ (fun x u => Counts s d u.preorder.length (p.slots l x).parts) xs us) :
    Counts s (d + 1) (Outline.preorderAll us).length [.list l p seg] := by
  intro q
  by_cases hp : p = .stmts
  · subst hp
    obtain ⟨w, hw⟩ := stmts hm hs (Nat.zero_add _) hl hx h q
    exact ⟨w ++ [], .stmts hs hw rfl .nil⟩
  · obtain ⟨w, hw⟩ := items hm hs (Nat.zero_add _) hl hx h q
    exact ⟨w ++ [], .list hp hs hw .nil⟩

end Counts

/-! ### Outlines -/

section

variable {s : Store} {d : Nat} {ps : List SlotPart} {os : List Outline} {fp : Multiset Address}

/-- The slots of a node or of an item, counted one by one, are counted together. -/
theorem Counts.of_forall₂ {α : Type} {x : Slots α} (h : List.Forall₂
      (fun p o => Counts s (d + 1) o.preorder.length p.slots) x.parts os) :
    Counts s (d + 1) (Outline.preorderAll os).length x.parts := by
  have hslots : ∀ p ∈ x.parts, p.slots = [p] := by
    intro p hp
    have hslot := Slots.isSlot_of_mem_parts hp
    cases p with
    | node => rfl
    | list => rfl
    | item => exact absurd hslot id
  generalize x.parts = ps at h hslots ⊢
  induction h with
  | nil => exact .nil
  | cons hp _ ih =>
    obtain ⟨hslot, hrest⟩ := List.forall_mem_cons.mp hslots
    rw [hslot] at hp
    rw [Outline.preorderAll, List.length_append]
    exact hp.cons (ih hrest)

end

end Profile

open Profile

/-- **The count is the number of nodes.** What has outlines is counted by their places. -/
theorem Outlines.counts {s : Store} {ps : List SlotPart} {os : List Outline}
    {fp : Multiset Address} (h : Outlines s ps os fp) (hm : s.Small) {d : Nat}
    (hd : Outline.heightAll os ≤ d) :
    List.Forall₂ (fun p o => Counts s d o.preorder.length p.slots) ps os := by
  induction h generalizing d with
  | nil => exact .nil
  | @node l n x ps us os fp gp hx _ _ ihu iht =>
    obtain ⟨hus, hos⟩ := Outline.heightAll_cons_le_iff.mp hd
    obtain ⟨e, rfl⟩ : ∃ e, d = e + 1 + 1 := ⟨d - 2, by
      have := Outline.one_le_heightAll us
      rw [Outline.height] at hus
      omega⟩
    have hbelow := Counts.of_forall₂ (ihu (Nat.le_of_succ_le_succ hus))
    exact .cons (hbelow.node hx) (iht hos)
  | @list l p seg xs ps us os fp gp hs hl hx _ _ ihu iht =>
    obtain ⟨hus, hos⟩ := Outline.heightAll_cons_le_iff.mp hd
    obtain ⟨e, rfl⟩ : ∃ e, d = e + 1 := Nat.exists_eq_add_one.mpr (Nat.lt_of_lt_of_le (by simp) hus)
    have hitems := List.forall₂_map_left_iff.mp (ihu (Nat.le_of_succ_le_succ hus))
    exact .cons (Counts.list hm hs hl hx hitems) (iht hos)
  | @item l p x ps us os fp gp _ _ ihu iht =>
    obtain ⟨hus, hos⟩ := Outline.heightAll_cons_le_iff.mp hd
    obtain ⟨e, rfl⟩ : ∃ e, d = e + 1 := Nat.exists_eq_add_one.mpr (Nat.lt_of_lt_of_le (by simp) hus)
    exact .cons (Counts.of_forall₂ (ihu (Nat.le_of_succ_le hus))) (iht hos)

/-- The counter leaves a tree that has an outline as it is and counts its nodes. -/
theorem Outlines.run_counter {s : Store} {l : String} {n : Node} {o : Outline}
    {fp : Multiset Address} (h : Outlines s [.node l n] [o] fp) (hm : s.Small) {depth : Nat}
    (hd : o.height ≤ depth) (q : Nat) :
    ((counter true).run depth n s q).result = .ok n ∧
      ((counter true).run depth n s q).store = s ∧
      ((counter true).run depth n s q).state = q + o.preorder.length := by
  obtain ⟨x, us, gp, hx, hus, ho, -⟩ := h.exists_of_node
  cases ho
  obtain ⟨e, rfl⟩ : ∃ e, depth = e + 1 :=
    Nat.exists_eq_add_one.mpr (Nat.lt_of_lt_of_le (Outline.one_le_heightAll us) hd)
  obtain ⟨w, hw⟩ := (Counts.of_forall₂ (hus.counts hm hd)).visit hx .root q
  rw [hw.run_eq]
  exact ⟨rfl, rfl, rfl⟩

end GoTree
