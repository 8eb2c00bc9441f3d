import GoTree.Proofs.IdentityWalk
import GoTree.Proofs.TraceLaw

/-!
# Outlines

The trees of `GoTree.Proofs.Unfolding` say what a node unfolds to, but not which nodes it is made
of. An **outline** is an unfolding with its nodes: every node that a traversal can show to a
transformer stands at a place of its own, and lists and their items, which are never shown, only
group what is below them. `Outlines s ps os fp` says that in the store `s` the parts `ps` have the
outlines `os`, with the same footprint as their unfolding.

The words of `GoTree.Proofs.TraceLaw` read the children of a node off the running traversal.
`Spells os w` says that `w` is such a word in which every call is made at its place of the outlines
`os`: at each place in its turn the transformer is given the node that stands there, and below a
place where it goes on, the places below follow. So the nodes that are given in a word stand at
different places, in the order of the outline (`Spells.sublist_preorder`).
-/

namespace GoTree

/-- The nodes of an unfolding, each at its place. -/
inductive Outline where
  | node (n : Node) (below : List Outline)
  /-- A list or an item of a list. -/
  | group (below : List Outline)

namespace Outline

mutual

/-- The nodes of an outline, from left to right and each before those below it. -/
def preorder : Outline → List Node
  | node n us => n :: preorderAll us
  | group us => preorderAll us

/-- The nodes of a list of outlines. -/
def preorderAll : List Outline → List Node
  | [] => []
  | o :: os => o.preorder ++ preorderAll os

end

mutual

/-- The depth that suffices to traverse what is below an outline. -/
def height : Outline → Nat
  | node _ us => heightAll us
  | group us => heightAll us

/-- The depth that suffices to traverse a list of outlines. -/
def heightAll : List Outline → Nat
  | [] => 1
  | o :: os => max (o.height + 1) (heightAll os)

end

theorem one_le_heightAll (os : List Outline) : 1 ≤ heightAll os := by
  induction os with
  | nil => exact Nat.le_refl 1
  | cons o os ih => exact Nat.le_trans ih (Nat.le_max_right _ _)

theorem heightAll_cons_le_iff {o : Outline} {os : List Outline} {d : Nat} :
    heightAll (o :: os) ≤ d ↔ o.height + 1 ≤ d ∧ heightAll os ≤ d := by
  rw [heightAll]
  exact Nat.max_le

/-- An outline is as high by itself as it is among others. -/
theorem heightAll_singleton_le {o : Outline} {os : List Outline} {d : Nat}
    (h : heightAll (o :: os) ≤ d) : heightAll [o] ≤ d := by
  rw [heightAll_cons_le_iff] at h ⊢
  exact ⟨h.1, Nat.le_trans (one_le_heightAll os) h.2⟩

end Outline

/-! ### The outlines in a store -/

/-- In the store `s`, parts have outlines with a footprint. -/
inductive Outlines (s : Store) : List SlotPart → List Outline → Multiset Address → Prop where
  | nil : Outlines s [] [] 0
  | node {l : String} {n : Node} {x : n.kind.Body} {ps : List SlotPart} {us os : List Outline}
      {fp gp : Multiset Address} (hx : n.body? s = some x)
      (hu : Outlines s (n.kind.bodySlots x).parts us fp) (ht : Outlines s ps os gp) :
      Outlines s (.node l n :: ps) (.node n us :: os) (n.footprint + fp + gp)
  | list {l : String} {p : Pool} {seg : Segment p} {xs : List p.Item} {ps : List SlotPart}
      {us os : List Outline} {fp gp : Multiset Address} (hs : seg.stop ≤ (s.buffer p).size)
      (hl : xs.length = seg.length) (hx : s.Reads p seg.start.toNat xs)
      (hu : Outlines s (xs.map (.item l p)) us fp) (ht : Outlines s ps os gp) :
      Outlines s (.list l p seg :: ps) (.group us :: os)
        (cells p seg.start.toNat seg.length + fp + gp)
  | item {l : String} {p : Pool} {x : p.Item} {ps : List SlotPart} {us os : List Outline}
      {fp gp : Multiset Address} (hu : Outlines s (p.slots l x).parts us fp)
      (ht : Outlines s ps os gp) : Outlines s (.item l p x :: ps) (.group us :: os) (fp + gp)

/-- What unfolds has an outline. -/
theorem Unfolds.exists_outlines {s : Store} {ps : List SlotPart} {ts : List Tree}
    {fp : Multiset Address} (h : Unfolds s ps ts fp) : ∃ os, Outlines s ps os fp := by
  induction h with
  | nil => exact ⟨[], .nil⟩
  | node hx _ _ ihu iht =>
    obtain ⟨us, hu⟩ := ihu
    obtain ⟨os, ht⟩ := iht
    exact ⟨_, .node hx hu ht⟩
  | list hs hl hx _ _ ihu iht =>
    obtain ⟨us, hu⟩ := ihu
    obtain ⟨os, ht⟩ := iht
    exact ⟨_, .list hs hl hx hu ht⟩
  | item _ _ ihu iht =>
    obtain ⟨us, hu⟩ := ihu
    obtain ⟨os, ht⟩ := iht
    exact ⟨_, .item hu ht⟩

namespace Outlines

variable {s s' : Store} {ps : List SlotPart} {os : List Outline} {fp : Multiset Address}

theorem exists_unfolds (h : Outlines s ps os fp) : ∃ ts, Unfolds s ps ts fp := by
  induction h with
  | nil => exact ⟨[], .nil⟩
  | node hx _ _ ihu iht =>
    obtain ⟨us, hu⟩ := ihu
    obtain ⟨ts, ht⟩ := iht
    exact ⟨_, .node hx hu ht⟩
  | list hs hl hx _ _ ihu iht =>
    obtain ⟨us, hu⟩ := ihu
    obtain ⟨ts, ht⟩ := iht
    exact ⟨_, .list hs hl hx hu ht⟩
  | item _ _ ihu iht =>
    obtain ⟨us, hu⟩ := ihu
    obtain ⟨ts, ht⟩ := iht
    exact ⟨_, .item hu ht⟩

theorem allocated (h : Outlines s ps os fp) : ∀ a ∈ fp, s.Allocated a := by
  obtain ⟨ts, hts⟩ := h.exists_unfolds
  exact hts.allocated

/-- Outlines depend on the footprint alone. -/
theorem frame (h : Outlines s ps os fp) (hg : s.Grows s') (hs : ∀ a ∈ fp, s.SameAt s' a) :
    Outlines s' ps os fp := by
  induction h with
  | nil => exact .nil
  | node hx hu ht ihu iht =>
    simp only [Multiset.mem_add] at hs
    have hb := Node.body?_frame fun a ha => hs a (.inl (.inl ha))
    exact .node (hb.trans hx) (ihu fun a ha => hs a (.inl (.inr ha)))
      (iht fun a ha => hs a (.inr ha))
  | @list l p seg xs ps us os fp gp hb hl hx hu ht ihu iht =>
    simp only [Multiset.mem_add] at hs
    refine .list (Nat.le_trans hb (hg.buffer p)) hl (hx.frame fun a ha => ?_)
      (ihu fun a ha => hs a (.inl (.inr ha))) (iht fun a ha => hs a (.inr ha))
    rw [hl] at ha
    exact hs a (.inl (.inl ha))
  | item hu ht ihu iht =>
    simp only [Multiset.mem_add] at hs
    exact .item (ihu fun a ha => hs a (.inl ha)) (iht fun a ha => hs a (.inr ha))

/-- The first part has an outline by itself. -/
theorem exists_of_cons {q : SlotPart} (h : Outlines s (q :: ps) os fp) :
    ∃ o us fp₁ fp₂, os = o :: us ∧ fp = fp₁ + fp₂ ∧ Outlines s [q] [o] fp₁ ∧
      Outlines s ps us fp₂ := by
  cases h with
  | node hx hu ht => exact ⟨_, _, _, _, rfl, rfl, by simpa using node hx hu .nil, ht⟩
  | list hs hl hx hu ht => exact ⟨_, _, _, _, rfl, rfl, by simpa using list hs hl hx hu .nil, ht⟩
  | item hu ht => exact ⟨_, _, _, _, rfl, rfl, by simpa using item hu .nil, ht⟩

theorem exists_of_node {l : String} {n : Node} (h : Outlines s [.node l n] os fp) :
    ∃ x us gp, n.body? s = some x ∧ Outlines s (n.kind.bodySlots x).parts us gp ∧
      os = [.node n us] ∧ fp = n.footprint + gp := by
  cases h with
  | node hx hu ht =>
    cases ht
    exact ⟨_, _, _, hx, hu, rfl, add_zero _⟩

theorem exists_of_item {l : String} {p : Pool} {x : p.Item}
    (h : Outlines s [.item l p x] os fp) :
    ∃ us, Outlines s (p.slots l x).parts us fp ∧ os = [.group us] := by
  cases h with
  | item hu ht =>
    cases ht
    exact ⟨_, by simpa using hu, rfl⟩

end Outlines

/-! ### Words at the places of an outline -/

/-- Words whose calls are made at the places of outlines. -/
inductive Spells : List Outline → List Event → Prop where
  | nil : Spells [] []
  /-- The transformer does not go on, so the places below are passed over. -/
  | stay {n : Node} {us os : List Outline} {w : List Event} (a : Node) (h : Spells os w) :
      Spells (.node n us :: os) (.call n :: .answer a false :: w)
  /-- The transformer goes on with the node that it was given. -/
  | down {n : Node} {us os : List Outline} {u w : List Event} (hu : Spells us u)
      (hw : Spells os w) :
      Spells (.node n us :: os) (.call n :: .answer n true :: (u ++ .leave :: w))
  | group {us os : List Outline} {u w : List Event} (hu : Spells us u) (hw : Spells os w) :
      Spells (.group us :: os) (u ++ w)

namespace Spells

variable {o : Outline} {os : List Outline} {u w : List Event}

/-- A word of the first outline, then one of the others. -/
theorem cons (h : Spells [o] u) (hw : Spells os w) : Spells (o :: os) (u ++ w) := by
  cases h with
  | stay a h =>
    cases h
    exact .stay a hw
  | down hu h =>
    cases h
    simpa using Spells.down hu hw
  | group hu h =>
    cases h
    simpa using Spells.group hu hw

mutual

/-- Every outline has a word. -/
theorem exists_of_outline : (o : Outline) → ∃ w, Spells [o] w
  | .node n _ => ⟨_, .stay n .nil⟩
  | .group us => by
    obtain ⟨u, hu⟩ := exists_of_outlines us
    exact ⟨_, .group hu .nil⟩

theorem exists_of_outlines : (os : List Outline) → ∃ w, Spells os w
  | [] => ⟨[], .nil⟩
  | o :: os => by
    obtain ⟨u, hu⟩ := exists_of_outline o
    obtain ⟨w, hw⟩ := exists_of_outlines os
    exact ⟨_, hu.cons hw⟩

end

/-- `w` is the beginning of a word of the outlines. -/
def Begins (os : List Outline) (w : List Event) : Prop :=
  ∃ rest, Spells os (w ++ rest)

theorem begins (h : Spells os w) : Begins os w :=
  ⟨[], by rwa [List.append_nil]⟩

theorem begins_nil (os : List Outline) : Begins os [] :=
  exists_of_outlines os

namespace Begins

/-- A word may break off in the first outline. -/
theorem cons (h : Begins [o] w) (os : List Outline) : Begins (o :: os) w := by
  obtain ⟨rest, h⟩ := h
  obtain ⟨v, hv⟩ := exists_of_outlines os
  exact ⟨rest ++ v, by simpa using h.cons hv⟩

/-- A word may break off after the first outline. -/
theorem append (h : Spells [o] u) (hw : Begins os w) : Begins (o :: os) (u ++ w) := by
  obtain ⟨rest, hw⟩ := hw
  exact ⟨rest, by simpa using h.cons hw⟩

theorem group {us : List Outline} (h : Begins us w) (os : List Outline) :
    Begins (.group us :: os) w := by
  obtain ⟨rest, h⟩ := h
  refine cons ⟨rest, ?_⟩ os
  simpa using Spells.group h .nil

theorem group_append {us : List Outline} (h : Spells us u) (hw : Begins os w) :
    Begins (.group us :: os) (u ++ w) :=
  append (by simpa using Spells.group h .nil) hw

/-- A word may break off before the answer. -/
theorem call (n : Node) (us : List Outline) : Begins [.node n us] [.call n] :=
  ⟨_, Spells.stay n .nil⟩

/-- A word may break off below a place. -/
theorem down {n : Node} {us : List Outline} (h : Begins us w) :
    Begins [.node n us] (.call n :: .answer n true :: w) := by
  obtain ⟨rest, h⟩ := h
  exact ⟨rest ++ [.leave], by simpa using Spells.down h .nil⟩

end Begins

/-- The nodes that are given in a word stand at different places of the outlines, in the order of
the outlines. -/
theorem sublist_preorder (h : Spells os w) :
    (w.filterMap Event.given?).Sublist (Outline.preorderAll os) := by
  induction h with
  | nil => exact .refl _
  | @stay n us os w a h ih =>
    rw [Outline.preorderAll, Outline.preorder, List.cons_append]
    exact .cons_cons n (ih.trans (List.sublist_append_right _ _))
  | @down n us os u w hu hw ihu ihw =>
    have hgiven : ((u ++ .leave :: w).filterMap Event.given?) =
        u.filterMap Event.given? ++ w.filterMap Event.given? :=
      List.filterMap_append
    rw [Outline.preorderAll, Outline.preorder, List.cons_append]
    refine .cons_cons n ?_
    change ((u ++ .leave :: w).filterMap Event.given?).Sublist _
    rw [hgiven]
    exact ihu.append ihw
  | group hu hw ihu ihw =>
    rw [List.filterMap_append, Outline.preorderAll, Outline.preorder]
    exact ihu.append ihw

theorem Begins.sublist_preorder (h : Begins os w) :
    (w.filterMap Event.given?).Sublist (Outline.preorderAll os) := by
  obtain ⟨rest, h⟩ := h
  have hs := h.sublist_preorder
  rw [List.filterMap_append] at hs
  exact (List.sublist_append_left _ _).trans hs

end Spells

/-- The nodes given in a trace are those given in its calls and answers. -/
theorem filterMap_given?_callbacks (trace : Array Event) :
    (callbacks trace).filterMap Event.given? = trace.toList.filterMap Event.given? := by
  rw [callbacks, List.filterMap_filter]
  refine List.filterMap_congr fun e _ => ?_
  cases e <;> rfl

end GoTree
