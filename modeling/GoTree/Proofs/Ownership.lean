import GoTree.Proofs.Unfolding

/-!
# Ownership

A step of a traversal works on a part of the store and leaves the rest alone. `Moves s fp s' fp'`
says that a step from `s` to `s'` **owned** the addresses `fp` and hands over the addresses `fp'`:
it overwrote nothing that was in use outside of `fp`, and what it hands over was in `fp` or is new.
So what it hands over is disjoint from everything that stood elsewhere, and what stood elsewhere is
as it was; this is the frame rule (`Moves.frame`).

The updates of a traversal are such steps: closing a node owns the address of the node
(`Node.moves_close`), writing an item owns its cell (`StoreM.moves_setItem`), and a new list owns
nothing before and its cells afterwards (`StoreM.moves_list`).
-/

namespace GoTree

/-! ### Addresses, all different -/

/-- A part of different addresses. -/
theorem nodup_of_eq_add {fp gp : Multiset Address} (hp : Multiset Address) (h : fp.Nodup)
    (heq : fp = gp + hp) : gp.Nodup := by
  rw [heq] at h
  exact (Multiset.nodup_add.mp h).1

theorem forall_mem_add {P : Address → Prop} {fp gp : Multiset Address} (h : ∀ a ∈ fp, P a)
    (h' : ∀ a ∈ gp, P a) : ∀ a ∈ fp + gp, P a := by
  intro a ha
  rcases Multiset.mem_add.mp ha with ha | ha
  · exact h a ha
  · exact h' a ha

theorem forall_mem_cell {s : Store} {p : Pool} {i : Nat} {x : p.Item}
    (h : (s.buffer p)[i]? = some x) :
    ∀ a ∈ ({.cell p i} : Multiset Address), s.Allocated a := by
  intro a ha
  obtain rfl := Multiset.mem_singleton.mp ha
  exact Store.allocated_of_getElem? h

/-! ### Steps -/

/-- A step that owns the addresses `fp` hands over the addresses `fp'`, all different. -/
structure Moves (s : Store) (fp : Multiset Address) (s' : Store) (fp' : Multiset Address) :
    Prop where
  grows : s.Grows s'
  same : ∀ a, s.Allocated a → a ∉ fp → s.SameAt s' a
  within : ∀ a ∈ fp', a ∈ fp ∨ ¬s.Allocated a
  nodup : fp'.Nodup

namespace Moves

variable {s s₁ s' : Store} {fp fp₁ fp' gp : Multiset Address}

theorem refl (s : Store) (h : fp.Nodup) : Moves s fp s fp where
  grows := .refl s
  same a _ _ := .refl s a
  within _ ha := .inl ha
  nodup := h

theorem trans (h : Moves s fp s₁ fp₁) (h' : Moves s₁ fp₁ s' fp') : Moves s fp s' fp' where
  grows := h.grows.trans h'.grows
  same a ha hfp := by
    refine (h.same a ha hfp).trans (h'.same a (h.grows.allocated ha) fun hf => ?_)
    rcases h.within a hf with hf | hf
    · exact hfp hf
    · exact hf ha
  within a ha := by
    rcases h'.within a ha with ha | ha
    · exact h.within a ha
    · exact .inr fun hs => ha (h.grows.allocated hs)
  nodup := h'.nodup

/-- What stood elsewhere is not touched. -/
theorem sameAt (h : Moves s fp s' fp') (hn : (fp + gp).Nodup) (hg : ∀ a ∈ gp, s.Allocated a) :
    ∀ a ∈ gp, s.SameAt s' a := by
  intro a ha
  refine h.same a (hg a ha) fun hf => ?_
  exact Multiset.disjoint_left.mp (Multiset.nodup_add.mp hn).2.2 hf ha

/-- **The frame rule.** A step may as well own more than it uses. -/
theorem frame (h : Moves s fp s' fp') (hn : (fp + gp).Nodup) (hg : ∀ a ∈ gp, s.Allocated a) :
    Moves s (fp + gp) s' (fp' + gp) where
  grows := h.grows
  same a ha hf := h.same a ha fun hf' => hf (Multiset.mem_add.mpr (.inl hf'))
  within a ha := by
    rcases Multiset.mem_add.mp ha with ha | ha
    · exact (h.within a ha).imp_left fun hf => Multiset.mem_add.mpr (.inl hf)
    · exact .inl (Multiset.mem_add.mpr (.inr ha))
  nodup := by
    obtain ⟨-, hgp, hd⟩ := Multiset.nodup_add.mp hn
    refine Multiset.nodup_add.mpr ⟨h.nodup, hgp, Multiset.disjoint_left.mpr ?_⟩
    intro a ha hga
    rcases h.within a ha with hf | hf
    · exact Multiset.disjoint_left.mp hd hf hga
    · exact hf (hg a hga)

theorem frame_left (h : Moves s fp s' fp') (hn : (gp + fp).Nodup)
    (hg : ∀ a ∈ gp, s.Allocated a) : Moves s (gp + fp) s' (gp + fp') := by
  rw [add_comm gp] at hn
  simpa only [add_comm gp] using h.frame hn hg

/-- Two steps after one another, each on its own part of the store. -/
theorem seq {gp' : Multiset Address} (h : Moves s fp s₁ fp') (h' : Moves s₁ gp s' gp')
    (hn : (fp + gp).Nodup) (hg : ∀ a ∈ gp, s.Allocated a) (hf : ∀ a ∈ fp', s₁.Allocated a) :
    Moves s (fp + gp) s' (fp' + gp') := by
  have hm := h.frame hn hg
  have hn' : (gp + fp').Nodup := by
    rw [add_comm]
    exact hm.nodup
  refine hm.trans ?_
  rw [add_comm fp' gp, add_comm fp' gp']
  exact h'.frame hn' hf

/-- What is handed over may be left behind. -/
theorem drop (h : Moves s fp s' (fp' + gp)) : Moves s fp s' fp' where
  grows := h.grows
  same := h.same
  within a ha := h.within a (Multiset.mem_add.mpr (.inl ha))
  nodup := (Multiset.nodup_add.mp h.nodup).1

theorem unfolds {ps : List SlotPart} {ts : List Tree} (h : Moves s fp s' fp')
    (hu : Unfolds s ps ts gp) (hn : (fp + gp).Nodup) : Unfolds s' ps ts gp :=
  hu.frame h.grows (h.sameAt hn hu.allocated)

theorem reads {p : Pool} {k : Nat} {xs : List p.Item} (h : Moves s fp s' fp')
    (hx : s.Reads p k xs) (hn : (fp + cells p k xs.length).Nodup) : s'.Reads p k xs :=
  hx.frame (h.sameAt hn hx.allocated)

/-- The rest of a list stays as it is while a step owns `fp`. -/
theorem rest {p : Pool} {k : Nat} {xs : List p.Item} {ps : List SlotPart} {ts : List Tree}
    (h : Moves s fp s' fp') (hx : s.Reads p k xs) (hu : Unfolds s ps ts gp)
    (hn : (fp + (cells p k xs.length + gp)).Nodup) : s'.Reads p k xs ∧ Unfolds s' ps ts gp := by
  refine ⟨h.reads hx ?_, h.unfolds hu ?_⟩
  · exact nodup_of_eq_add gp hn (by abel)
  · exact nodup_of_eq_add (cells p k xs.length) hn (by abel)

theorem getElem? {p : Pool} {i : Nat} {x : p.Item} (h : Moves s fp s' fp')
    (hx : (s.buffer p)[i]? = some x) (hn : (fp + {.cell p i}).Nodup) :
    (s'.buffer p)[i]? = some x := by
  have hs : s.Reads p i [x] := ⟨hx, trivial⟩
  exact (h.reads hs (by simpa [cells] using hn)).1

end Moves

/-! ### Updates -/

section Updates

variable {s s' : Store} {p : Pool}

/-- Writing an item owns its cell. -/
theorem StoreM.moves_setItem {seg : Segment p} {i : Nat} {x : p.Item}
    (h : StoreM.setItem seg i x s = .ok () s') :
    Moves s {.cell p (seg.start.toNat + i)} s' {.cell p (seg.start.toNat + i)} ∧
      (s'.buffer p)[seg.start.toNat + i]? = some x := by
  obtain ⟨ha, rfl⟩ := StoreM.setItem_eq_ok h
  refine ⟨⟨s.grows_putItem seg i x, ?_, fun a ha => .inl ha, Multiset.nodup_singleton _⟩,
    Store.getElem?_putItem_self ha x⟩
  intro a _ hne
  exact Store.sameAt_putItem fun heq => hne (Multiset.mem_singleton.mpr heq)

/-- Closing a node owns the address of the node, and the node unfolds to its new parts. -/
theorem Node.moves_close {n r : Node} {y : n.kind.Body} {us : List Tree} {gp : Multiset Address}
    (h : n.close y s = .ok r s') (hu : Unfolds s (n.kind.bodySlots y).parts us gp)
    (hn : (n.footprint + gp).Nodup) :
    Moves s n.footprint s' n.footprint ∧
      Unfolds s' [.node "" r] [.mk (.node n.kind (n.kind.bodySlots y).blank) us]
        (n.footprint + gp) := by
  obtain ⟨k, v⟩ := n
  cases k with
  | stored c =>
    simp only [close, bind, EStateM.bind, pure, EStateM.pure] at h
    split at h
    · next hs =>
      cases h
      obtain ⟨ha, rfl⟩ := StoreM.save_eq_ok hs
      have hm : Moves s {.node c v.index} (s.put v y) {.node c v.index} := by
        refine ⟨s.grows_put v y, ?_, fun a ha => .inl ha, Multiset.nodup_singleton _⟩
        intro a _ hne
        exact Store.sameAt_put fun heq => hne (Multiset.mem_singleton.mpr heq)
      have hb : (Node.stored v).body? (s.put v y) = some y := Store.get?_put_self ha y
      exact ⟨hm, by simpa using Unfolds.node hb (hm.unfolds hu hn) .nil⟩
    · cases h
  | _ =>
    cases h
    refine ⟨.refl s Multiset.nodup_zero, ?_⟩
    rw [← add_zero (_ + gp)]
    exact .node rfl hu .nil

/-- Items that were appended are read after the old end of the buffer. -/
private theorem Store.reads_append (s : Store) (p : Pool) (xs : List p.Item) :
    (s.append p xs.toArray).Reads p (s.buffer p).size xs := by
  have key : ∀ (ys : List p.Item) (k : Nat),
      (∀ j, ys[j]? = ((s.append p xs.toArray).buffer p)[k + j]?) →
      (s.append p xs.toArray).Reads p k ys := by
    intro ys
    induction ys with
    | nil => exact fun _ _ => trivial
    | cons y ys ih =>
      intro k hk
      refine ⟨(hk 0).symm, ih (k + 1) fun j => ?_⟩
      rw [show k + 1 + j = k + (j + 1) by omega, ← hk (j + 1), List.getElem?_cons_succ]
  refine key xs _ fun j => ?_
  rw [Store.append, Store.buffer_modifyBuffer_self, Array.getElem?_append_right (by omega)]
  simp

/-- A new list owns nothing before and its cells afterwards. -/
theorem StoreM.moves_list {seg : Segment p} {xs : List p.Item}
    (h : StoreM.list p xs.toArray s = .ok seg s') :
    Moves s 0 s' (cells p seg.start.toNat seg.length) ∧ seg.stop ≤ (s'.buffer p).size ∧
      xs.length = seg.length ∧ s'.Reads p seg.start.toNat xs := by
  have hsize : ((s.append p xs.toArray).buffer p).size = (s.buffer p).size + xs.length := by
    simp [Store.append]
  have hmoves : ∀ n, n ≤ xs.length → Moves s 0 (s.append p xs.toArray)
      (cells p (s.buffer p).size n) := by
    intro n hn
    refine ⟨s.grows_append p _, fun a ha _ => Store.sameAt_append ha, ?_, nodup_cells _ _ _⟩
    intro a ha
    obtain ⟨i, hi, -, rfl⟩ := mem_cells.mp ha
    exact .inr (Nat.not_lt.mpr hi)
  simp only [list, List.size_toArray] at h
  split at h
  · cases h
  · next hstart =>
    split at h
    · cases h
    · next hlen =>
      -- position and length have passed the tests, so they are the same as words
      have hs : (s.buffer p).size.toUInt32.toNat = (s.buffer p).size :=
        UInt32.toNat_ofNat_of_lt (by simpa using hstart)
      have hl : xs.length.toUInt32.toNat = xs.length :=
        UInt32.toNat_ofNat_of_lt (by simpa using hlen)
      split at h
      · next h0 =>
        cases h
        obtain rfl := List.eq_nil_of_length_eq_zero h0
        refine ⟨?_, ?_, rfl, trivial⟩
        · exact hmoves 0 (Nat.le_refl 0)
        · exact Nat.zero_le _
      · cases h
        simp only [Segment.length, Segment.stop, hs, hl]
        exact ⟨hmoves _ (Nat.le_refl _), by omega, trivial, s.reads_append p xs⟩

end Updates

end GoTree
