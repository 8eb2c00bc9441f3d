import GoTree.Proofs.Bounds
import GoTree.Proofs.Refinement

/-!
# What a step changes

A traversal writes to the store in few places: it closes a node, it writes an item to its cell, and
it adds a list at the end of a buffer. `Store.ChangesOnly s fp s'` says that on the way from `s` to
`s'` at most the addresses `fp` were overwritten, all others being as they were or new. It is what
is left of `Moves` when nothing is said of the addresses that are handed over.

A transformer **appends** when it overwrites nothing at all: what it does to the store changes only
what is new.
-/

namespace GoTree

variable {σ : Type}

/-- A transformer that adds to the store and overwrites nothing, whether or not it faults. -/
structure Transformer.Appends (t : Transformer σ) : Prop where
  replace : ∀ (n : Node) (c : Context σ), c.store.Extends (TransformM.storeAfter (t.replace n) c)
  leave : ∀ c : Context σ, c.store.Extends (TransformM.storeAfter t.leave c)

theorem Transformer.Appends.of_replace {t : Transformer σ} (ht : t.Appends) {n a : Node} {b : Bool}
    {c c' : Context σ} (h : t.replace n c = .ok (a, b) c') : c.store.Extends c'.store := by
  have := ht.replace n c
  rwa [TransformM.storeAfter_of_ok h] at this

theorem Transformer.Appends.of_leave {t : Transformer σ} (ht : t.Appends) {c c' : Context σ}
    (h : t.leave c = .ok () c') : c.store.Extends c'.store := by
  have := ht.leave c
  rwa [TransformM.storeAfter_of_ok h] at this

/-! ### What a step may change -/

/-- From `s` to `s'` nothing in use is overwritten outside of the addresses `fp`. -/
structure Store.ChangesOnly (s : Store) (fp : Multiset Address) (s' : Store) : Prop where
  grows : s.Grows s'
  same : ∀ a, s.Allocated a → a ∉ fp → s.SameAt s' a

theorem Store.Extends.refl (s : Store) : s.Extends s :=
  ⟨.refl s, fun a _ => .refl s a⟩

theorem Store.Extends.changesOnly {s s' : Store} (h : s.Extends s') (fp : Multiset Address) :
    s.ChangesOnly fp s' :=
  ⟨h.grows, fun a ha _ => h.same a ha⟩

theorem Moves.changesOnly {s s' : Store} {fp fp' : Multiset Address} (h : Moves s fp s' fp') :
    s.ChangesOnly fp s' :=
  ⟨h.grows, h.same⟩

namespace Store.ChangesOnly

variable {s s₁ s' : Store} {fp gp : Multiset Address}

theorem refl (s : Store) (fp : Multiset Address) : s.ChangesOnly fp s :=
  ⟨.refl s, fun a _ _ => .refl s a⟩

theorem mono (h : s.ChangesOnly fp s') (hsub : fp ⊆ gp) : s.ChangesOnly gp s' :=
  ⟨h.grows, fun a ha hg => h.same a ha fun hf => hg (hsub hf)⟩

theorem trans (h : s.ChangesOnly fp s₁) (h' : s₁.ChangesOnly fp s') : s.ChangesOnly fp s' :=
  ⟨h.grows.trans h'.grows,
    fun a ha hf => (h.same a ha hf).trans (h'.same a (h.grows.allocated ha) hf)⟩

/-- Two steps after one another. -/
theorem seq (h : s.ChangesOnly fp s₁) (h' : s₁.ChangesOnly gp s') : s.ChangesOnly (fp + gp) s' :=
  (h.mono (Multiset.subset_of_le (Multiset.le_add_right fp gp))).trans
    (h'.mono (Multiset.subset_of_le (Multiset.le_add_left gp fp)))

/-- What stands elsewhere is not touched. -/
theorem sameAt (h : s.ChangesOnly fp s') (hn : (fp + gp).Nodup) (hg : ∀ a ∈ gp, s.Allocated a) :
    ∀ a ∈ gp, s.SameAt s' a := by
  intro a ha
  refine h.same a (hg a ha) fun hf => ?_
  exact Multiset.disjoint_left.mp (Multiset.nodup_add.mp hn).2.2 hf ha

theorem reads {p : Pool} {k : Nat} {xs : List p.Item} (h : s.ChangesOnly fp s')
    (hx : s.Reads p k xs) (hn : (fp + cells p k xs.length).Nodup) : s'.Reads p k xs :=
  hx.frame (h.sameAt hn hx.allocated)

end Store.ChangesOnly

section Updates

variable {s s' : Store}

/-- Overwriting a node leaves the sizes of all tables. -/
theorem Store.size_table_put {c : Category} (s : Store) (id : Id c) (x : c.Payload) (d : Category) :
    ((s.put id x).table d).size = (s.table d).size := by
  by_cases hd : d = c
  · subst hd
    rw [put, table_modifyTable_self, Table.size_put]
  · rw [put, table_modifyTable_of_ne _ hd]

/-- Overwriting a node leaves all spans. -/
theorem Store.spans_table_put {c : Category} (s : Store) (id : Id c) (x : c.Payload)
    (d : Category) : ((s.put id x).table d).spans = (s.table d).spans := by
  by_cases hd : d = c
  · subst hd
    rw [put, table_modifyTable_self, Table.spans_put]
  · rw [put, table_modifyTable_of_ne _ hd]

/-- Closing a stored node overwrites its entry, if there is one. -/
theorem Node.close_stored {c : Category} (id : Id c) (y : c.Payload) (s : Store) :
    (Node.stored id).close y s = if id.index < (s.table c).size then .ok (.stored id) (s.put id y)
      else .error (.indexOutOfBounds (s.table c).size id.index) s := by
  simp only [stored, close, StoreM.save, bind, EStateM.bind, pure, EStateM.pure]
  split_ifs
  · rfl
  · rfl

theorem Node.close_stored_eq_ok {c : Category} {id : Id c} {y : c.Payload} {r : Node}
    (h : (Node.stored id).close y s = .ok r s') :
    s.Allocated (.node c id.index) ∧ s' = s.put id y := by
  rw [close_stored] at h
  split_ifs at h with ha
  cases h
  exact ⟨ha, rfl⟩

/-- Closing a node changes the entry of the node. -/
theorem Node.changesOnly_close {n r : Node} {x : n.kind.Body} (h : n.close x s = .ok r s') :
    s.ChangesOnly n.footprint s' := by
  obtain ⟨k, v⟩ := n
  cases k with
  | stored b =>
    obtain ⟨-, rfl⟩ := close_stored_eq_ok h
    refine ⟨s.grows_put v x, fun a _ ha => ?_⟩
    exact Store.sameAt_put fun heq => ha (Multiset.mem_singleton.mpr heq)
  | _ =>
    cases h
    exact .refl _ _

/-- An item that can be written is an item of the list. -/
theorem StoreM.lt_length_of_setItem {p : Pool} {seg : Segment p} {i : Nat} {x : p.Item}
    (h : StoreM.setItem seg i x s = .ok () s') : i < seg.length := by
  simp only [StoreM.setItem] at h
  split at h
  · cases h
  · next hf =>
    unfold Segment.itemFault? at hf
    split at hf
    · cases hf
    · split at hf
      · assumption
      · cases hf

/-- A settled list leaves all that is in use as it is. -/
theorem Segment.changesOnly_settle {seg seg' : Segment .stmts} {out : Option (Array (Id .stmt))}
    (h : seg.settle out s = .ok seg' s') : s.ChangesOnly 0 s' := by
  cases out with
  | none =>
    cases h
    exact .refl _ _
  | some out =>
    rw [StoreM.store_of_list.1 seg' h]
    exact ⟨s.grows_append .stmts out, fun a ha _ => Store.sameAt_append ha⟩

/-- Taking an answer for an item changes the cell of the item at most. -/
theorem Takes.changesOnly {l : String} {seg : Segment .stmts} {i : Nat} {r : Node} {w : List Mark}
    {out out' : Option (Array (Id .stmt))} (h : Takes l seg i s out r w out' s') :
    s.ChangesOnly {.cell .stmts (seg.start.toNat + i)} s' := by
  cases h with
  | write hs => exact (StoreM.moves_setItem hs).1.changesOnly
  | push => exact .refl _ _
  | splice => exact .refl _ _

end Updates

end GoTree
