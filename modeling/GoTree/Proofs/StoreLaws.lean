import GoTree.Proofs.Parts

/-!
# Addresses of a store

An `Address` is one entry of a table or one cell of a buffer. What an update of the store does is
said address by address: `put` and `putItem` touch a single one, `append` touches none that was
allocated before. Later modules follow a traversal through the store in these terms and do not open
the updates again.
-/

namespace GoTree

/-- One entry of a table, or one cell of a buffer. -/
inductive Address where
  | node (c : Category) (i : Nat)
  | cell (p : Pool) (i : Nat)
  deriving DecidableEq

namespace Store

variable {c : Category} {p : Pool}

/-- An address is in use. -/
def Allocated (s : Store) : Address → Prop
  | .node c i => i < (s.table c).size
  | .cell p i => i < (s.buffer p).size

/-- Two stores hold the same at an address. -/
def SameAt (s s' : Store) : Address → Prop
  | .node c i => (s'.table c).nodes[i]? = (s.table c).nodes[i]?
  | .cell p i => (s'.buffer p)[i]? = (s.buffer p)[i]?

/-- No table and no buffer of `s` is longer than in `s'`. -/
structure Grows (s s' : Store) : Prop where
  table : ∀ c, (s.table c).size ≤ (s'.table c).size
  buffer : ∀ p, (s.buffer p).size ≤ (s'.buffer p).size

theorem SameAt.refl (s : Store) (a : Address) : s.SameAt s a := by
  cases a <;> rfl

theorem SameAt.trans {s s' s'' : Store} {a : Address} (h : s.SameAt s' a) (h' : s'.SameAt s'' a) :
    s.SameAt s'' a := by
  cases a with
  | node c i => exact Eq.trans h' h
  | cell p i => exact Eq.trans h' h

theorem Grows.refl (s : Store) : s.Grows s :=
  ⟨fun _ => Nat.le_refl _, fun _ => Nat.le_refl _⟩

theorem Grows.trans {s s' s'' : Store} (h : s.Grows s') (h' : s'.Grows s'') : s.Grows s'' :=
  ⟨fun c => Nat.le_trans (h.table c) (h'.table c),
    fun p => Nat.le_trans (h.buffer p) (h'.buffer p)⟩

theorem Grows.allocated {s s' : Store} (h : s.Grows s') {a : Address} (ha : s.Allocated a) :
    s'.Allocated a := by
  cases a with
  | node c i => exact Nat.lt_of_lt_of_le ha (h.table c)
  | cell p i => exact Nat.lt_of_lt_of_le ha (h.buffer p)

/-! ### Reading -/

theorem get?_eq_of_sameAt {s s' : Store} {id : Id c} (h : s.SameAt s' (.node c id.index)) :
    s'.get? id = s.get? id :=
  h

theorem allocated_of_get? {s : Store} {id : Id c} {x : c.Payload} (h : s.get? id = some x) :
    s.Allocated (.node c id.index) := by
  obtain ⟨hi, -⟩ := Array.getElem?_eq_some_iff.mp h
  exact hi

theorem allocated_of_getElem? {s : Store} {i : Nat} {x : p.Item}
    (h : (s.buffer p)[i]? = some x) : s.Allocated (.cell p i) := by
  obtain ⟨hi, -⟩ := Array.getElem?_eq_some_iff.mp h
  exact hi

/-- An item that can be read is a cell of the list and of the buffer. -/
theorem getElem?_of_item {s : Store} {seg : Segment p} {i : Nat} {x : p.Item}
    (h : s.item seg i = .ok x) : (s.buffer p)[seg.start.toNat + i]? = some x := by
  unfold item at h
  split at h
  · cases h
  · split at h
    · next hx =>
      cases h
      exact hx
    · cases h

/-- An item that can be read is an item of the list. -/
theorem lt_length_of_item {s : Store} {seg : Segment p} {i : Nat} {x : p.Item}
    (h : s.item seg i = .ok x) : i < seg.length := by
  unfold item at h
  split at h
  · cases h
  · next hf =>
    unfold Segment.itemFault? at hf
    split at hf
    · cases hf
    · split at hf
      · assumption
      · cases hf

theorem eq_extract_of_items {s : Store} {seg : Segment p} {xs : Array p.Item}
    (h : s.items seg = .ok xs) : xs = (s.buffer p).extract seg.start.toNat seg.stop := by
  unfold items at h
  split at h
  · cases h
  · cases h
    rfl

/-! ### Updates -/

theorem grows_put (s : Store) (id : Id c) (x : c.Payload) : s.Grows (s.put id x) := by
  refine ⟨fun d => ?_, fun p => ?_⟩
  · by_cases h : d = c
    · subst h
      simp [put]
    · exact Nat.le_of_eq (congrArg Table.size (table_modifyTable_of_ne s h _).symm)
  · simp [put]

theorem get?_put_self {s : Store} {id : Id c} (h : s.Allocated (.node c id.index))
    (x : c.Payload) : (s.put id x).get? id = some x := by
  have hi : id.index < (s.table c).nodes.size := h
  simp [get?, put, Table.put, hi]

/-- Overwriting a node touches its own address only. -/
theorem sameAt_put {s : Store} {id : Id c} {x : c.Payload} {a : Address}
    (h : a ≠ .node c id.index) : s.SameAt (s.put id x) a := by
  cases a with
  | cell p i => simp [SameAt, put]
  | node d i =>
    by_cases hd : d = c
    · subst hd
      have hi : id.index ≠ i := fun hi => h (by rw [hi])
      simp [SameAt, put, Table.put, hi]
    · simp [SameAt, put, table_modifyTable_of_ne s hd]

/-- Overwriting a node with itself changes nothing. -/
theorem put_of_get? {s : Store} {id : Id c} {x : c.Payload} (h : s.get? id = some x) :
    s.put id x = s := by
  obtain ⟨hi, hx⟩ := Array.getElem?_eq_some_iff.mp h
  refine ext_read (fun d => ?_) (fun p => by simp [put])
  by_cases hd : d = c
  · subst hd
    rw [put, table_modifyTable_self]
    refine Table.ext ?_ rfl
    rw [Table.nodes_put, Array.setIfInBounds_def, dif_pos hi, ← hx]
    exact Array.set_getElem_self hi
  · rw [put, table_modifyTable_of_ne s hd]

theorem grows_putItem (s : Store) (seg : Segment p) (i : Nat) (x : p.Item) :
    s.Grows (s.putItem seg i x) := by
  refine ⟨fun c => by simp [putItem], fun q => ?_⟩
  by_cases h : q = p
  · subst h
    simp [putItem]
  · exact Nat.le_of_eq (congrArg Array.size (buffer_modifyBuffer_of_ne s h _).symm)

/-- Overwriting an item touches its own address only. -/
theorem sameAt_putItem {s : Store} {seg : Segment p} {i : Nat} {x : p.Item} {a : Address}
    (h : a ≠ .cell p (seg.start.toNat + i)) : s.SameAt (s.putItem seg i x) a := by
  cases a with
  | node c j => simp [SameAt, putItem]
  | cell q j =>
    by_cases hq : q = p
    · subst hq
      have hj : seg.start.toNat + i ≠ j := fun hj => h (by rw [hj])
      simp [SameAt, putItem, hj]
    · simp [SameAt, putItem, buffer_modifyBuffer_of_ne s hq]

theorem getElem?_putItem_self {s : Store} {seg : Segment p} {i : Nat}
    (h : s.Allocated (.cell p (seg.start.toNat + i))) (x : p.Item) :
    ((s.putItem seg i x).buffer p)[seg.start.toNat + i]? = some x := by
  have hi : seg.start.toNat + i < (s.buffer p).size := h
  simp [putItem, hi]

/-- Overwriting an item with itself changes nothing. -/
theorem putItem_of_getElem? {s : Store} {seg : Segment p} {i : Nat} {x : p.Item}
    (h : (s.buffer p)[seg.start.toNat + i]? = some x) : s.putItem seg i x = s := by
  obtain ⟨hi, hx⟩ := Array.getElem?_eq_some_iff.mp h
  refine ext_read (fun c => by simp [putItem]) (fun q => ?_)
  by_cases hq : q = p
  · subst hq
    rw [putItem, buffer_modifyBuffer_self, Array.setIfInBounds_def]
    simp [← hx]
  · rw [putItem, buffer_modifyBuffer_of_ne s hq]

theorem grows_append (s : Store) (p : Pool) (xs : Array p.Item) : s.Grows (s.append p xs) := by
  refine ⟨fun c => by simp [append], fun q => ?_⟩
  by_cases h : q = p
  · subst h
    simp [append]
  · exact Nat.le_of_eq (congrArg Array.size (buffer_modifyBuffer_of_ne s h _).symm)

/-- Appending touches no address in use. -/
theorem sameAt_append {s : Store} {xs : Array p.Item} {a : Address} (h : s.Allocated a) :
    s.SameAt (s.append p xs) a := by
  cases a with
  | node c i => simp [SameAt, append]
  | cell q i =>
    by_cases hq : q = p
    · subst hq
      have hi : i < (s.buffer q).size := h
      simp [SameAt, append, Array.getElem?_append_left hi]
    · simp [SameAt, append, buffer_modifyBuffer_of_ne s hq]

end Store

/-! ### Actions -/

namespace StoreM

variable {c : Category} {p : Pool} {s s' : Store}

/-- A node is saved where it was allocated. -/
theorem save_eq_ok {id : Id c} {x : c.Payload} (h : save id x s = .ok () s') :
    s.Allocated (.node c id.index) ∧ s' = s.put id x := by
  simp only [save] at h
  split at h
  · next hi =>
    cases h
    exact ⟨hi, rfl⟩
  · cases h

private theorem store_of_save_error {id : Id c} {x : c.Payload} {e : Fault}
    (h : save id x s = .error e s') : s' = s := by
  simp only [save] at h
  split at h
  · cases h
  · cases h
    rfl

/-- An item is written where the list has a cell. -/
theorem setItem_eq_ok {seg : Segment p} {i : Nat} {x : p.Item}
    (h : setItem seg i x s = .ok () s') :
    s.Allocated (.cell p (seg.start.toNat + i)) ∧ s' = s.putItem seg i x := by
  simp only [setItem] at h
  split at h
  · cases h
  · next hf =>
    cases h
    unfold Segment.itemFault? at hf
    split at hf
    · cases hf
    · next hr =>
      split at hf
      · next hi =>
        have hs := (Segment.fault?_eq_none_iff.mp hr).2
        refine ⟨?_, rfl⟩
        simp only [Segment.length, Segment.stop, Store.Allocated] at hi hs ⊢
        omega
      · cases hf

theorem store_of_setItem_error {seg : Segment p} {i : Nat} {x : p.Item} {e : Fault}
    (h : setItem seg i x s = .error e s') : s' = s := by
  simp only [setItem] at h
  split at h
  · cases h
    rfl
  · cases h

end StoreM

namespace Node

/-- Closing a node with the body it has changes nothing. -/
theorem close_of_body? {n r : Node} {x : n.kind.Body} {s s' : Store} (hx : n.body? s = some x)
    (h : n.close x s = .ok r s') : r = n ∧ s' = s := by
  obtain ⟨k, v⟩ := n
  cases k with
  | stored c =>
    simp only [close, bind, EStateM.bind, pure, EStateM.pure] at h
    split at h
    · next hs =>
      cases h
      exact ⟨rfl, by rw [(StoreM.save_eq_ok hs).2, Store.put_of_get? hx]⟩
    · cases h
  | _ =>
    cases hx
    cases h
    exact ⟨rfl, rfl⟩

theorem store_of_close_error {n : Node} {x : n.kind.Body} {s s' : Store} {e : Fault}
    (h : n.close x s = .error e s') : s' = s := by
  obtain ⟨k, v⟩ := n
  cases k with
  | stored c =>
    simp only [close, bind, EStateM.bind, pure, EStateM.pure] at h
    split at h
    · cases h
    · next hs =>
      cases h
      exact StoreM.store_of_save_error hs
  | _ => cases h

end Node

end GoTree
