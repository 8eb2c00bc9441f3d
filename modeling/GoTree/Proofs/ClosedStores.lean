import GoTree.Proofs.StoreLaws

/-!
# Closed stores

A handle **resolves** in a store when it is the id of an allocated node or a list that ends in its
buffer. A store is **closed** when every handle in every payload and in every cell of every buffer
resolves, whether or not the cell belongs to a list that is still in use.

Values that are nodes by themselves (field lists, blocks, specifications, …) hold handles too, and
sit inside payloads, cells and each other. `SlotPart.Passes` is a property of a part together with
all parts inside it, so that `SlotPart.Resolves` sees every handle in a value. One handle of a
payload is in no slot: the list of all comment groups of a file (`Category.aside`).

A store stays closed when it grows by entries whose handles resolve (`Store.Closed.of_entries`). All
updates are of this kind.
-/

namespace GoTree

/-! ### Parts inside parts -/

/-- A property of nodes and one of lists, of a part and of all parts inside it. A stored node has no
parts inside it: it is an id. -/
inductive SlotPart.Passes (P : Node → Prop) (L : (p : Pool) → Segment p → Prop) :
    SlotPart → Prop where
  | node {l : String} {n : Node} (h : P n)
      (hi : ∀ q ∈ (n.kind.slots n.value).parts, Passes P L q) : Passes P L (.node l n)
  | list {l : String} {p : Pool} {seg : Segment p} (h : L p seg) : Passes P L (.list l p seg)
  | item {l : String} {p : Pool} {x : p.Item} (hi : ∀ q ∈ (p.slots l x).parts, Passes P L q) :
      Passes P L (.item l p x)

namespace SlotPart.Passes

variable {P P' : Node → Prop} {L L' : (p : Pool) → Segment p → Prop} {l : String} {n : Node}

theorem imp {q : SlotPart} (h : q.Passes P L) (hP : ∀ n, P n → P' n)
    (hL : ∀ p seg, L p seg → L' p seg) : q.Passes P' L' := by
  induction h with
  | node h _ ih => exact .node (hP _ h) ih
  | list h => exact .list (hL _ _ h)
  | item _ ih => exact .item ih

theorem head (h : (SlotPart.node l n).Passes P L) : P n := by
  cases h with
  | node h _ => exact h

theorem inside (h : (SlotPart.node l n).Passes P L) :
    ∀ q ∈ (n.kind.slots n.value).parts, q.Passes P L := by
  cases h with
  | node _ hi => exact hi

theorem segment {p : Pool} {seg : Segment p} (h : (SlotPart.list l p seg).Passes P L) :
    L p seg := by
  cases h with
  | list h => exact h

theorem relabel {l' : String} (h : (SlotPart.node l n).Passes P L) :
    (SlotPart.node l' n).Passes P L :=
  .node h.head h.inside

end SlotPart.Passes

/-- The slots of an item under two labels: one node under either label, or the same parts. -/
theorem Pool.parts_slots_relabel (p : Pool) (l l' : String) (x : p.Item) :
    (∃ n, (p.slots l x).parts = [.node l n] ∧ (p.slots l' x).parts = [.node l' n]) ∨
      (p.slots l' x).parts = (p.slots l x).parts := by
  cases p <;> first | exact .inl ⟨_, rfl, rfl⟩ | exact .inr rfl

theorem SlotPart.Passes.relabel_item {P : Node → Prop} {L : (p : Pool) → Segment p → Prop}
    {p : Pool} {x : p.Item} {l : String} (h : ∀ q ∈ (p.slots l x).parts, q.Passes P L)
    (l' : String) : ∀ q ∈ (p.slots l' x).parts, q.Passes P L := by
  rcases p.parts_slots_relabel l l' x with ⟨n, hl, hl'⟩ | heq
  · rw [hl, List.forall_mem_singleton] at h
    rw [hl', List.forall_mem_singleton]
    exact h.relabel
  · rwa [heq]

/-- The parts of a body pass if the node passes, and the payload of every stored node. -/
theorem SlotPart.Passes.of_body? {P : Node → Prop} {L : (p : Pool) → Segment p → Prop}
    {s : Store} {l : String} {n : Node} {x : n.kind.Body}
    (h : (SlotPart.node l n).Passes P L) (hx : n.body? s = some x)
    (hs : ∀ (c : Category) (id : Id c) (y : c.Payload), s.get? id = some y →
      ∀ q ∈ (c.slots y).parts, q.Passes P L) :
    ∀ q ∈ (n.kind.bodySlots x).parts, q.Passes P L := by
  obtain ⟨k, v⟩ := n
  cases k with
  | stored c => exact hs c v x hx
  | _ =>
    cases hx
    exact h.inside

/-! ### Handles that resolve -/

/-- All handles of a part resolve in a store. -/
def SlotPart.Resolves (s : Store) : SlotPart → Prop :=
  Passes (fun n => ∃ x, n.body? s = some x) fun p seg => seg.stop ≤ (s.buffer p).size

/-- All handles of a node resolve in a store. -/
def Node.Resolves (s : Store) (n : Node) : Prop :=
  (SlotPart.node "" n).Resolves s

/-- The list of a payload that is in no slot. -/
def Category.aside : (c : Category) → c.Payload → Option (Segment .commentGroups)
  | .file, x => some (SourceFile.comments x)
  | _, _ => none

/-- All handles of a payload resolve. -/
structure Store.NodeResolves (s : Store) (c : Category) (x : c.Payload) : Prop where
  parts : ∀ q ∈ (c.slots x).parts, q.Resolves s
  aside : ∀ seg ∈ c.aside x, seg.stop ≤ (s.buffer .commentGroups).size

/-- All handles of an item resolve. -/
def Store.ItemResolves (s : Store) (p : Pool) (x : p.Item) : Prop :=
  ∀ q ∈ (p.slots "" x).parts, q.Resolves s

/-- Every handle in a store resolves. -/
structure Store.Closed (s : Store) : Prop where
  node : ∀ {c : Category} {i : Nat} {x : c.Payload}, (s.table c).nodes[i]? = some x →
    s.NodeResolves c x
  cell : ∀ {p : Pool} {i : Nat} {x : p.Item}, (s.buffer p)[i]? = some x → s.ItemResolves p x

section Resolves

variable {s s' : Store} {c : Category} {p : Pool} {n : Node} {l : String}

theorem Node.Resolves.part (h : n.Resolves s) : (SlotPart.node l n).Resolves s :=
  h.relabel

theorem SlotPart.Resolves.node (h : (SlotPart.node l n).Resolves s) : n.Resolves s :=
  h.relabel

theorem Node.exists_body?_of_grows {x : n.kind.Body} (hg : s.Grows s') (hx : n.body? s = some x) :
    ∃ y, n.body? s' = some y := by
  obtain ⟨k, v⟩ := n
  cases k with
  | stored c =>
    have hv : v.index < (s'.table c).nodes.size := hg.allocated (Store.allocated_of_get? hx)
    exact ⟨_, Array.getElem?_eq_getElem hv⟩
  | _ => exact ⟨_, hx⟩

theorem SlotPart.Resolves.mono {q : SlotPart} (h : q.Resolves s) (hg : s.Grows s') :
    q.Resolves s' := by
  refine h.imp (fun n hn => ?_) fun p seg hs => Nat.le_trans hs (hg.buffer p)
  obtain ⟨x, hx⟩ := hn
  exact n.exists_body?_of_grows hg hx

theorem Node.Resolves.mono (h : n.Resolves s) (hg : s.Grows s') : n.Resolves s' :=
  SlotPart.Resolves.mono h hg

theorem SlotPart.Resolves.mono_all {ps : List SlotPart} (h : ∀ q ∈ ps, q.Resolves s)
    (hg : s.Grows s') : ∀ q ∈ ps, q.Resolves s' :=
  fun q hq => (h q hq).mono hg

theorem Store.NodeResolves.mono {x : c.Payload} (h : s.NodeResolves c x) (hg : s.Grows s') :
    s'.NodeResolves c x :=
  ⟨SlotPart.Resolves.mono_all h.parts hg,
    fun seg hs => Nat.le_trans (h.aside seg hs) (hg.buffer _)⟩

theorem Node.resolves_stored {id : Id c} (h : s.Allocated (.node c id.index)) :
    (Node.stored id).Resolves s := by
  have hi : id.index < (s.table c).nodes.size := h
  refine SlotPart.Passes.node ⟨_, Array.getElem?_eq_getElem hi⟩ ?_
  rintro q ⟨⟩

/-- A statement in a list is an item that resolves. -/
theorem Store.itemResolves_stmt {id : Id .stmt} :
    s.ItemResolves .stmts id ↔ (Node.stored id).Resolves s :=
  List.forall_mem_singleton

end Resolves

/-! ### Updates of a closed store -/

namespace Store.Closed

variable {s s' : Store} {c : Category} {p : Pool}

/-- A store stays closed when it grows by entries that resolve. -/
theorem of_entries (hs : s.Closed) (hg : s.Grows s')
    (hn : ∀ (c : Category) (i : Nat) (x : c.Payload), (s'.table c).nodes[i]? = some x →
      (s.table c).nodes[i]? = some x ∨ s.NodeResolves c x)
    (hc : ∀ (p : Pool) (i : Nat) (x : p.Item), (s'.buffer p)[i]? = some x →
      (s.buffer p)[i]? = some x ∨ s.ItemResolves p x) : s'.Closed := by
  constructor
  · intro c i x hx
    rcases hn c i x hx with hx' | hx'
    · exact (hs.node hx').mono hg
    · exact hx'.mono hg
  · intro p i x hx
    rcases hc p i x hx with hx' | hx'
    · exact SlotPart.Resolves.mono_all (hs.cell hx') hg
    · exact SlotPart.Resolves.mono_all hx' hg

theorem put (hs : s.Closed) {id : Id c} {x : c.Payload} (hx : s.NodeResolves c x)
    (ha : s.Allocated (.node c id.index)) : (s.put id x).Closed := by
  refine hs.of_entries (s.grows_put id x) (fun d i y hy => ?_) fun q i y hy => ?_
  · by_cases h : Address.node d i = .node c id.index
    · cases h
      have hself : (s.put id x).get? id = some x := get?_put_self ha x
      rw [show (s.put id x).get? id = some y from hy] at hself
      cases hself
      exact .inr hx
    · have hsame : s.SameAt (s.put id x) (.node d i) := sameAt_put h
      exact .inl (hsame.symm.trans hy)
  · have hsame : s.SameAt (s.put id x) (.cell q i) := sameAt_put (by simp)
    exact .inl (hsame.symm.trans hy)

theorem putItem (hs : s.Closed) {seg : Segment p} {i : Nat} {x : p.Item}
    (hx : s.ItemResolves p x) (ha : s.Allocated (.cell p (seg.start.toNat + i))) :
    (s.putItem seg i x).Closed := by
  refine hs.of_entries (s.grows_putItem seg i x) (fun d j y hy => ?_) fun q j y hy => ?_
  · have hsame : s.SameAt (s.putItem seg i x) (.node d j) := sameAt_putItem (by simp)
    exact .inl (hsame.symm.trans hy)
  · by_cases h : Address.cell q j = .cell p (seg.start.toNat + i)
    · cases h
      have hself := getElem?_putItem_self ha x
      rw [hy] at hself
      cases hself
      exact .inr hx
    · have hsame : s.SameAt (s.putItem seg i x) (.cell q j) := sameAt_putItem h
      exact .inl (hsame.symm.trans hy)

theorem append (hs : s.Closed) {xs : Array p.Item} (hx : ∀ x ∈ xs, s.ItemResolves p x) :
    (s.append p xs).Closed := by
  refine hs.of_entries (s.grows_append p xs) (fun d j y hy => ?_) fun q j y hy => ?_
  · simp only [Store.append, table_modifyBuffer] at hy
    exact .inl hy
  · by_cases h : q = p
    · subst h
      simp only [Store.append, buffer_modifyBuffer_self, Array.getElem?_append] at hy
      split at hy
      · exact .inl hy
      · exact .inr (hx y (Array.mem_of_getElem? hy))
    · simp only [Store.append, buffer_modifyBuffer_of_ne s h] at hy
      exact .inl hy

end Store.Closed

/-! ### Reading a closed store -/

/-- The items of a list are cells of its buffer. -/
theorem Store.exists_cell_of_items {s : Store} {p : Pool} {seg : Segment p} {xs : Array p.Item}
    {x : p.Item} (h : s.items seg = .ok xs) (hx : x ∈ xs) :
    ∃ i : Nat, (s.buffer p)[i]? = some x := by
  rw [eq_extract_of_items h] at hx
  obtain ⟨i, hlt, hi⟩ := Array.mem_extract_iff_getElem.mp hx
  exact ⟨_, Array.getElem?_eq_some_iff.mpr ⟨_, hi⟩⟩

namespace Store.Closed

variable {s : Store} {p : Pool}

/-- The parts of a node that resolves. -/
theorem body (hs : s.Closed) {n : Node} {x : n.kind.Body} (hn : n.Resolves s)
    (hx : n.body? s = some x) : ∀ q ∈ (n.kind.bodySlots x).parts, q.Resolves s :=
  SlotPart.Passes.of_body? hn hx fun _ _ _ hy => (hs.node hy).parts

theorem item (hs : s.Closed) {seg : Segment p} {i : Nat} {x : p.Item} (hx : s.item seg i = .ok x) :
    s.ItemResolves p x :=
  hs.cell (getElem?_of_item hx)

theorem items (hs : s.Closed) {seg : Segment p} {xs : Array p.Item} (hx : s.items seg = .ok xs) :
    ∀ x ∈ xs, s.ItemResolves p x := by
  intro x hmem
  obtain ⟨i, hi⟩ := exists_cell_of_items hx hmem
  exact hs.cell hi

end Store.Closed

end GoTree
