import GoTree.Proofs.Moments
import GoTree.Proofs.Observer

/-!
# Bounds

The traversal follows handles that may be arbitrary words. It tests a list once, in unbounded
arithmetic, when the list is taken up, and afterwards reads and writes its items one by one, each
time through a range of the buffer whose end is computed in 32 bits. In between the transformer runs
and statements are spliced.

`Transformer.handle_safety` says that the one test is enough. If the transformer never faults in a
run and never **shrinks** a table or a buffer, then a run that ends returns or stops at a violation,
and its own reads and writes meet no fault, provided that no buffer outgrows 32 bits. Since sizes
never decrease, it is enough to ask this of the final store. What carries the proof is that a list
that was in its buffer once stays in it (`Task.InBounds`).
-/

namespace GoTree

variable {σ : Type}

/-- No buffer has more cells than a 32-bit word can count. -/
def Store.Small (s : Store) : Prop :=
  ∀ p, (s.buffer p).size < wordSize

namespace Moment

/-- The transformer, called or told at a moment, faults. -/
def Faults (t : Transformer σ) : Moment σ → Prop
  | call n c => ∃ e c', t.replace n c = .error e c'
  | leave c => ∃ e c', t.leave c = .error e c'
  | lookUp _ _ => False
  | takeUp _ _ _ => False

/-- The store when the transformer has acted at a moment, whether or not it faulted. -/
def storeAfter (t : Transformer σ) : Moment σ → Store
  | call n c => TransformM.storeAfter (t.replace n) c
  | leave c => TransformM.storeAfter t.leave c
  | lookUp _ c => c.store
  | takeUp _ _ c => c.store

/-- The transformer makes no table and no buffer shorter at a moment. -/
def NoShrink (t : Transformer σ) (m : Moment σ) : Prop :=
  m.context.store.Grows (m.storeAfter t)

end Moment

theorem TransformM.storeAfter_of_ok {α : Type} {x : TransformM σ α} {c c' : Context σ} {a : α}
    (h : x c = .ok a c') : storeAfter x c = c'.store := by
  rw [storeAfter, h]

/-! ### Reads and writes that succeed -/

section Access

variable {p : Pool} {c : Category} {s s' : Store} {seg : Segment p} {i : Nat}

/-- In a small store, a list that ends in its buffer is a range of it. -/
theorem Store.Small.fault?_eq_none (hs : s.Small) (h : seg.stop ≤ (s.buffer p).size) :
    seg.fault? (s.buffer p).size = none :=
  Segment.fault?_eq_none_iff.mpr ⟨Nat.lt_of_le_of_lt h (hs p), h⟩

theorem Store.Small.itemFault?_eq_none (hs : s.Small) (h : seg.stop ≤ (s.buffer p).size)
    (hi : i < seg.length) : seg.itemFault? (s.buffer p).size i = none := by
  rw [Segment.itemFault?, hs.fault?_eq_none h]
  exact if_pos hi

theorem Store.Small.items_eq (hs : s.Small) (h : seg.stop ≤ (s.buffer p).size) :
    s.items seg = .ok ((s.buffer p).extract seg.start.toNat seg.stop) := by
  rw [Store.items, hs.fault?_eq_none h]

theorem Store.Small.exists_item (hs : s.Small) (h : seg.stop ≤ (s.buffer p).size)
    (hi : i < seg.length) : ∃ x, s.item seg i = .ok x := by
  have hlt : seg.start.toNat + i < (s.buffer p).size := by
    unfold Segment.stop at h
    unfold Segment.length at hi
    omega
  refine ⟨(s.buffer p)[seg.start.toNat + i], ?_⟩
  rw [Store.item, hs.itemFault?_eq_none h hi]
  simp only [Array.getElem?_eq_getElem hlt]

theorem Store.Small.setItem_eq (hs : s.Small) (h : seg.stop ≤ (s.buffer p).size)
    (hi : i < seg.length) (x : p.Item) :
    StoreM.setItem seg i x s = .ok () (s.putItem seg i x) := by
  rw [StoreM.setItem, hs.itemFault?_eq_none h hi]

/-- The items are in the buffer whether or not their handle fits. -/
theorem StoreM.store_of_list {xs : Array p.Item} :
    (∀ seg', StoreM.list p xs s = .ok seg' s' → s' = s.append p xs) ∧
      ∀ e, StoreM.list p xs s = .error e s' → s' = s.append p xs := by
  refine ⟨fun seg' h => ?_, fun e h => ?_⟩ <;>
  · simp only [StoreM.list] at h
    split at h <;> (try split at h) <;> (try split at h) <;> cases h <;> rfl

theorem Store.size_buffer_append (s : Store) (p : Pool) (xs : Array p.Item) :
    ((s.append p xs).buffer p).size = (s.buffer p).size + xs.size := by
  simp [append]

/-- A new list has a handle if its buffer does not outgrow 32 bits. -/
theorem StoreM.list_ne_error {xs : Array p.Item} {e : Fault} (hs : s'.Small) :
    StoreM.list p xs s ≠ .error e s' := by
  intro h
  have hsize := hs p
  rw [StoreM.store_of_list.2 e h, Store.size_buffer_append] at hsize
  have hstart : ¬wordSize ≤ (s.buffer p).size := by omega
  have hlen : ¬wordSize ≤ xs.size := by omega
  simp only [StoreM.list, hstart, hlen, if_false] at h
  split at h <;> cases h

theorem Segment.settle_ne_error {seg : Segment .stmts} {out : Option (Array (Id .stmt))}
    {e : Fault} (hs : s'.Small) : seg.settle out s ≠ .error e s' := by
  cases out with
  | none => exact fun h => by cases h
  | some out => exact StoreM.list_ne_error hs

/-- A node that had a body once can be closed at any later time. -/
theorem Node.close_ne_error {n : Node} {x y : n.kind.Body} {e : Fault} {s₁ s₂ : Store}
    (hx : n.body? s = some x) (hg : s.Grows s₁) : n.close y s₁ ≠ .error e s₂ := by
  obtain ⟨k, v⟩ := n
  cases k with
  | stored b =>
    have hv : v.index < (s₁.table b).size := hg.allocated (Store.allocated_of_get? hx)
    intro h
    simp only [Node.close, StoreM.save, bind, EStateM.bind, pure, EStateM.pure, if_pos hv] at h
    cases h
  | _ => exact fun h => by cases h

end Access

/-! ### Sizes never decrease -/

section Rules

variable {t : Transformer σ} {d : Nat} {k : Task} {c c' : Context σ} {w : List Mark}

private theorem Node.grows_close {n r : Node} {x : n.kind.Body} {s s' : Store}
    (h : n.close x s = .ok r s') : s.Grows s' := by
  obtain ⟨k, v⟩ := n
  cases k with
  | stored b =>
    simp only [close, bind, EStateM.bind, pure, EStateM.pure] at h
    split at h
    · next hs =>
      cases h
      rw [(StoreM.save_eq_ok hs).2]
      exact s.grows_put v x
    · cases h
  | _ =>
    cases h
    exact .refl _

theorem StoreM.grows_setItem {p : Pool} {seg : Segment p} {i : Nat} {x : p.Item} {s s' : Store}
    (h : StoreM.setItem seg i x s = .ok () s') : s.Grows s' := by
  rw [(StoreM.setItem_eq_ok h).2]
  exact s.grows_putItem seg i x

theorem Segment.grows_settle {seg seg' : Segment .stmts} {out : Option (Array (Id .stmt))}
    {s s' : Store} (h : seg.settle out s = .ok seg' s') : s.Grows s' := by
  cases out with
  | none =>
    cases h
    exact .refl _
  | some out =>
    rw [StoreM.store_of_list.1 seg' h]
    exact s.grows_append .stmts out

theorem Takes.grows {l : String} {seg : Segment .stmts} {i : Nat} {s s' : Store} {r : Node}
    {out out' : Option (Array (Id .stmt))} (h : Takes l seg i s out r w out' s') : s.Grows s' := by
  cases h with
  | write hs => exact StoreM.grows_setItem hs
  | push => exact .refl _
  | splice => exact .refl _

private theorem Moment.NoShrink.of_replace {n a : Node} {b : Bool}
    (hg : (Moment.call n c).NoShrink t) (h : t.replace n c = .ok (a, b) c') :
    c.store.Grows c'.store := by
  rwa [Moment.NoShrink, Moment.storeAfter, TransformM.storeAfter_of_ok h] at hg

theorem Moment.NoShrink.of_leave (hg : (Moment.leave c).NoShrink t) (h : t.leave c = .ok () c') :
    c.store.Grows c'.store := by
  rwa [Moment.NoShrink, Moment.storeAfter, TransformM.storeAfter_of_ok h] at hg

/-- No task makes a table or a buffer shorter, if the transformer does not. -/
theorem Completes.grows {r : k.Result} (h : Completes t d k c w r c')
    (hg : ∀ m, Occurs t d k c m → m.NoShrink t) : c.store.Grows c'.store := by
  induction h with
  | stay hr => exact (hg _ .call).of_replace hr
  | down hr hx hw hy hc hl ih =>
    have hg₁ := (hg _ .call).of_replace hr
    have hg₂ := ih fun m hm => hg m (.inner hr hx hm)
    have hg₃ := (hg _ (.leave hr hx hw hy hc)).of_leave hl
    exact hg₁.trans (hg₂.trans ((Node.grows_close hc).trans hg₃))
  | nil => exact .refl _
  | node hv hk hw ihv ihw =>
    have hg₁ := ihv fun m hm => hg m (.node hm)
    exact hg₁.trans (ihw fun m hm => hg m (.rest (.node hv hk .nil) hm))
  | list hp hs hi hw ihi ihw =>
    have hg₁ := ihi fun m hm => hg m (.list hp hs hm)
    exact hg₁.trans (ihw fun m hm => hg m (.rest (.list hp hs hi .nil) hm))
  | stmts hs hi hc hw ihi ihw =>
    have hg₁ := (ihi fun m hm => hg m (.stmts hs hm)).trans (Segment.grows_settle hc)
    exact hg₁.trans (ihw fun m hm => hg m (.rest (.stmts hs hi hc .nil) hm))
  | itemsDone => exact .refl _
  | itemsNext hx hv hy hs hw ihv ihw =>
    have hg₁ := (ihv fun m hm => hg m (.item hx hm)).trans (StoreM.grows_setItem hs)
    exact hg₁.trans (ihw fun m hm => hg m (.itemsRest hx hv hy hs hm))
  | stmtsDone => exact .refl _
  | stmtsNext hx hv ha hw ihv ihw =>
    have hg₁ := (ihv fun m hm => hg m (.stmt hx hm)).trans ha.grows
    exact hg₁.trans (ihw fun m hm => hg m (.stmtsRest hx hv ha hm))

/-! ### The traversal meets no fault -/

/-- The items that a task has to do are items of a list in its buffer. -/
def Task.InBounds (s : Store) : Task → Prop
  | items _ p seg n i => seg.stop ≤ (s.buffer p).size ∧ i + n ≤ seg.length
  | stmts _ seg n i _ => seg.stop ≤ (s.buffer .stmts).size ∧ i + n ≤ seg.length
  | _ => True

/-- An answer for an item in bounds is refused at a violation only. -/
private theorem Refuses.not_fault {l : String} {seg : Segment .stmts} {i : Nat} {s s' : Store}
    {r : Node} {out : Option (Array (Id .stmt))} {f : Fault} (hs : s'.Small)
    (hb : seg.stop ≤ (s.buffer .stmts).size) (hi : i < seg.length) :
    ¬Refuses l seg i s out r w (.fault f) s' := by
  intro h
  cases h with
  | write he =>
    obtain rfl := StoreM.store_of_setItem_error he
    rw [hs.setItem_eq hb hi] at he
    cases he
  | block hb' hn =>
    rw [hs.items_eq hb'] at hn
    cases hn
  | collect hb' hn ho =>
    rw [hs.items_eq hb] at ho
    cases ho

/-- A task that stops at a fault has met the bound on its nesting. -/
theorem Aborts.eq_tooDeep {e : Abort} (h : Aborts t d k c w e c')
    (ht : ∀ m, Occurs t d k c m → ¬m.Faults t ∧ m.NoShrink t) (hk : k.InBounds c.store)
    (hs : c'.store.Small) {f : Fault} (he : e = .fault f) : f = .tooDeep := by
  induction h with
  | halt hr => exact absurd ⟨_, _, hr⟩ (ht _ .call).1
  | danglingNode | mismatch | danglingList => cases he
  | inner hr hx _ ih => exact ih (fun m hm => ht m (.inner hr hx hm)) trivial hs he
  | close hr hx hw hy hc =>
    have hg := hw.grows fun m hm => (ht m (.inner hr hx hm)).2
    exact absurd hc (Node.close_ne_error hx hg)
  | leave hr hx hw hy hc hl => exact absurd ⟨_, _, hl⟩ (ht _ (.leave hr hx hw hy hc)).1
  | deep =>
    cases he
    rfl
  | node _ ih => exact ih (fun m hm => ht m (.node hm)) trivial hs he
  | list hp hb _ ih =>
    exact ih (fun m hm => ht m (.list hp hb hm)) ⟨hb, Nat.le_of_eq (Nat.zero_add _)⟩ hs he
  | stmts hb _ ih =>
    exact ih (fun m hm => ht m (.stmts hb hm)) ⟨hb, Nat.le_of_eq (Nat.zero_add _)⟩ hs he
  | settle hb hi hc => exact absurd hc (Segment.settle_ne_error hs)
  | rest hv _ ih => exact ih (fun m hm => ht m (.rest hv hm)) trivial hs he
  | @itemRead d l p seg n i e c hx =>
    obtain ⟨x, hx'⟩ := hs.exists_item (i := i) hk.1 (by have := hk.2; omega)
    rw [hx] at hx'
    cases hx'
  | item hx _ ih => exact ih (fun m hm => ht m (.item hx hm)) trivial hs he
  | @itemWrite d l p seg n i x y qs c c₁ s w e hx hv hy hw =>
    -- the list is still in its buffer after the parts of the item
    obtain rfl := StoreM.store_of_setItem_error hw
    have hg := hv.grows fun m hm => (ht m (.item hx hm)).2
    rw [hs.setItem_eq (Nat.le_trans hk.1 (hg.buffer p)) (by have := hk.2; omega)] at hw
    cases hw
  | @itemsRest d l p seg n i x y qs c c₁ c₂ s u w e hx hv hy hw _ ih =>
    have hg := (hv.grows fun m hm => (ht m (.item hx hm)).2).trans (StoreM.grows_setItem hw)
    exact ih (fun m hm => ht m (.itemsRest hx hv hy hw hm))
      ⟨Nat.le_trans hk.1 (hg.buffer p), by have := hk.2; omega⟩ hs he
  | @stmtRead d l seg n i out e c hx =>
    obtain ⟨x, hx'⟩ := hs.exists_item (i := i) hk.1 (by have := hk.2; omega)
    rw [hx] at hx'
    cases hx'
  | stmt hx _ ih => exact ih (fun m hm => ht m (.stmt hx hm)) trivial hs he
  | refused hx hv ha =>
    subst he
    have hg := hv.grows fun m hm => (ht m (.stmt hx hm)).2
    have hb := Nat.le_trans hk.1 (hg.buffer .stmts)
    exact absurd ha (Refuses.not_fault hs hb (by have := hk.2; omega))
  | stmtsRest hx hv ha _ ih =>
    have hg := (hv.grows fun m hm => (ht m (.stmt hx hm)).2).trans ha.grows
    exact ih (fun m hm => ht m (.stmtsRest hx hv ha hm))
      ⟨Nat.le_trans hk.1 (hg.buffer .stmts), by have := hk.2; omega⟩ hs he

end Rules

/-- **Handle safety.** Take any store, any root and any transformer. If the transformer never faults
in the run and never shrinks a table or a buffer in it, and if no buffer has outgrown 32 bits in the
end, then

* a run that ends (that is not stopped by the bound on its nesting) returns or stops at a violation;
* it stops with a dangling list exactly when it comes to take up a list, in a slot or in an expanded
  block to be spliced, whose end exceeds the size that its buffer has at that moment;
* it stops with a dangling node exactly when it comes to look up an id, of a node that it descends
  into, which is not below the size that its table has at that moment. -/
theorem Transformer.handle_safety (t : Transformer σ) (depth : Nat) (root : Node) (store : Store)
    (state : σ)
    (hf : ∀ m, Occurs t depth (.visit .root root) ⟨store, state⟩ m → ¬m.Faults t)
    (hg : ∀ m, Occurs t depth (.visit .root root) ⟨store, state⟩ m → m.NoShrink t)
    (hs : (t.run depth root store state).store.Small) :
    let out := t.run depth root store state
    (out.result ≠ .error (.fault .tooDeep) →
      (∃ r, out.result = .ok r) ∨ ∃ v, out.result = .error (.violation v)) ∧
    (∀ l start len, out.result = .error (.violation (.danglingList l start len)) ↔
      ∃ (p : Pool) (seg : Segment p) (c : Context σ),
        Occurs t depth (.visit .root root) ⟨store, state⟩ (.takeUp l seg c) ∧
          seg.start = start ∧ seg.len = len ∧
          (c.store.buffer p).size < start.toNat + len.toNat) ∧
    ∀ name i, out.result = .error (.violation (.danglingNode name i)) ↔
      ∃ (b : Category) (id : Id b) (c : Context σ),
        Occurs t depth (.visit .root root) ⟨store, state⟩ (.lookUp id c) ∧
          name = b.name ∧ i = id.raw ∧ (c.store.table b).size ≤ id.index := by
  intro out
  refine ⟨fun hdeep => ?_, fun l start len => ?_, fun name i => ?_⟩
  · obtain ⟨w, hw⟩ := t.exists_history depth root store state
    rcases hres : out.result with e | r
    · cases e with
      | violation v => exact .inr ⟨v, rfl⟩
      | fault f =>
        have hf' : f = .tooDeep :=
          (hw.aborts hres).eq_tooDeep (fun m hm => ⟨hf m hm, hg m hm⟩) trivial hs rfl
        rw [hres, hf'] at hdeep
        exact absurd rfl hdeep
    · exact .inl ⟨r, rfl⟩
  · rw [result_eq_violation_iff rfl]
    constructor
    · rintro ⟨m, hm, hd⟩
      cases hd with
      | list h => exact ⟨_, _, _, hm, rfl, rfl, h⟩
    · rintro ⟨p, seg, c, hm, rfl, rfl, h⟩
      exact ⟨_, hm, .list h⟩
  · rw [result_eq_violation_iff rfl]
    constructor
    · rintro ⟨m, hm, hd⟩
      cases hd with
      | node h => exact ⟨_, _, _, hm, rfl, rfl, h⟩
    · rintro ⟨b, id, c, hm, rfl, rfl, h⟩
      exact ⟨_, hm, .node h⟩

/-! ### Wild handles -/

/-- The first statement of the list is a block whose end needs more than 32 bits. -/
def wild : Store where
  tables := { stmts := .ofNodes #[.block ⟨0, 2⟩, .block ⟨0xFFFFFFFF, 2⟩, .bad] }
  buffers := { stmts := #[⟨1⟩, ⟨2⟩] }

private theorem tally_not_faults (m : Moment Nat) : ¬m.Faults tally := by
  cases m with
  | call | leave =>
    rintro ⟨e, c', h⟩
    cases h
  | lookUp | takeUp => exact id

private theorem tally_noShrink (m : Moment Nat) : m.NoShrink tally := by
  cases m <;> exact .refl _

/-- The block is reported, so there is a moment at which the run takes it up. -/
theorem handle_safety_wild :
    let out := tally.run 5 (.stored (⟨0⟩ : Id .stmt)) wild 0
    ((∀ m, Occurs tally 5 (.visit .root (.stored (⟨0⟩ : Id .stmt))) ⟨wild, 0⟩ m →
        ¬m.Faults tally ∧ m.NoShrink tally) ∧ out.store.Small) ∧
      out.result = .error (.violation (.danglingList "Stmt::Block.stmts" 0xFFFFFFFF 2)) ∧
      ∃ (p : Pool) (seg : Segment p) (c : Context Nat),
        Occurs tally 5 (.visit .root (.stored (⟨0⟩ : Id .stmt))) ⟨wild, 0⟩
          (.takeUp "Stmt::Block.stmts" seg c) ∧ seg.start = 0xFFFFFFFF ∧ seg.len = 2 ∧
          (c.store.buffer p).size < 0x100000001 := by
  intro out
  have hs : out.store.Small := by
    intro p
    cases p <;> decide
  have hr : out.result = .error (.violation (.danglingList "Stmt::Block.stmts" 0xFFFFFFFF 2)) := rfl
  refine ⟨⟨fun m _ => ⟨tally_not_faults m, tally_noShrink m⟩, hs⟩, hr, ?_⟩
  exact ((tally.handle_safety 5 _ wild 0 (fun m _ => tally_not_faults m)
    (fun m _ => tally_noShrink m) hs).2.1 _ _ _).mp hr

end GoTree
