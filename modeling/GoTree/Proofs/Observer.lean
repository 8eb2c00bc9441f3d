import GoTree.Proofs.Adequacy
import GoTree.Proofs.StoreLaws

/-!
# Observers

An **observer** is a transformer that answers each node with the node itself and never writes to
the store; its state and its decisions to descend are free. A traversal still copies every payload
and every list item out and writes it back. `Transformer.store_run_of_observes` says that none of
this is seen: on any store at all, with dangling handles, shared nodes and overlapping lists, the
store is in the end what it was, and the root is answered by itself.

Each write puts back what was read in the very same store, because nothing happened to the store
between the read and the write. This is the invariant of the induction (`Task.Kept`).
-/

namespace GoTree

variable {σ α : Type}

/-- The store when an action has ended, in whatever way. -/
def TransformM.storeAfter (x : TransformM σ α) (c : Context σ) : Store :=
  match x c with
  | .ok _ c' => c'.store
  | .error _ c' => c'.store

/-- A transformer that answers each node with itself and never writes to the store. -/
structure Transformer.Observes (t : Transformer σ) : Prop where
  answer : ∀ {n a : Node} {b : Bool} {c c' : Context σ}, t.replace n c = .ok (a, b) c' → a = n
  replace : ∀ (n : Node) (c : Context σ), TransformM.storeAfter (t.replace n) c = c.store
  leave : ∀ c : Context σ, TransformM.storeAfter t.leave c = c.store

theorem TransformM.store_eq_of_ok {x : TransformM σ α} {c c' : Context σ} {a : α}
    (hx : TransformM.storeAfter x c = c.store) (h : x c = .ok a c') : c'.store = c.store := by
  simpa only [storeAfter, h] using hx

theorem TransformM.store_eq_of_error {x : TransformM σ α} {c c' : Context σ} {e : Fault}
    (hx : TransformM.storeAfter x c = c.store) (h : x c = .error e c') :
    c'.store = c.store := by
  simpa only [storeAfter, h] using hx

/-- A task yields what it started from, and the store `s` is what it was. Of a statement list this
holds while nothing has been collected. -/
def Task.Kept (s s' : Store) : (k : Task) → k.Result → Prop
  | visit _ n, r => r = n ∧ s' = s
  | parts ps, qs => qs = ps ∧ s' = s
  | items .., _ => s' = s
  | stmts _ _ _ _ out, res => out = none → res = none ∧ s' = s

/-- A task that stops early leaves the store `s` as it was. -/
def Task.KeptOnAbort (s s' : Store) : Task → Prop
  | stmts _ _ _ _ out => out = none → s' = s
  | _ => s' = s

variable {t : Transformer σ} {d : Nat} {c c' : Context σ} {w : List Mark}

/-! ### Writing back -/

/-- A node is closed with the body it had. -/
theorem Transformer.Observes.close (ht : t.Observes) {n a r : Node} {x y : a.kind.Body}
    {c₁ : Context σ} {s s' : Store} {ps : List SlotPart} (hr : t.replace n c = .ok (a, true) c₁)
    (hx : a.body? c₁.store = some x)
    (hw : (Task.parts (a.kind.bodySlots x).parts).Kept c₁.store s ps)
    (hy : (a.kind.bodySlots x).Refills ps y) (hc : a.close y s = .ok r s') :
    r = n ∧ s' = c.store := by
  obtain rfl := ht.answer hr
  have hs₁ := TransformM.store_eq_of_ok (ht.replace _ _) hr
  obtain ⟨rfl, hs⟩ := hw
  have hyx : y = x := (Kind.lawful _).eq_of_refills_parts hy
  rw [← hs, ← hyx] at hx
  obtain ⟨rfl, rfl⟩ := Node.close_of_body? hx hc
  exact ⟨rfl, hs.trans hs₁⟩

/-- An item is written back where it was read. -/
theorem StoreM.store_of_setItem_of_item {p : Pool} {seg : Segment p} {i : Nat} {x : p.Item}
    {s s' : Store} (hx : s.item seg i = .ok x) (h : StoreM.setItem seg i x s = .ok () s') :
    s' = s := by
  rw [(StoreM.setItem_eq_ok h).2, Store.putItem_of_getElem? (Store.getElem?_of_item hx)]

/-- An item whose parts are kept is written back as it was. -/
theorem Task.Kept.setItem {l : String} {p : Pool} {seg : Segment p} {i : Nat} {x y : p.Item}
    {qs : List SlotPart} {s s₁ s₂ : Store} (hv : (Task.parts (p.slots l x).parts).Kept s s₁ qs)
    (hx : s.item seg i = .ok x) (hy : (p.slots l x).Refills qs y)
    (hs : StoreM.setItem seg i y s₁ = .ok () s₂) : s₂ = s := by
  obtain ⟨rfl, hs₁⟩ := hv
  have hyx : y = x := (p.lawful l).eq_of_refills_parts hy
  rw [hyx, hs₁] at hs
  exact StoreM.store_of_setItem_of_item hx hs

/-- A statement that is answered by itself is written to its cell. -/
theorem Takes.kept {l : String} {seg : Segment .stmts} {i : Nat} {x : Id .stmt} {s s' : Store}
    {out : Option (Array (Id .stmt))} (h : Takes l seg i s none (.stored x) w out s')
    (hx : s.item seg i = .ok x) : out = none ∧ s' = s := by
  cases h with
  | write hs => exact ⟨rfl, StoreM.store_of_setItem_of_item hx hs⟩

/-! ### Along the rules -/

theorem Completes.kept (ht : t.Observes) {k : Task} {r : k.Result}
    (h : Completes t d k c w r c') : k.Kept c.store c'.store r := by
  induction h with
  | stay hr => exact ⟨ht.answer hr, TransformM.store_eq_of_ok (ht.replace _ _) hr⟩
  | down hr hx hw hy hc hl ih =>
    obtain ⟨rfl, hs⟩ := ht.close hr hx ih hy hc
    exact ⟨rfl, (TransformM.store_eq_of_ok (ht.leave _) hl).trans hs⟩
  | nil => exact ⟨rfl, rfl⟩
  | node hv hk hw ihv ihw =>
    obtain ⟨rfl, hs⟩ := ihv
    obtain ⟨rfl, hs'⟩ := ihw
    exact ⟨rfl, hs'.trans hs⟩
  | list hp hs hi hw ihi ihw =>
    obtain ⟨rfl, hs'⟩ := ihw
    exact ⟨rfl, hs'.trans ihi⟩
  | stmts hs hi hc hw ihi ihw =>
    -- nothing was collected, so the list keeps its handle
    obtain ⟨rfl, hs₁⟩ := ihi rfl
    cases hc
    obtain ⟨rfl, hs₂⟩ := ihw
    exact ⟨rfl, hs₂.trans hs₁⟩
  | itemsDone => exact rfl
  | itemsNext hx hv hy hs hw ihv ihw => exact Eq.trans ihw (ihv.setItem hx hy hs)
  | stmtsDone => exact fun hout => ⟨hout, rfl⟩
  | stmtsNext hx hv ha hw ihv ihw =>
    rintro rfl
    obtain ⟨rfl, hs₁⟩ := ihv
    rw [← hs₁] at hx
    obtain ⟨rfl, rfl⟩ := ha.kept hx
    obtain ⟨rfl, hs₂⟩ := ihw rfl
    exact ⟨rfl, hs₂.trans hs₁⟩

theorem Aborts.kept (ht : t.Observes) {k : Task} {e : Abort} (h : Aborts t d k c w e c') :
    k.KeptOnAbort c.store c'.store := by
  induction h with
  | halt hr => exact TransformM.store_eq_of_error (ht.replace _ _) hr
  | danglingNode hr hx => exact TransformM.store_eq_of_ok (ht.replace _ _) hr
  | inner hr hx hw ih => exact Eq.trans ih (TransformM.store_eq_of_ok (ht.replace _ _) hr)
  | close hr hx hw hy hc =>
    have hs₁ := TransformM.store_eq_of_ok (ht.replace _ _) hr
    obtain ⟨-, hs₂⟩ := hw.kept ht
    exact (Node.store_of_close_error hc).trans (hs₂.trans hs₁)
  | leave hr hx hw hy hc hl =>
    obtain ⟨-, hs⟩ := ht.close hr hx (hw.kept ht) hy hc
    exact (TransformM.store_eq_of_error (ht.leave _) hl).trans hs
  | deep => exact rfl
  | node hv ih => exact ih
  | mismatch hv hk => exact (hv.kept ht).2
  | danglingList hs => exact rfl
  | list hp hs hi ih => exact ih
  | stmts hs hi ih => exact ih rfl
  | settle hs hi hc =>
    obtain ⟨rfl, -⟩ := hi.kept ht rfl
    cases hc
  | rest hv hw ih => exact Eq.trans ih (hv.kept ht).2
  | itemRead hx => exact rfl
  | item hx hv ih => exact ih
  | itemWrite hx hv hy hs =>
    obtain ⟨-, hs₁⟩ := hv.kept ht
    exact (StoreM.store_of_setItem_error hs).trans hs₁
  | itemsRest hx hv hy hs hw ih => exact Eq.trans ih ((hv.kept ht).setItem hx hy hs)
  | stmtRead hx => exact fun _ => rfl
  | stmt hx hv ih => exact fun _ => ih
  | refused hx hv hr =>
    rintro rfl
    obtain ⟨rfl, hs₁⟩ := hv.kept ht
    cases hr with
    | write hs => exact (StoreM.store_of_setItem_error hs).trans hs₁
    | mismatch hs hb => exact absurd rfl hs
  | stmtsRest hx hv ha hw ih =>
    rintro rfl
    obtain ⟨rfl, hs₁⟩ := hv.kept ht
    rw [← hs₁] at hx
    obtain ⟨rfl, rfl⟩ := ha.kept hx
    exact Eq.trans (ih rfl) hs₁

/-- **Observers change nothing.** Whatever the store, the root and the depth: the store is in the
end what it was in every table, span and buffer, also when the traversal was aborted, and a
traversal that returns answers the root with itself. -/
theorem Transformer.store_run_of_observes (ht : t.Observes) (depth : Nat) (root : Node)
    (store : Store) (state : σ) :
    (t.run depth root store state).store = store ∧
      ∀ r, (t.run depth root store state).result = .ok r → r = root := by
  obtain ⟨w, hw⟩ := t.exists_history depth root store state
  rcases hres : (t.run depth root store state).result with e | r
  · refine ⟨(hw.aborts hres).kept ht, ?_⟩
    rintro r ⟨⟩
  · obtain ⟨rfl, hs⟩ := (hw.completes hres).kept ht
    refine ⟨hs, ?_⟩
    rintro r' ⟨⟩
    rfl

/-! ### An observer on a tangled store -/

/-- Counts the nodes it is shown, and passes over the children of every third one. -/
def tally : Transformer Nat where
  replace := fun n ⟨s, k⟩ => .ok (n, k % 3 != 2) ⟨s, k + 1⟩

private theorem tally_observes : tally.Observes where
  answer := by
    rintro n a b c c' ⟨⟩
    rfl
  replace _ _ := rfl
  leave _ := rfl

/-- A store in which two lists overlap, a statement is shared and an id is dangling. -/
def tangled : Store where
  tables := { stmts := .ofNodes #[.block ⟨0, 4⟩, .block ⟨1, 2⟩, .bad] }
  buffers := { stmts := #[⟨1⟩, ⟨2⟩, ⟨2⟩, ⟨9⟩] }

/-- The first list runs into the dangling id, the second does not; the store is the same after
both. -/
theorem store_run_tally :
    (tally.Observes ∧ (tally.run 5 (.stored (⟨0⟩ : Id .stmt)) tangled 0).store = tangled) ∧
      (tally.run 5 (.stored (⟨0⟩ : Id .stmt)) tangled 0).result =
        .error (.violation (.danglingNode "statement" 9)) ∧
      (tally.run 5 (.stored (⟨1⟩ : Id .stmt)) tangled 0).result =
        .ok (.stored (⟨1⟩ : Id .stmt)) := by
  refine ⟨⟨tally_observes, ?_⟩, rfl, rfl⟩
  exact (Transformer.store_run_of_observes tally_observes 5 _ tangled 0).1

end GoTree
