import GoTree.Proofs.Bounds
import GoTree.Proofs.ClosedStores
import GoTree.Proofs.PrintedParts
import GoTree.Proofs.Refinement
import GoTree.Proofs.Rendering

/-!
# Traversal keeps stores closed

If the transformer of a run leaves closed stores closed, shrinks nothing and answers with nodes that
resolve, then the store is closed at every moment of the run and at its end, however the run ends,
and no handle is ever found dangling (`Transformer.closed_run`). This is an invariant of the rules:
a task that starts from handles that resolve (`Task.Resolves`) ends with handles that resolve
(`Task.Yields`). What is held across the work of the transformer (copies of payloads, the rest of a
list, statements collected on the side) stays resolved because nothing shrinks.

A closed store can be printed. `Scans.ok_or_tooDeep` derives this from the rules of printing, for
stores in which every name is interned.
-/

namespace GoTree

variable {σ : Type}

/-- At a moment in a closed store, the transformer leaves a closed store, whether or not it faults,
and answers a node that resolves with one that does. -/
def Moment.KeepsClosed (t : Transformer σ) : Moment σ → Prop
  | call n c => c.store.Closed → n.Resolves c.store →
      (TransformM.storeAfter (t.replace n) c).Closed ∧
        ∀ a b c', t.replace n c = .ok (a, b) c' → a.Resolves c'.store
  | leave c => c.store.Closed → (TransformM.storeAfter t.leave c).Closed
  | lookUp _ _ => True
  | takeUp _ _ _ => True

/-! ### Steps -/

section Steps

variable {t : Transformer σ} {c c' : Context σ} {s s' : Store}

private theorem TransformM.storeAfter_of_error {α : Type} {x : TransformM σ α} {e : Fault}
    (h : x c = .error e c') : storeAfter x c = c'.store := by
  rw [storeAfter, h]

theorem Moment.KeepsClosed.of_replace {n a : Node} {b : Bool} (hm : (Moment.call n c).KeepsClosed t)
    (hs : c.store.Closed) (hn : n.Resolves c.store) (h : t.replace n c = .ok (a, b) c') :
    c'.store.Closed ∧ a.Resolves c'.store := by
  obtain ⟨hs', ha⟩ := hm hs hn
  rw [TransformM.storeAfter_of_ok h] at hs'
  exact ⟨hs', ha a b c' h⟩

private theorem Moment.KeepsClosed.of_leave (hm : (Moment.leave c).KeepsClosed t)
    (hs : c.store.Closed) (h : t.leave c = .ok () c') : c'.store.Closed := by
  have hs' := hm hs
  rwa [TransformM.storeAfter_of_ok h] at hs'

/-- Emptying the slots of a payload does not touch what is in no slot. -/
private theorem Category.aside_blank (b : Category) (x : b.Payload) :
    b.aside (b.slots x).blank = b.aside x := by
  cases b with
  | file =>
    obtain ⟨doc, name, decls, comments⟩ := x
    cases doc <;> rfl
  | _ => rfl

private theorem Category.aside_eq_of_refills {b : Category} {x y : b.Payload} {ps : List SlotPart}
    (h : (b.slots x).Refills ps y) : b.aside y = b.aside x := by
  rw [← b.aside_blank y, ← b.aside_blank x, b.lawful.blank_eq h]

/-- A refilled payload resolves if the new parts do, and if the old payload did once. -/
private theorem Store.NodeResolves.of_refills {b : Category} {x y : b.Payload} {ps : List SlotPart}
    (hx : s.NodeResolves b x) (hg : s.Grows s') (hps : ∀ q ∈ ps, q.Resolves s')
    (h : (b.slots x).Refills ps y) : s'.NodeResolves b y := by
  refine ⟨?_, ?_⟩
  · rwa [b.lawful.parts_eq h]
  · rw [Category.aside_eq_of_refills h]
    exact (hx.mono hg).aside

/-- Closing a node with parts that resolve. `s` is the store in which its body was read. -/
theorem Node.closed_close {n r : Node} {x y : n.kind.Body} {ps : List SlotPart} {s₁ s₂ : Store}
    (hs : s.Closed) (hx : n.body? s = some x) (hg : s.Grows s₁) (hs₁ : s₁.Closed)
    (hps : ∀ q ∈ ps, q.Resolves s₁) (hy : (n.kind.bodySlots x).Refills ps y)
    (h : n.close y s₁ = .ok r s₂) : s₂.Closed ∧ r.Resolves s₂ := by
  obtain ⟨k, v⟩ := n
  cases k with
  | stored b =>
    simp only [close, bind, EStateM.bind, pure, EStateM.pure] at h
    split at h
    · next hsave =>
      cases h
      obtain ⟨ha, rfl⟩ := StoreM.save_eq_ok hsave
      have hyr := (hs.node hx).of_refills hg hps hy
      refine ⟨hs₁.put hyr ha, Node.resolves_stored ?_⟩
      exact (s₁.grows_put v y).allocated ha
    · cases h
  | _ =>
    cases h
    refine ⟨hs₁, SlotPart.Passes.node ⟨_, rfl⟩ ?_⟩
    rw [← (Kind.lawful _).parts_eq hy] at hps
    exact hps

/-- The parts of an item that is read. -/
theorem Store.Closed.parts_of_item {l : String} {p : Pool} {seg : Segment p} {i : Nat} {x : p.Item}
    (hs : s.Closed) (hx : s.item seg i = .ok x) : ∀ q ∈ (p.slots l x).parts, q.Resolves s :=
  SlotPart.Passes.relabel_item (hs.item hx) l

/-- A refilled item is written back. -/
theorem StoreM.closed_setItem {l : String} {p : Pool} {seg : Segment p} {i : Nat} {x y : p.Item}
    {qs : List SlotPart} (hs : s.Closed) (hqs : ∀ q ∈ qs, q.Resolves s)
    (hy : (p.slots l x).Refills qs y) (h : StoreM.setItem seg i y s = .ok () s') : s'.Closed := by
  obtain ⟨ha, rfl⟩ := StoreM.setItem_eq_ok h
  rw [← (p.lawful l).parts_eq hy] at hqs
  exact hs.putItem (SlotPart.Passes.relabel_item hqs "") ha

/-! ### Statement lists -/

/-- What has been collected of a statement list resolves. -/
def CollectedResolves (s : Store) (out : Option (Array (Id .stmt))) : Prop :=
  ∀ ids ∈ out, ∀ id ∈ ids, s.ItemResolves .stmts id

theorem CollectedResolves.none : CollectedResolves s none := by
  rintro ids ⟨⟩

theorem CollectedResolves.some {ids : Array (Id .stmt)}
    (h : ∀ id ∈ ids, s.ItemResolves .stmts id) : CollectedResolves s (some ids) := by
  rintro ids' ⟨⟩
  exact h

theorem CollectedResolves.mono {out : Option (Array (Id .stmt))} (h : CollectedResolves s out)
    (hg : s.Grows s') : CollectedResolves s' out :=
  fun ids ho id hid => SlotPart.Resolves.mono_all (h ids ho id hid) hg

private theorem Collected.resolves {seg : Segment .stmts} {i : Nat}
    {out : Option (Array (Id .stmt))}
    {old : Array (Id .stmt)} (h : Collected seg i s out old) (hs : s.Closed)
    (ho : CollectedResolves s out) : ∀ id ∈ old, s.ItemResolves .stmts id := by
  cases h with
  | aside out => exact ho old rfl
  | inPlace hx =>
    intro id hid
    obtain ⟨j, hj, hij⟩ := Array.mem_extract_iff_getElem.mp hid
    exact hs.items hx id (Array.mem_of_getElem hij)

/-- Taking an answer that resolves. -/
theorem Takes.closed {l : String} {seg : Segment .stmts} {i : Nat} {r : Node} {w : List Mark}
    {out out' : Option (Array (Id .stmt))} (h : Takes l seg i s out r w out' s') (hs : s.Closed)
    (hr : r.Resolves s) (ho : CollectedResolves s out) :
    s'.Closed ∧ CollectedResolves s' out' := by
  cases h with
  | write hw =>
    obtain ⟨ha, rfl⟩ := StoreM.setItem_eq_ok hw
    exact ⟨hs.putItem (Store.itemResolves_stmt.mpr hr) ha, .none⟩
  | push out id =>
    refine ⟨hs, .some fun id' hid => ?_⟩
    rcases Array.mem_push.mp hid with hid | rfl
    · exact ho out rfl id' hid
    · exact Store.itemResolves_stmt.mpr hr
  | splice hb hn hc =>
    refine ⟨hs, .some fun id hid => ?_⟩
    rcases Array.mem_append.mp hid with hid | hid
    · exact hc.resolves hs ho id hid
    · exact hs.items hn id hid

/-- The handle of a new list ends in its buffer. -/
theorem StoreM.stop_le_of_list {p : Pool} {xs : Array p.Item} {seg : Segment p}
    (h : StoreM.list p xs s = .ok seg s') : seg.stop ≤ (s'.buffer p).size := by
  have hsize : (s'.buffer p).size = (s.buffer p).size + xs.size := by
    rw [StoreM.store_of_list.1 seg h, Store.size_buffer_append]
  simp only [StoreM.list] at h
  split at h
  · cases h
  · next hstart =>
    split at h
    · cases h
    · next hlen =>
      split at h
      · cases h
        exact Nat.zero_le _
      · cases h
        rw [hsize, Segment.stop, Nat.toUInt32_eq, Nat.toUInt32_eq,
          UInt32.toNat_ofNat_of_lt' (Nat.lt_of_not_le hstart),
          UInt32.toNat_ofNat_of_lt' (Nat.lt_of_not_le hlen)]

/-- Collected statements become a list, also if its handle does not fit. -/
theorem Segment.closed_settle {seg seg' : Segment .stmts} {out : Option (Array (Id .stmt))}
    (h : seg.settle out s = .ok seg' s') (hs : s.Closed) (ho : CollectedResolves s out)
    (hb : seg.stop ≤ (s.buffer .stmts).size) :
    s'.Closed ∧ seg'.stop ≤ (s'.buffer .stmts).size := by
  cases out with
  | none =>
    cases h
    exact ⟨hs, hb⟩
  | some ids =>
    refine ⟨?_, StoreM.stop_le_of_list h⟩
    rw [StoreM.store_of_list.1 seg' h]
    exact hs.append (ho ids rfl)

private theorem Segment.closed_settle_error {seg : Segment .stmts} {out : Option (Array (Id .stmt))}
    {e : Fault} (h : seg.settle out s = .error e s') (hs : s.Closed)
    (ho : CollectedResolves s out) : s'.Closed := by
  cases out with
  | none => cases h
  | some ids =>
    rw [StoreM.store_of_list.2 e h]
    exact hs.append (ho ids rfl)

end Steps

/-! ### Along the rules -/

/-- The handles that a task starts from resolve. -/
def Task.Resolves (s : Store) : Task → Prop
  | visit _ n => n.Resolves s
  | parts ps => ∀ q ∈ ps, q.Resolves s
  | items _ p seg _ _ => seg.stop ≤ (s.buffer p).size
  | stmts _ seg _ _ out => seg.stop ≤ (s.buffer .stmts).size ∧ CollectedResolves s out

/-- The handles that a task yields resolve. -/
def Task.Yields (s : Store) : (k : Task) → k.Result → Prop
  | visit _ _, r => r.Resolves s
  | parts _, qs => ∀ q ∈ qs, q.Resolves s
  | items .., _ => True
  | stmts .., out => CollectedResolves s out

section Rules

variable {t : Transformer σ} {d : Nat} {k : Task} {c c' : Context σ} {w : List Mark}

/-- A task that ends leaves a closed store. -/
theorem Completes.closed {r : k.Result} (h : Completes t d k c w r c')
    (ht : ∀ m, Occurs t d k c m → m.NoShrink t ∧ m.KeepsClosed t) (hs : c.store.Closed)
    (hk : k.Resolves c.store) : c'.store.Closed ∧ k.Yields c'.store r := by
  induction h with
  | stay hr => exact (ht _ .call).2.of_replace hs hk hr
  | down hr hx hw hy hc hl ih =>
    have ht₁ := fun m hm => ht m (.inner hr hx hm)
    have ht₂ := ht _ (.leave hr hx hw hy hc)
    obtain ⟨hs₁, ha⟩ := (ht _ .call).2.of_replace hs hk hr
    obtain ⟨hs₂, hps⟩ := ih ht₁ hs₁ (hs₁.body ha hx)
    -- the body was copied before the visits below it; its list aside still resolves
    have hg := hw.grows fun m hm => (ht₁ m hm).1
    obtain ⟨hs₃, hres⟩ := Node.closed_close hs₁ hx hg hs₂ hps hy hc
    exact ⟨ht₂.2.of_leave hs₃ hl, hres.mono (ht₂.1.of_leave hl)⟩
  | nil => exact ⟨hs, hk⟩
  | node hv hkind hw ihv ihw =>
    -- the other parts wait while the first is visited, and its answer waits for them
    have ht₁ := fun m hm => ht m (.node hm)
    have ht₂ := fun m hm => ht m (.rest (.node hv hkind .nil) hm)
    obtain ⟨hn, hps⟩ := List.forall_mem_cons.mp hk
    obtain ⟨hs₁, hres⟩ := ihv ht₁ hs hn.node
    have hg₁ := hv.grows fun m hm => (ht₁ m hm).1
    obtain ⟨hs₂, hqs⟩ := ihw ht₂ hs₁ (SlotPart.Resolves.mono_all hps hg₁)
    have hg₂ := hw.grows fun m hm => (ht₂ m hm).1
    exact ⟨hs₂, List.forall_mem_cons.mpr ⟨(hres.mono hg₂).part, hqs⟩⟩
  | list hp hb hi hw ihi ihw =>
    have ht₁ := fun m hm => ht m (.list hp hb hm)
    have ht₂ := fun m hm => ht m (.rest (.list hp hb hi .nil) hm)
    obtain ⟨hl, hps⟩ := List.forall_mem_cons.mp hk
    obtain ⟨hs₁, -⟩ := ihi ht₁ hs hb
    have hg₁ := hi.grows fun m hm => (ht₁ m hm).1
    obtain ⟨hs₂, hqs⟩ := ihw ht₂ hs₁ (SlotPart.Resolves.mono_all hps hg₁)
    have hg₂ := hw.grows fun m hm => (ht₂ m hm).1
    exact ⟨hs₂, List.forall_mem_cons.mpr ⟨hl.mono (hg₁.trans hg₂), hqs⟩⟩
  | stmts hb hi hc hw ihi ihw =>
    have ht₁ := fun m hm => ht m (.stmts hb hm)
    have ht₂ := fun m hm => ht m (.rest (.stmts hb hi hc .nil) hm)
    obtain ⟨-, hps⟩ := List.forall_mem_cons.mp hk
    obtain ⟨hs₁, hout⟩ := ihi ht₁ hs ⟨hb, .none⟩
    have hg₁ := hi.grows fun m hm => (ht₁ m hm).1
    obtain ⟨hs₂, hseg⟩ :=
      Segment.closed_settle hc hs₁ hout (Nat.le_trans hb (hg₁.buffer .stmts))
    have hg₂ := hg₁.trans (Segment.grows_settle hc)
    obtain ⟨hs₃, hqs⟩ := ihw ht₂ hs₂ (SlotPart.Resolves.mono_all hps hg₂)
    have hg₃ := hw.grows fun m hm => (ht₂ m hm).1
    refine ⟨hs₃, List.forall_mem_cons.mpr ⟨SlotPart.Passes.list ?_, hqs⟩⟩
    exact Nat.le_trans hseg (hg₃.buffer .stmts)
  | itemsDone => exact ⟨hs, trivial⟩
  | @itemsNext d l p seg n i x y qs c c₁ c₂ s u w hx hv hy hs' hw ihv ihw =>
    have ht₁ := fun m hm => ht m (.item hx hm)
    obtain ⟨hs₁, hqs⟩ := ihv ht₁ hs (hs.parts_of_item hx)
    have hs₂ := StoreM.closed_setItem hs₁ hqs hy hs'
    have hg := (hv.grows fun m hm => (ht₁ m hm).1).trans (StoreM.grows_setItem hs')
    exact ihw (fun m hm => ht m (.itemsRest hx hv hy hs' hm)) hs₂
      (Nat.le_trans hk (hg.buffer p))
  | stmtsDone => exact ⟨hs, hk.2⟩
  | stmtsNext hx hv ha hw ihv ihw =>
    have ht₁ := fun m hm => ht m (.stmt hx hm)
    obtain ⟨hs₁, hr⟩ := ihv ht₁ hs (Store.itemResolves_stmt.mp (hs.item hx))
    have hg := hv.grows fun m hm => (ht₁ m hm).1
    obtain ⟨hs₂, hout⟩ := ha.closed hs₁ hr (hk.2.mono hg)
    exact ihw (fun m hm => ht m (.stmtsRest hx hv ha hm)) hs₂
      ⟨Nat.le_trans hk.1 ((hg.trans ha.grows).buffer .stmts), hout⟩

/-- What is left to do after the first part starts from a closed store and resolves. -/
theorem Completes.closed_rest {p : SlotPart} {qs ps : List SlotPart}
    (hv : Completes t d (.parts [p]) c w qs c')
    (ht : ∀ m, Occurs t d (.parts (p :: ps)) c m → m.NoShrink t ∧ m.KeepsClosed t)
    (hs : c.store.Closed) (hk : ∀ q ∈ p :: ps, q.Resolves c.store) :
    c'.store.Closed ∧ ∀ q ∈ ps, q.Resolves c'.store := by
  have ht₁ := fun m hm => ht m (Occurs.of_first hm)
  obtain ⟨hp, hps⟩ := List.forall_mem_cons.mp hk
  obtain ⟨hs₁, -⟩ := hv.closed ht₁ hs (List.forall_mem_singleton.mpr hp)
  exact ⟨hs₁, SlotPart.Resolves.mono_all hps (hv.grows fun m hm => (ht₁ m hm).1)⟩

theorem Completes.closed_itemsRest {l : String} {p : Pool} {seg : Segment p} {n i : Nat}
    {x y : p.Item} {qs : List SlotPart} {s : Store}
    (hv : Completes t d (.parts (p.slots l x).parts) c w qs c') (hx : c.store.item seg i = .ok x)
    (hy : (p.slots l x).Refills qs y) (hw : StoreM.setItem seg i y c'.store = .ok () s)
    (ht : ∀ m, Occurs t d (.items l p seg (n + 1) i) c m → m.NoShrink t ∧ m.KeepsClosed t)
    (hs : c.store.Closed) (hb : seg.stop ≤ (c.store.buffer p).size) :
    s.Closed ∧ seg.stop ≤ (s.buffer p).size := by
  have ht₁ := fun m hm => ht m (.item hx hm)
  obtain ⟨hs₁, hqs⟩ := hv.closed ht₁ hs (hs.parts_of_item hx)
  have hg := (hv.grows fun m hm => (ht₁ m hm).1).trans (StoreM.grows_setItem hw)
  exact ⟨StoreM.closed_setItem hs₁ hqs hy hw, Nat.le_trans hb (hg.buffer p)⟩

/-- An answer for a statement of a list resolves, and so does what has been collected before. -/
theorem Completes.closed_answer {l : String} {seg : Segment .stmts} {n i : Nat} {x : Id .stmt}
    {r : Node} {out : Option (Array (Id .stmt))}
    (hv : Completes t d (.visit (.item l) (.stored x)) c w r c') (hx : c.store.item seg i = .ok x)
    (ht : ∀ m, Occurs t d (.stmts l seg (n + 1) i out) c m → m.NoShrink t ∧ m.KeepsClosed t)
    (hs : c.store.Closed) (hk : (Task.stmts l seg (n + 1) i out).Resolves c.store) :
    c'.store.Closed ∧ r.Resolves c'.store ∧
      (Task.stmts l seg (n + 1) i out).Resolves c'.store := by
  have ht₁ := fun m hm => ht m (.stmt hx hm)
  obtain ⟨hs₁, hr⟩ := hv.closed ht₁ hs (Store.itemResolves_stmt.mp (hs.item hx))
  have hg := hv.grows fun m hm => (ht₁ m hm).1
  exact ⟨hs₁, hr, Nat.le_trans hk.1 (hg.buffer .stmts), hk.2.mono hg⟩

/-- The store is closed at every moment of a task. -/
theorem Occurs.closed {m : Moment σ} (h : Occurs t d k c m)
    (ht : ∀ m, Occurs t d k c m → m.NoShrink t ∧ m.KeepsClosed t) (hs : c.store.Closed)
    (hk : k.Resolves c.store) : m.context.store.Closed := by
  induction h with
  | call => exact hs
  | lookUp hr => exact ((ht _ .call).2.of_replace hs hk hr).1
  | inner hr hx _ ih =>
    obtain ⟨hs₁, ha⟩ := (ht _ .call).2.of_replace hs hk hr
    exact ih (fun m hm => ht m (.inner hr hx hm)) hs₁ (hs₁.body ha hx)
  | leave hr hx hw hy hc =>
    have ht₁ := fun m hm => ht m (.inner hr hx hm)
    obtain ⟨hs₁, ha⟩ := (ht _ .call).2.of_replace hs hk hr
    obtain ⟨hs₂, hps⟩ := hw.closed ht₁ hs₁ (hs₁.body ha hx)
    have hg := hw.grows fun m hm => (ht₁ m hm).1
    exact (Node.closed_close hs₁ hx hg hs₂ hps hy hc).1
  | node _ ih =>
    exact ih (fun m hm => ht m (.node hm)) hs (List.forall_mem_cons.mp hk).1.node
  | takeUp => exact hs
  | list hp hb _ ih => exact ih (fun m hm => ht m (.list hp hb hm)) hs hb
  | stmts hb _ ih => exact ih (fun m hm => ht m (.stmts hb hm)) hs ⟨hb, .none⟩
  | rest hv _ ih =>
    obtain ⟨hs₁, hps⟩ := hv.closed_rest ht hs hk
    exact ih (fun m hm => ht m (.rest hv hm)) hs₁ hps
  | item hx _ ih => exact ih (fun m hm => ht m (.item hx hm)) hs (hs.parts_of_item hx)
  | itemsRest hx hv hy hw _ ih =>
    obtain ⟨hs₁, hb⟩ := hv.closed_itemsRest hx hy hw ht hs hk
    exact ih (fun m hm => ht m (.itemsRest hx hv hy hw hm)) hs₁ hb
  | stmt hx _ ih =>
    exact ih (fun m hm => ht m (.stmt hx hm)) hs (Store.itemResolves_stmt.mp (hs.item hx))
  | block hx hv => exact (hv.closed_answer hx ht hs hk).1
  | stmtsRest hx hv ha _ ih =>
    obtain ⟨hs₁, hr, hb, hout⟩ := hv.closed_answer hx ht hs hk
    obtain ⟨hs₂, hout'⟩ := ha.closed hs₁ hr hout
    exact ih (fun m hm => ht m (.stmtsRest hx hv ha hm)) hs₂
      ⟨Nat.le_trans hb (ha.grows.buffer .stmts), hout'⟩

/-- An answer that resolves is refused for its kind or at a fault, and the store is as before. -/
private theorem Refuses.closed {l : String} {seg : Segment .stmts} {i : Nat} {s s' : Store}
    {r : Node} {out : Option (Array (Id .stmt))} {e : Abort} (h : Refuses l seg i s out r w e s')
    (hr : r.Resolves s) : s' = s ∧ ∀ v, e = .violation v → v.isOfKind = true := by
  cases h with
  | write hw => exact ⟨StoreM.store_of_setItem_error hw, by rintro v ⟨⟩⟩
  | mismatch hs hb =>
    refine ⟨rfl, ?_⟩
    rintro v ⟨⟩
    exact isOfKind_ofAnswer _ _ _
  | dangling hb =>
    have hstop := (hr.inside _ List.mem_cons_self).segment
    exact absurd hb (Nat.not_lt_of_le hstop)
  | block hb hn => exact ⟨rfl, by rintro v ⟨⟩⟩
  | collect hb hn ho => exact ⟨rfl, by rintro v ⟨⟩⟩

/-- A task that stops early leaves a closed store, and no handle was found dangling. -/
theorem Aborts.closed {e : Abort} (h : Aborts t d k c w e c')
    (ht : ∀ m, Occurs t d k c m → m.NoShrink t ∧ m.KeepsClosed t) (hs : c.store.Closed)
    (hk : k.Resolves c.store) :
    c'.store.Closed ∧ ∀ v, e = .violation v → v.isOfKind = true := by
  induction h with
  | halt hr =>
    have hs₁ := ((ht _ .call).2 hs hk).1
    rw [TransformM.storeAfter_of_error hr] at hs₁
    exact ⟨hs₁, by rintro v ⟨⟩⟩
  | danglingNode hr hx =>
    obtain ⟨-, ha⟩ := (ht _ .call).2.of_replace hs hk hr
    obtain ⟨x, hx'⟩ := ha.head
    cases hx.symm.trans hx'
  | inner hr hx _ ih =>
    obtain ⟨hs₁, ha⟩ := (ht _ .call).2.of_replace hs hk hr
    exact ih (fun m hm => ht m (.inner hr hx hm)) hs₁ (hs₁.body ha hx)
  | close hr hx hw hy hc =>
    obtain ⟨hs₁, ha⟩ := (ht _ .call).2.of_replace hs hk hr
    obtain ⟨hs₂, -⟩ := hw.closed (fun m hm => ht m (.inner hr hx hm)) hs₁ (hs₁.body ha hx)
    rw [Node.store_of_close_error hc]
    exact ⟨hs₂, by rintro v ⟨⟩⟩
  | leave hr hx hw hy hc hl =>
    have hs₁ := (ht _ (.leave hr hx hw hy hc)).2 (Occurs.closed (.leave hr hx hw hy hc) ht hs hk)
    rw [TransformM.storeAfter_of_error hl] at hs₁
    exact ⟨hs₁, by rintro v ⟨⟩⟩
  | deep => exact ⟨hs, by rintro v ⟨⟩⟩
  | node _ ih => exact ih (fun m hm => ht m (.node hm)) hs (List.forall_mem_cons.mp hk).1.node
  | mismatch hv hkind =>
    have hn := (List.forall_mem_cons.mp hk).1.node
    obtain ⟨hs₁, -⟩ := hv.closed (fun m hm => ht m (.node hm)) hs hn
    refine ⟨hs₁, ?_⟩
    rintro v ⟨⟩
    exact isOfKind_ofAnswer _ _ _
  | danglingList hb =>
    exact absurd hb (Nat.not_lt_of_le (List.forall_mem_cons.mp hk).1.segment)
  | list hp hb _ ih => exact ih (fun m hm => ht m (.list hp hb hm)) hs hb
  | stmts hb _ ih => exact ih (fun m hm => ht m (.stmts hb hm)) hs ⟨hb, .none⟩
  | settle hb hi hc =>
    -- the collected statements are in the buffer although they have no handle
    obtain ⟨hs₁, hout⟩ := hi.closed (fun m hm => ht m (.stmts hb hm)) hs ⟨hb, .none⟩
    exact ⟨Segment.closed_settle_error hc hs₁ hout, by rintro v ⟨⟩⟩
  | rest hv _ ih =>
    obtain ⟨hs₁, hps⟩ := hv.closed_rest ht hs hk
    exact ih (fun m hm => ht m (.rest hv hm)) hs₁ hps
  | itemRead hx => exact ⟨hs, by rintro v ⟨⟩⟩
  | item hx _ ih => exact ih (fun m hm => ht m (.item hx hm)) hs (hs.parts_of_item hx)
  | itemWrite hx hv hy hw =>
    obtain ⟨hs₁, -⟩ := hv.closed (fun m hm => ht m (.item hx hm)) hs (hs.parts_of_item hx)
    rw [StoreM.store_of_setItem_error hw]
    exact ⟨hs₁, by rintro v ⟨⟩⟩
  | itemsRest hx hv hy hw _ ih =>
    obtain ⟨hs₁, hb⟩ := hv.closed_itemsRest hx hy hw ht hs hk
    exact ih (fun m hm => ht m (.itemsRest hx hv hy hw hm)) hs₁ hb
  | stmtRead hx => exact ⟨hs, by rintro v ⟨⟩⟩
  | stmt hx _ ih =>
    exact ih (fun m hm => ht m (.stmt hx hm)) hs (Store.itemResolves_stmt.mp (hs.item hx))
  | refused hx hv ha =>
    obtain ⟨hs₁, hr, -⟩ := hv.closed_answer hx ht hs hk
    obtain ⟨rfl, he⟩ := ha.closed hr
    exact ⟨hs₁, he⟩
  | stmtsRest hx hv ha _ ih =>
    obtain ⟨hs₁, hr, hb, hout⟩ := hv.closed_answer hx ht hs hk
    obtain ⟨hs₂, hout'⟩ := ha.closed hs₁ hr hout
    exact ih (fun m hm => ht m (.stmtsRest hx hv ha hm)) hs₂
      ⟨Nat.le_trans hb (ha.grows.buffer .stmts), hout'⟩

end Rules

/-! ### Printing a closed store -/

/-- All symbols of a part are interned. -/
def SlotPart.Interned (s : Store) (names : NameTable) : SlotPart → Prop :=
  Passes (fun n => ∀ sym, n.symbol? s = some sym → names.Knows sym) fun _ _ => True

/-- All symbols of a node are interned. -/
def Node.Interned (s : Store) (names : NameTable) (n : Node) : Prop :=
  (SlotPart.node "" n).Interned s names

/-- All symbols in a store are interned, that of a stored leaf wherever its id stands. -/
structure Store.Interned (s : Store) (names : NameTable) : Prop where
  node : ∀ {c : Category} {i : Nat} {x : c.Payload}, (s.table c).nodes[i]? = some x →
    ∀ q ∈ (c.slots x).parts, q.Interned s names
  cell : ∀ {p : Pool} {i : Nat} {x : p.Item}, (s.buffer p)[i]? = some x →
    ∀ q ∈ (p.slots "" x).parts, q.Interned s names

private theorem Scan.ok_or_tooDeep_seq {r r' : Scan} (h : (∃ u, r = .ok u) ∨ r = .error .tooDeep)
    (h' : (∃ u, r' = .ok u) ∨ r' = .error .tooDeep) :
    (∃ u, r.seq r' = .ok u) ∨ r.seq r' = .error .tooDeep := by
  rcases h with ⟨u, rfl⟩ | rfl
  · rcases h' with ⟨v, rfl⟩ | rfl
    · exact .inl ⟨u ++ v, rfl⟩
    · exact .inr rfl
  · exact .inr rfl

/-- Printing parts that resolve, in a closed store, meets no fault but the bound on its depth. -/
theorem Scans.ok_or_tooDeep {s : Store} {names : NameTable} {D : Nat} {b : Bool}
    {ps : List SlotPart} {r : Scan} (h : Scans s names D b ps r) (hs : s.Closed)
    (hi : s.Interned names) (hm : s.Small)
    (hps : ∀ q ∈ ps, q.Resolves s ∧ q.Interned s names) :
    (∃ u, r = .ok u) ∨ r = .error .tooDeep := by
  induction h with
  | nil => exact .inl ⟨_, rfl⟩
  | cons _ _ ih ih' =>
    obtain ⟨hq, hps⟩ := List.forall_mem_cons.mp hps
    exact Scan.ok_or_tooDeep_seq (ih (List.forall_mem_singleton.mpr hq)) (ih' hps)
  | @node D D' b l n x r hD hx hn _ ih =>
    obtain ⟨hres, hint⟩ := List.forall_mem_singleton.mp hps
    have hparts := hs.body hres.node hx
    have hsyms := SlotPart.Passes.of_body? hint hx fun _ _ _ hy => hi.node hy
    refine Scan.ok_or_tooDeep_seq (.inl ⟨_, rfl⟩) (ih fun q hq => ?_)
    have hq' := (n.kind.parts_shown_sublist b x).subset hq
    exact ⟨hparts q hq', hsyms q hq'⟩
  | unknown hn hk => exact absurd ((List.forall_mem_singleton.mp hps).2.head _ hn) hk
  | dangling hx =>
    obtain ⟨x, hx'⟩ := (List.forall_mem_singleton.mp hps).1.head
    cases hx.symm.trans hx'
  | @list D D' b l p seg xs r hD hx _ ih =>
    -- the items of a list are cells, under the label of the list
    refine ih fun q hq => ?_
    obtain ⟨x, hmem, rfl⟩ := List.mem_map.mp hq
    obtain ⟨i, hcell⟩ := Store.exists_cell_of_items hx (Array.mem_toList_iff.mp hmem)
    exact ⟨.item (SlotPart.Passes.relabel_item (hs.cell hcell) l),
      .item (SlotPart.Passes.relabel_item (hi.cell hcell) l)⟩
  | range hx =>
    have hstop := (List.forall_mem_singleton.mp hps).1.segment
    rw [hm.items_eq hstop] at hx
    cases hx
  | skip => exact .inl ⟨_, rfl⟩
  | item _ ih =>
    obtain ⟨hres, hint⟩ := List.forall_mem_singleton.mp hps
    cases hres with
    | item hres =>
      cases hint with
      | item hint => exact ih fun q hq => ⟨hres q hq, hint q hq⟩
  | deep => exact .inr rfl

/-- A node that resolves in a closed store is printed, if the depth is enough. -/
theorem Store.Closed.print {s : Store} (hs : s.Closed) {names : NameTable} {n : Node}
    (hn : n.Resolves s) (hi : s.Interned names) (hni : n.Interned s names) (hm : s.Small)
    (D : Nat) :
    (∃ text, s.print names D n = .ok text) ∨ s.print names D n = .error .tooDeep := by
  have h := (s.scans_draft names D "" n).ok_or_tooDeep hs hi hm
    (List.forall_mem_singleton.mpr ⟨hn, hni⟩)
  rw [Store.print_eq_text]
  rcases hd : s.draft names D n with e | doc
  · rw [hd] at h
    rcases h with ⟨u, hu⟩ | hu
    · cases hu
    · cases hu
      exact .inr rfl
  · exact .inl ⟨doc.text, rfl⟩

/-- **Closedness.** Take a closed store, a root that resolves, and a transformer that at no moment
of the run shrinks a table or a buffer, and that leaves closed stores closed and answers with nodes
that resolve. Then

* the store is closed at every moment: at every call of the transformer, whenever it is told that
  children are done, at every look-up and whenever a list is taken up;
* what the transformer would do in a store that is not closed plays no role: any other that does the
  same in closed stores has the same run;
* the store is closed in the end, whether the run returned or was aborted;
* no list and no node is found dangling;
* a node that is returned resolves, and printing it succeeds through any depth that is enough, if
  all symbols in the final store and in the node are interned and no buffer has outgrown 32 bits. -/
theorem Transformer.closed_run (t : Transformer σ) (depth : Nat) (root : Node) (store : Store)
    (state : σ) (hs : store.Closed) (hr : root.Resolves store)
    (ht : ∀ m, Occurs t depth (.visit .root root) ⟨store, state⟩ m →
      m.NoShrink t ∧ m.KeepsClosed t) :
    let out := t.run depth root store state
    (∀ m, Occurs t depth (.visit .root root) ⟨store, state⟩ m → m.context.store.Closed) ∧
    (∀ t' : Transformer σ, (∀ n c, c.store.Closed → t'.replace n c = t.replace n c) →
      (∀ c, c.store.Closed → t'.leave c = t.leave c) → t'.run depth root store state = out) ∧
    out.store.Closed ∧
    (∀ l start len, out.result ≠ .error (.violation (.danglingList l start len))) ∧
    (∀ name i, out.result ≠ .error (.violation (.danglingNode name i))) ∧
    ∀ r, out.result = .ok r → r.Resolves out.store ∧
      ∀ names, out.store.Interned names → r.Interned out.store names → out.store.Small →
        ∀ D, (∃ text, out.store.print names D r = .ok text) ∨
          out.store.print names D r = .error .tooDeep := by
  intro out
  have hclosed : ∀ m, Occurs t depth (.visit .root root) ⟨store, state⟩ m →
      m.context.store.Closed := fun m hm => hm.closed ht hs hr
  refine ⟨hclosed, fun t' hreplace hleave => ?_, ?_⟩
  · refine Transformer.run_congr fun m hm => ?_
    cases m with
    | call n c => exact hreplace n c (hclosed _ hm)
    | leave c => exact hleave c (hclosed _ hm)
    | lookUp | takeUp => trivial
  obtain ⟨w, hw⟩ := t.exists_history depth root store state
  rcases hres : out.result with e | r
  · obtain ⟨hs', he⟩ := (hw.aborts hres).closed ht hs hr
    refine ⟨hs', ?_, ?_, ?_⟩
    · rintro l start len ⟨⟩
      cases he _ rfl
    · rintro name i ⟨⟩
      cases he _ rfl
    · rintro r ⟨⟩
  · obtain ⟨hs', hr'⟩ := (hw.completes hres).closed ht hs hr
    refine ⟨hs', ?_, ?_, ?_⟩
    · rintro l start len ⟨⟩
    · rintro name i ⟨⟩
    · rintro r' ⟨⟩
      exact ⟨hr', fun names hi hni hm D => hs'.print hr' hi hni hm D⟩

/-! ### Pruning below a label -/

private theorem prune_replace (n : Node) (c : Context Nat) :
    ∃ a b k, prune.replace n c = .ok (a, b) ⟨c.store, k⟩ ∧
      (a = n ∨ a = .expandedBlock ⟨.empty⟩) := by
  by_cases h : c.state = 0 ∧ n.kind = .stored .stmt
  · exact ⟨_, _, _, if_pos h, .inr rfl⟩
  · exact ⟨_, _, _, if_neg h, .inl rfl⟩

private theorem prune_keeps (m : Moment Nat) : m.NoShrink prune ∧ m.KeepsClosed prune := by
  cases m with
  | call n c =>
    obtain ⟨a, b, k, hr, ha⟩ := prune_replace n c
    have hs : TransformM.storeAfter (prune.replace n) c = c.store := by
      rw [TransformM.storeAfter_of_ok hr]
    refine ⟨?_, fun hc hn => ⟨?_, ?_⟩⟩
    · rw [Moment.NoShrink, Moment.storeAfter, hs]
      exact .refl _
    · rwa [hs]
    · intro a' b' c' hr'
      rw [hr] at hr'
      cases hr'
      rcases ha with rfl | rfl
      · exact hn
      · refine SlotPart.Passes.node ⟨_, rfl⟩ (List.forall_mem_singleton.mpr ?_)
        exact SlotPart.Passes.list (Nat.zero_le _)
  | leave c => exact ⟨.refl _, id⟩
  | lookUp id c => exact ⟨.refl _, trivial⟩
  | takeUp l seg c => exact ⟨.refl _, trivial⟩

/-- A block of a labelled statement and one more. -/
def signpost : Store where
  tables := { stmts := .ofNodes #[.block ⟨0, 2⟩, .labeled ⟨⟨0⟩, .none⟩ ⟨2⟩, .bad] }
  buffers := { stmts := #[⟨1⟩, ⟨2⟩] }

private theorem signpost_closed : signpost.Closed where
  node := by
    intro c i x hx
    obtain ⟨hi, rfl⟩ := Array.getElem?_eq_some_iff.mp hx
    cases c with
    | stmt =>
      refine ⟨?_, by rintro seg ⟨⟩⟩
      match i, hi with
      | 0, _ => exact List.forall_mem_singleton.mpr (SlotPart.Passes.list (by decide))
      | 1, _ =>
        refine List.forall_mem_cons.mpr ⟨SlotPart.Passes.node ⟨_, rfl⟩ (by rintro q ⟨⟩), ?_⟩
        have ha : signpost.Allocated (.node .stmt 2) := show 2 < 3 by decide
        exact List.forall_mem_singleton.mpr (Node.resolves_stored ha).part
      | 2, _ => rintro q ⟨⟩
    | _ => exact absurd hi (Nat.not_lt_zero i)
  cell := by
    intro p i x hx
    obtain ⟨hi, rfl⟩ := Array.getElem?_eq_some_iff.mp hx
    cases p with
    | stmts =>
      refine Store.itemResolves_stmt.mpr (Node.resolves_stored ?_)
      match i, hi with
      | 0, _ => exact show 1 < 3 by decide
      | 1, _ => exact show 2 < 3 by decide
    | _ => exact absurd hi (Nat.not_lt_zero i)

/-- The label is the only name. -/
def signpostNames : NameTable where
  strings := #["a"]

/-- What is left when the second statement of the block is pruned. -/
private theorem store_run_signpost :
    (prune.run 9 (.stored (⟨0⟩ : Id .stmt)) signpost 4).store =
      { tables := { stmts := .ofNodes #[.block ⟨2, 1⟩, .labeled ⟨⟨0⟩, .none⟩ ⟨2⟩, .bad] }
        buffers := { stmts := #[⟨1⟩, ⟨2⟩, ⟨1⟩] } } :=
  rfl

theorem interned_stored {s : Store} {names : NameTable} {l : String} (id : Id .stmt) :
    (SlotPart.node l (.stored id)).Interned s names :=
  SlotPart.Passes.node (by rintro sym ⟨⟩) (by rintro q ⟨⟩)

private theorem signpost_interned :
    (prune.run 9 (.stored (⟨0⟩ : Id .stmt)) signpost 4).store.Interned signpostNames where
  node := by
    rw [store_run_signpost]
    intro c i x hx
    obtain ⟨hi, rfl⟩ := Array.getElem?_eq_some_iff.mp hx
    cases c with
    | stmt =>
      match i, hi with
      | 0, _ => exact List.forall_mem_singleton.mpr (SlotPart.Passes.list trivial)
      | 1, _ =>
        refine List.forall_mem_cons.mpr ⟨SlotPart.Passes.node ?_ (by rintro q ⟨⟩), ?_⟩
        · rintro sym ⟨⟩
          exact ⟨"a", rfl⟩
        · exact List.forall_mem_singleton.mpr (interned_stored _)
      | 2, _ => rintro q ⟨⟩
    | _ => exact absurd hi (Nat.not_lt_zero i)
  cell := by
    rw [store_run_signpost]
    intro p i x hx
    obtain ⟨hi, rfl⟩ := Array.getElem?_eq_some_iff.mp hx
    cases p with
    | stmts => exact List.forall_mem_singleton.mpr (interned_stored _)
    | _ => exact absurd hi (Nat.not_lt_zero i)

/-- The block is rewritten to a new list of one statement, and can be printed. -/
theorem closed_run_signpost :
    let root : Node := .stored (⟨0⟩ : Id .stmt)
    let out := prune.run 9 root signpost 4
    (signpost.Closed ∧ root.Resolves signpost ∧
      ∀ m, Occurs prune 9 (.visit .root root) ⟨signpost, 4⟩ m →
        m.NoShrink prune ∧ m.KeepsClosed prune) ∧
      out.result = .ok root ∧ out.store ≠ signpost ∧ out.store.Closed ∧ root.Resolves out.store ∧
      (out.store.Interned signpostNames ∧ root.Interned out.store signpostNames ∧
        out.store.Small) ∧
      ∀ D, (∃ text, out.store.print signpostNames D root = .ok text) ∨
        out.store.print signpostNames D root = .error .tooDeep := by
  intro root out
  have ha : signpost.Allocated (.node .stmt 0) := show 0 < 3 by decide
  have hroot : root.Resolves signpost := Node.resolves_stored ha
  have hm : out.store.Small := by
    intro p
    cases p <;> decide
  have hr : out.result = .ok root := rfl
  obtain ⟨-, -, hs, -, -, hout⟩ :=
    prune.closed_run 9 root signpost 4 signpost_closed hroot fun m _ => prune_keeps m
  obtain ⟨hres, hprint⟩ := hout root hr
  refine ⟨⟨signpost_closed, hroot, fun m _ => prune_keeps m⟩, hr, by decide, hs, hres,
    ⟨signpost_interned, interned_stored _, hm⟩, ?_⟩
  exact hprint signpostNames signpost_interned (interned_stored _) hm

end GoTree
