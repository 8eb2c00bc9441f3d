import GoTree.Proofs.Changes
import GoTree.Proofs.Ledger

/-!
# What a run leaves alone

Take a transformer that never writes to the store, but is free in its answers: it may replace nodes
by others, descend into nodes several times, and splice lists that are there already.
`Transformer.run_frame` says what of the store is nevertheless the same after every run, returned or
aborted.

* No table changes its size or its spans, and no buffer but that of statements changes its size.
* An entry that was not descended into is as it was, and so is a cell outside of all lists that were
  taken up.
* Every entry keeps its **shape**: all that is not in its slots, the kinds of the nodes in its
  slots, and the handles of its lists, except those of statement lists.

The last point is an invariant of the owners. An owner is opened with the shape of its entry, each
of its parts is replaced by one of the same shape, and so it has this shape still when it is closed,
however often the entry was overwritten in between.
-/

namespace GoTree

variable {σ : Type}

/-- A transformer that leaves the store as it is, whether or not it faults. -/
structure Transformer.NeverWrites (t : Transformer σ) : Prop where
  replace : ∀ (n : Node) (c : Context σ), TransformM.storeAfter (t.replace n) c = c.store
  leave : ∀ c : Context σ, TransformM.storeAfter t.leave c = c.store

/-! ### Shapes -/

/-- A part may be replaced by another: a node by one of the same kind, a statement list by any, and
another list only by itself. -/
inductive SlotPart.SameShape : SlotPart → SlotPart → Prop where
  | node (l : String) {n r : Node} (hk : r.kind = n.kind) : SameShape (.node l n) (.node l r)
  | list (l : String) (p : Pool) (seg : Segment p) : SameShape (.list l p seg) (.list l p seg)
  | stmts (l : String) (seg seg' : Segment .stmts) :
      SameShape (.list l .stmts seg) (.list l .stmts seg')
  | item (l : String) (p : Pool) (x : p.Item) : SameShape (.item l p x) (.item l p x)

namespace SlotPart.SameShape

variable {p q r : SlotPart} {ps qs rs : List SlotPart}

theorem refl : (p : SlotPart) → SameShape p p
  | .node l _ => .node l rfl
  | .list l p seg => .list l p seg
  | .item l p x => .item l p x

theorem trans (h : SameShape p q) (h' : SameShape q r) : SameShape p r := by
  cases h with
  | node l hk =>
    cases h' with
    | node _ hk' => exact .node l (hk'.trans hk)
  | list => exact h'
  | stmts l seg =>
    cases h' with
    | list => exact .stmts l seg _
    | stmts => exact .stmts l seg _
  | item => exact h'

private theorem refl_all : (ps : List SlotPart) → List.Forall₂ SameShape ps ps
  | [] => .nil
  | p :: ps => .cons (refl p) (refl_all ps)

private theorem trans_all (h : List.Forall₂ SameShape ps qs) (h' : List.Forall₂ SameShape qs rs) :
    List.Forall₂ SameShape ps rs := by
  induction h generalizing rs with
  | nil => exact h'
  | cons h _ ih =>
    cases h' with
    | cons h' ht' => exact .cons (h.trans h') (ih ht')

end SlotPart.SameShape

/-- Two payloads have the same shape: they differ at most in what is in their slots, and there only
as parts of the same shape do. -/
structure Category.SameShape (c : Category) (x y : c.Payload) : Prop where
  blank : (c.slots y).blank = (c.slots x).blank
  parts : List.Forall₂ SlotPart.SameShape (c.slots x).parts (c.slots y).parts

namespace Category.SameShape

variable {c : Category} {x y z : c.Payload}

theorem refl (x : c.Payload) : c.SameShape x x :=
  ⟨rfl, SlotPart.SameShape.refl_all _⟩

theorem trans (h : c.SameShape x y) (h' : c.SameShape y z) : c.SameShape x z :=
  ⟨h'.blank.trans h.blank, SlotPart.SameShape.trans_all h.parts h'.parts⟩

/-- A payload that is refilled with parts of the same shape keeps its shape. -/
private theorem of_refills {qs : List SlotPart} (h : (c.slots x).Refills qs y)
    (hq : List.Forall₂ SlotPart.SameShape (c.slots x).parts qs) : c.SameShape x y := by
  refine ⟨c.lawful.blank_eq h, ?_⟩
  rwa [c.lawful.parts_eq h]

end Category.SameShape

/-! ### Frames of a store -/

/-- What a store has in common with an earlier one, if only the entries in `E` and the cells in `W`
were overwritten, and only the buffer of statements has grown. -/
structure Store.Framed (s s' : Store) (E : Address → Prop) (W : Pool → Nat → Prop) : Prop where
  size : ∀ c, (s'.table c).size = (s.table c).size
  spans : ∀ c, (s'.table c).spans = (s.table c).spans
  buffer : ∀ p, p ≠ .stmts → (s'.buffer p).size = (s.buffer p).size
  stmts : (s.buffer .stmts).size ≤ (s'.buffer .stmts).size
  entry : ∀ c i, ¬E (.node c i) → s.SameAt s' (.node c i)
  cell : ∀ p i, i < (s.buffer p).size → ¬W p i → s.SameAt s' (.cell p i)
  shape : ∀ (c : Category) (i : Nat) (x : c.Payload), (s.table c).nodes[i]? = some x →
    ∃ y, (s'.table c).nodes[i]? = some y ∧ c.SameShape x y

namespace Store.Framed

variable {s s' : Store} {E E' : Address → Prop} {W W' : Pool → Nat → Prop} {c : Category} {p : Pool}

theorem refl (s : Store) (E : Address → Prop) (W : Pool → Nat → Prop) : s.Framed s E W where
  size _ := rfl
  spans _ := rfl
  buffer _ _ := rfl
  stmts := Nat.le_refl _
  entry _ _ _ := .refl s _
  cell _ _ _ _ := .refl s _
  shape _ _ x hx := ⟨x, hx, .refl x⟩

theorem mono (h : s.Framed s' E W) (hE : ∀ a, E a → E' a) (hW : ∀ p i, W p i → W' p i) :
    s.Framed s' E' W' :=
  { h with
    entry := fun c i hc => h.entry c i fun he => hc (hE _ he)
    cell := fun p i hi hc => h.cell p i hi fun hw => hc (hW p i hw) }

/-- An entry is overwritten by a payload of its shape. -/
theorem put (h : s.Framed s' E W) {id : Id c} {x y : c.Payload} (he : E (.node c id.index))
    (hx : s.get? id = some x) (hy : c.SameShape x y) : s.Framed (s'.put id y) E W := by
  have hsame : ∀ d i, Address.node d i ≠ .node c id.index →
      ((s'.put id y).table d).nodes[i]? = (s'.table d).nodes[i]? :=
    fun d i hne => Store.sameAt_put hne
  refine ⟨fun d => (s'.size_table_put id y d).trans (h.size d),
    fun d => (s'.spans_table_put id y d).trans (h.spans d), h.buffer, h.stmts, fun d i hd => ?_,
    fun p i hi hw => ?_, fun d i z hz => ?_⟩
  · refine (h.entry d i hd).trans (hsame d i fun heq => hd ?_)
    rwa [heq]
  · exact h.cell p i hi hw
  · by_cases heq : Address.node d i = .node c id.index
    · cases heq
      obtain rfl : x = z := Option.some.inj (hx.symm.trans hz)
      have ha : s'.Allocated (.node c id.index) := by
        have := Store.allocated_of_get? hx
        simp only [Store.Allocated] at this ⊢
        rwa [h.size c]
      exact ⟨y, Store.get?_put_self ha y, hy⟩
    · rw [hsame d i heq]
      exact h.shape d i z hz

/-- A cell is overwritten. -/
theorem putItem (h : s.Framed s' E W) {seg : Segment p} {i : Nat} {y : p.Item}
    (hw : W p (seg.start.toNat + i)) : s.Framed (s'.putItem seg i y) E W := by
  have hsize : ∀ q, ((s'.putItem seg i y).buffer q).size = (s'.buffer q).size := by
    intro q
    by_cases hq : q = p
    · subst hq
      simp [Store.putItem]
    · rw [Store.putItem, buffer_modifyBuffer_of_ne _ hq]
  refine ⟨h.size, h.spans, fun q hq => (hsize q).trans (h.buffer q hq), ?_, h.entry,
    fun q j hj hw' => ?_, h.shape⟩
  · rw [hsize]
    exact h.stmts
  · refine (h.cell q j hj hw').trans (Store.sameAt_putItem fun heq => hw' ?_)
    cases heq
    exact hw

/-- Statements are appended. -/
theorem append (h : s.Framed s' E W) (xs : Array (Id .stmt)) :
    s.Framed (s'.append .stmts xs) E W := by
  refine ⟨h.size, h.spans, fun q hq => ?_, ?_, h.entry, fun q j hj hw => ?_, h.shape⟩
  · rw [← h.buffer q hq, Store.append, buffer_modifyBuffer_of_ne _ hq]
  · rw [Store.size_buffer_append]
    exact Nat.le_trans h.stmts (Nat.le_add_right _ _)
  · refine (h.cell q j hj hw).trans (Store.sameAt_append ?_)
    simp only [Store.Allocated]
    by_cases hq : q = .stmts
    · subst hq
      exact Nat.lt_of_lt_of_le hj h.stmts
    · rwa [h.buffer q hq]

end Store.Framed

/-! ### The invariant -/

section Invariant

variable (s : Store) (log : List Deed)

/-- An owner that is a stored node has the shape that its entry had in the store `s`. -/
def Owner.Framed : Owner → Prop
  | node ⟨.stored c, id⟩ x => ∃ x₀, s.get? id = some x₀ ∧ c.SameShape x₀ x
  | _ => True

/-- What holds of every configuration of a run from the store `s`. -/
structure Config.Framed (cfg : Config σ) : Prop where
  owners : ∀ w ∈ cfg.owners, w.Framed s
  fills : ∀ {w : Owner} {k : Nat} {p q : SlotPart}, Fills log w k p q → p.SameShape q
  store : s.Framed cfg.context.store (· ∈ descents log) (Walked log)

end Invariant

/-! ### Updates -/

section Updates

variable {s₀ s s' : Store} {log : List Deed} {E : Address → Prop}

/-- An item of a list that was taken up is written. -/
theorem Store.Framed.setItem {p : Pool} {seg : Segment p} {i : Nat} {x : p.Item}
    (h : s₀.Framed s E (Walked log)) (ht : .take p seg ∈ log)
    (hs : StoreM.setItem seg i x s = .ok () s') : s₀.Framed s' E (Walked log) := by
  rw [(StoreM.setItem_eq_ok hs).2]
  exact h.putItem (.of_take ht (StoreM.lt_length_of_setItem hs))

private theorem Takes.framed {l : String} {seg : Segment .stmts} {i : Nat} {r : Node}
    {w : List Mark} {out out' : Option (Array (Id .stmt))} (h : Takes l seg i s out r w out' s')
    (ht : .take .stmts seg ∈ log) (hs : s₀.Framed s E (Walked log)) :
    s₀.Framed s' E (Walked log) := by
  cases h with
  | write hw => exact hs.setItem ht hw
  | push => exact hs
  | splice => exact hs

private theorem Store.Framed.settle {seg seg' : Segment .stmts} {out : Option (Array (Id .stmt))}
    {W : Pool → Nat → Prop} (h : s₀.Framed s E W) (hc : seg.settle out s = .ok seg' s') :
    s₀.Framed s' E W := by
  cases out with
  | none =>
    cases hc
    exact h
  | some out =>
    rw [StoreM.store_of_list.1 seg' hc]
    exact h.append out

/-- The items of a list are appended even if their handle does not fit. -/
private theorem Store.Framed.settle_error {seg : Segment .stmts} {out : Option (Array (Id .stmt))}
    {W : Pool → Nat → Prop} {e : Fault} (h : s₀.Framed s E W)
    (hc : seg.settle out s = .error e s') : s₀.Framed s' E W := by
  cases out with
  | none => cases hc
  | some out =>
    rw [StoreM.store_of_list.2 e hc]
    exact h.append out

/-- A node whose parts are all replaced by parts of their shape is closed with the shape of its
entry. -/
theorem Store.Framed.close {a r : Node} {x y : a.kind.Body} {qs : List SlotPart}
    {W : Pool → Nat → Prop} (h : s₀.Framed s E W) (ha : ∀ b ∈ a.footprint, E b)
    (hw : (Owner.node a x).Framed s₀) (hy : (a.kind.bodySlots x).Refills qs y)
    (hq : List.Forall₂ SlotPart.SameShape (a.kind.bodySlots x).parts qs)
    (hc : a.close y s = .ok r s') : s₀.Framed s' E W := by
  obtain ⟨k, v⟩ := a
  cases k with
  | stored c =>
    obtain ⟨x₀, hx₀, hx⟩ := hw
    obtain ⟨-, rfl⟩ := Node.close_stored_eq_ok hc
    exact h.put (ha _ (Multiset.mem_singleton_self _)) hx₀ (hx.trans (.of_refills hy hq))
  | _ =>
    cases hc
    exact h

/-- An answer is opened with the shape of its entry. -/
private theorem Owner.Framed.of_body? {a : Node} {x : a.kind.Body} {W : Pool → Nat → Prop}
    (h : s₀.Framed s E W) (hx : a.body? s = some x) : (Owner.node a x).Framed s₀ := by
  obtain ⟨k, v⟩ := a
  cases k with
  | stored c =>
    have hv : v.index < (s₀.table c).nodes.size := by
      have := Store.allocated_of_get? hx
      rw [Store.Allocated, h.size c] at this
      exact this
    obtain ⟨y, hy, hshape⟩ := h.shape c v.index _ (Array.getElem?_eq_getElem hv)
    obtain rfl : x = y := Option.some.inj (Eq.trans (Eq.symm hx) hy)
    exact ⟨_, Array.getElem?_eq_getElem hv, hshape⟩
  | _ => trivial

end Updates

/-! ### Steps -/

section Rules

variable {t : Transformer σ} {D : Nat} {s₀ : Store} {log u : List Deed} {cfg cfg' : Config σ}

/-- A part is replaced by one of its shape. -/
theorem Step.sameShape {w : Owner} {k : Nat} {p q : SlotPart} (h : Step t D cfg u cfg')
    (hf : Fills u w k p q) : p.SameShape q := by
  obtain ⟨s, s', hf⟩ := hf
  cases h with
  | fill hk =>
    cases List.mem_singleton.mp hf
    exact .node _ hk
  | itemsDone =>
    cases List.mem_singleton.mp hf
    exact .list _ _ _
  | settle =>
    cases List.mem_singleton.mp hf
    exact .stmts _ _ _
  | take ht => cases ht <;> simp [Mark.deeds] at hf
  | _ => simp at hf

private theorem Owner.Replaced.sameShape {w : Owner} {ps qs : List SlotPart}
    (h : w.Replaced log ps qs)
    (hf : ∀ {w : Owner} {k : Nat} {p q : SlotPart}, Fills log w k p q → p.SameShape q) :
    List.Forall₂ SlotPart.SameShape ps qs := by
  refine List.forall₂_iff_get.mpr ⟨h.length, fun k hp hq => ?_⟩
  exact hf (h.fills (List.getElem?_eq_getElem hp) (List.getElem?_eq_getElem hq))

/-- The frame of a store is the wider the longer the run. -/
private theorem Store.Framed.later {s : Store} (h : s₀.Framed s (· ∈ descents log) (Walked log))
    (u : List Deed) : s₀.Framed s (· ∈ descents (log ++ u)) (Walked (log ++ u)) := by
  refine h.mono (fun a ha => ?_) ?_
  · rw [descents_append]
    exact Multiset.mem_add.mpr (.inl ha)
  · rintro p i ⟨seg, hseg, hi⟩
    exact ⟨seg, List.mem_append_left u hseg, hi⟩

/-- What a step does to the store respects the frame. -/
theorem Step.framed (ht : t.NeverWrites) (h : Step t D cfg u cfg') (ha : cfg.Accounted log)
    (hi : cfg.Framed s₀ log) :
    s₀.Framed cfg'.context.store (· ∈ descents log) (Walked log) := by
  have hstore := hi.store
  cases h with
  | @call n a b st c c' hr =>
    have hc := TransformM.store_eq_of_ok (ht.replace n c) hr
    rwa [hc]
  | @leave r st c c' hl =>
    have hc := TransformM.store_eq_of_ok (ht.leave c) hl
    rwa [hc]
  | @close a r x y qs st c s hd hy hc =>
    have hmem : Owner.node a x ∈ Config.owners ⟨.parts (.node a x) [] qs, st, c⟩ :=
      List.mem_cons_self
    have hopen : ∀ b ∈ a.footprint, b ∈ descents log := fun b hb =>
      ha.mem_descents (Config.mem_opens_iff.mpr ⟨_, hmem, hb⟩)
    -- all parts are done, and each was replaced by one of its shape
    obtain ⟨rs, heq, hrs⟩ := ha.filled.focus
    rw [List.append_nil] at heq
    rw [← heq] at hrs
    exact hstore.close hopen (hi.owners _ hmem) hy (hrs.sameShape hi.fills) hc
  | write hd hy hs => exact hstore.setItem (ha.listed.owners _ List.mem_cons_self).2 hs
  | take ht => exact ht.framed (ha.take_mem List.mem_cons_self) hstore
  | settle hc => exact hstore.settle hc
  | _ => exact hstore

/-- A step keeps the invariant. -/
theorem Config.Framed.step (ht : t.NeverWrites) (h : Step t D cfg u cfg') (ha : cfg.Accounted log)
    (hi : cfg.Framed s₀ log) : cfg'.Framed s₀ (log ++ u) := by
  refine ⟨?_, ?_, (h.framed ht ha hi).later u⟩
  · have howners := hi.owners
    cases h with
    | down hx => exact List.forall_mem_cons.mpr ⟨.of_body? hi.store hx, howners⟩
    | item => exact List.forall_mem_cons.mpr ⟨trivial, howners⟩
    | close | write => exact (List.forall_mem_cons.mp howners).2
    | _ => exact howners
  · rintro w k p q ⟨s, s', hf⟩
    rcases List.mem_append.mp hf with hf | hf
    · exact hi.fills ⟨s, s', hf⟩
    · exact h.sameShape ⟨s, s', hf⟩

/-- Every configuration of a run satisfies the invariant. -/
theorem Steps.framed (ht : t.NeverWrites) (h : Steps t D cfg u cfg') (ha : cfg.Accounted [])
    (hi : cfg.Framed s₀ []) : cfg'.Framed s₀ u := by
  induction h with
  | refl => exact hi
  | tail h hs ih => exact ih.step ht hs (h.accounted ha)

/-- The end of a run leaves the store as it is, or with statements appended. -/
theorem Concludes.framed {res : Except Abort Node} {es : List Event} {c' : Context σ}
    {E : Address → Prop} {W : Pool → Nat → Prop} (ht : t.NeverWrites)
    (h : Concludes t D cfg res es c') (hs : s₀.Framed cfg.context.store E W) :
    s₀.Framed c'.store E W := by
  cases h with
  | halt hr => rwa [TransformM.store_eq_of_error (ht.replace _ _) hr]
  | close hd hy hc =>
    obtain rfl := Node.store_of_close_error hc
    exact hs
  | leave hl => rwa [TransformM.store_eq_of_error (ht.leave _) hl]
  | itemWrite hd hy hw =>
    obtain rfl := StoreM.store_of_setItem_error hw
    exact hs
  | refused ha =>
    cases ha with
    | write hw =>
      obtain rfl := StoreM.store_of_setItem_error hw
      exact hs
    | _ => exact hs
  | settle hc => exact hs.settle_error hc
  | _ => exact hs

end Rules

/-- **The frame of a run.** Whatever a transformer that never writes to the store answers, and
however the run ends, no table and no buffer but that of statements has another size, no span is
another, an entry that was not descended into and a cell outside of the lists that were taken up is
as it was, and every entry has the shape that it had. -/
theorem Transformer.run_frame {t : Transformer σ} (ht : t.NeverWrites) (depth : Nat) (root : Node)
    (store : Store) (state : σ) :
    let out := t.run depth root store state
    ∃ log cfg, t.EndsIn depth root store state log cfg ∧
      store.Framed out.store (· ∈ out.descended) (Walked log) := by
  intro out
  obtain ⟨log, cfg, hend⟩ := t.exists_endsIn depth root store state
  refine ⟨log, cfg, hend, ?_⟩
  have hstart : Config.Framed store [] (⟨.visit root, [], ⟨store, state⟩⟩ : Config σ) := by
    refine ⟨fun _ hw => absurd hw List.not_mem_nil, ?_, .refl store _ _⟩
    rintro w k p q ⟨s, s', hf⟩
    cases hf
  have hlast := Steps.framed ht hend.reaches (Config.accounted_visit root _) hstart
  obtain ⟨es, hc, -⟩ := hend.concludes
  rw [hend.descended_eq]
  exact hc.framed ht hlast.store

/-! ### A statement that is there twice -/

private theorem prune_neverWrites : prune.NeverWrites where
  replace n c := by
    rw [TransformM.storeAfter, prune]
    dsimp only
    split_ifs
    · rfl
    · rfl
  leave _ := rfl

/-- A block that holds one block of two statements twice. -/
def twins : Store where
  tables := { stmts := .ofNodes #[.block ⟨0, 2⟩, .block ⟨2, 2⟩, .bad, .bad] }
  buffers := { stmts := #[⟨1⟩, ⟨1⟩, ⟨2⟩, ⟨3⟩] }

/-- The inner block is descended into twice, and the second time it loses its last statement: its
entry has a new handle, and all else of it is as it was. -/
theorem run_frame_twins :
    let out := prune.run 9 (.stored (⟨0⟩ : Id .stmt)) twins 6
    prune.NeverWrites ∧ out.descended.count (.node .stmt 1) = 2 ∧
      (out.store.table .stmt).nodes = #[.block ⟨0, 2⟩, .block ⟨4, 1⟩, .bad, .bad] ∧
      out.store.buffer .stmts = #[⟨1⟩, ⟨1⟩, ⟨2⟩, ⟨3⟩, ⟨2⟩] ∧
      ∃ log cfg, prune.EndsIn 9 (.stored (⟨0⟩ : Id .stmt)) twins 6 log cfg ∧
        twins.Framed out.store (· ∈ out.descended) (Walked log) := by
  intro out
  refine ⟨prune_neverWrites, ?_, ?_, ?_, Transformer.run_frame prune_neverWrites 9 _ twins 6⟩
  · decide
  · decide
  · decide

end GoTree
