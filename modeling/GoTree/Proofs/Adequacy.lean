import GoTree.Proofs.History

/-!
# The rules describe the traversal

Every run of `Transformer.run` is an instance of the rules of `GoTree.Proofs.History`: a run that
returns has a history by `Completes`, any other run one by `Aborts`, and its trace is that of the
history (`Transformer.exists_history`).

The proof goes through the functions of the traversal from the inside out, by induction on the
depth. `Follows` is what is proved of each of them: it ends in one of two ways, and the events it
adds to the trace are those of a history that fits the way it ended.
-/

namespace GoTree

variable {σ α β : Type}

/-- From the context `c` on, a computation ends in a way allowed by `P` or stops in a way allowed
by `E`, whatever the trace was before. -/
def Follows (x : Walk σ α) (c : Context σ) (P : List Mark → α → Context σ → Prop)
    (E : List Mark → Abort → Context σ → Prop) : Prop :=
  (∃ w a c', P w a c' ∧ ∀ tr, x ⟨c, tr⟩ = .ok a ⟨c', tr ++ traceOf w⟩) ∨
    ∃ w e c', E w e c' ∧ ∀ tr, x ⟨c, tr⟩ = .error e ⟨c', tr ++ traceOf w⟩

section Logic

variable {c : Context σ} {P : List Mark → α → Context σ → Prop}
  {E : List Mark → Abort → Context σ → Prop}

theorem Follows.bind {x : Walk σ α} {f : α → Walk σ β} {Q : List Mark → β → Context σ → Prop}
    {G : List Mark → Abort → Context σ → Prop} (hx : Follows x c P E)
    (hok : ∀ u a c', P u a c' → Follows (f a) c' (fun w => Q (u ++ w)) (fun w => G (u ++ w)))
    (herr : ∀ w e c', E w e c' → G w e c') : Follows (x >>= f) c Q G := by
  rcases hx with ⟨u, a, c₁, hP, hx⟩ | ⟨w, e, c₁, hE, hx⟩
  · rcases hok u a c₁ hP with ⟨w, b, c₂, hQ, hf⟩ | ⟨w, e, c₂, hE, hf⟩
    · refine .inl ⟨u ++ w, b, c₂, hQ, fun tr => ?_⟩
      change EStateM.bind x f _ = _
      simp only [EStateM.bind, hx, hf, traceOf_append, Array.append_assoc]
    · refine .inr ⟨u ++ w, e, c₂, hE, fun tr => ?_⟩
      change EStateM.bind x f _ = _
      simp only [EStateM.bind, hx, hf, traceOf_append, Array.append_assoc]
  · refine .inr ⟨w, e, c₁, herr w e c₁ hE, fun tr => ?_⟩
    change EStateM.bind x f _ = _
    simp only [EStateM.bind, hx]

theorem Follows.imp {x : Walk σ α} {Q : List Mark → α → Context σ → Prop}
    {G : List Mark → Abort → Context σ → Prop} (hx : Follows x c P E)
    (hok : ∀ w a c', P w a c' → Q w a c') (herr : ∀ w e c', E w e c' → G w e c') :
    Follows x c Q G := by
  rcases hx with ⟨w, a, c', hP, hx⟩ | ⟨w, e, c', hE, hx⟩
  · exact .inl ⟨w, a, c', hok w a c' hP, hx⟩
  · exact .inr ⟨w, e, c', herr w e c' hE, hx⟩

/-- What a computation does after the marks `u`. -/
theorem Follows.after {x y : Walk σ α} {c' : Context σ} {u : List Mark}
    (hx : ∀ tr, x ⟨c, tr⟩ = y ⟨c', tr ++ traceOf u⟩)
    (hy : Follows y c' (fun w => P (u ++ w)) (fun w => E (u ++ w))) : Follows x c P E := by
  rcases hy with ⟨w, a, c₁, hP, hy⟩ | ⟨w, e, c₁, hE, hy⟩
  · refine .inl ⟨u ++ w, a, c₁, hP, fun tr => ?_⟩
    rw [hx, hy, traceOf_append, Array.append_assoc]
  · refine .inr ⟨u ++ w, e, c₁, hE, fun tr => ?_⟩
    rw [hx, hy, traceOf_append, Array.append_assoc]

theorem Follows.congr {x y : Walk σ α} (hx : ∀ tr, x ⟨c, tr⟩ = y ⟨c, tr⟩)
    (hy : Follows y c P E) : Follows x c P E :=
  .after (u := []) (fun tr => by rw [hx, traceOf_nil, Array.append_empty]) hy

theorem Follows.pure {a : α} (h : P [] a c) : Follows (pure a : Walk σ α) c P E :=
  .inl ⟨[], a, c, h, fun tr => by simp [Pure.pure, EStateM.pure]⟩

/-- A mark without events may be added at any time. -/
private theorem Follows.finish {a : α} {m : Mark} (hm : m.events = []) (h : P [m] a c) :
    Follows (Pure.pure a : Walk σ α) c P E :=
  .inl ⟨[m], a, c, h, fun tr => by simp [Pure.pure, EStateM.pure, traceOf, hm]⟩

theorem Follows.raise {v : Violation} (h : E [.violation v] (.violation v) c) :
    Follows (Walk.raise v : Walk σ α) c P E := by
  refine .inr ⟨[.violation v], .violation v, c, h, fun tr => ?_⟩
  have hraise : (Walk.raise v : Walk σ α) ⟨c, tr⟩ =
      .error (.violation v) ⟨c, tr.push (.violation v)⟩ := rfl
  rw [hraise]
  simp [traceOf, Mark.events]

private theorem Follows.emit {e : Event} {m : Mark} {P : List Mark → Unit → Context σ → Prop}
    (hm : m.events = [e]) (h : P [m] () c) : Follows (Walk.emit e : Walk σ Unit) c P E :=
  .inl ⟨[m], (), c, h, fun tr => by simp [Walk.emit, traceOf, hm]⟩

/-- An action of the transformer has no events. -/
theorem Follows.lift {x : TransformM σ α} (hok : ∀ a c', x c = .ok a c' → P [] a c')
    (herr : ∀ e c', x c = .error e c' → E [] (.fault e) c') : Follows (Walk.lift x) c P E := by
  rcases h : x c with ⟨a, c'⟩ | ⟨e, c'⟩
  · exact .inl ⟨[], a, c', hok a c' h, fun tr => by simp [Walk.lift, h]⟩
  · exact .inr ⟨[], .fault e, c', herr e c' h, fun tr => by simp [Walk.lift, h]⟩

/-- An action on the store has no events. -/
theorem Follows.onStore {x : StoreM α}
    (hok : ∀ a s, x c.store = .ok a s → P [] a ⟨s, c.state⟩)
    (herr : ∀ e s, x c.store = .error e s → E [] (.fault e) ⟨s, c.state⟩) :
    Follows (Walk.onStore x) c P E := by
  refine .lift (fun a c' h => ?_) (fun e c' h => ?_) <;>
    rcases hx : x c.store with ⟨a', s⟩ | ⟨e', s⟩ <;> simp only [TransformM.onStore, hx] at h <;>
    cases h
  · exact hok _ _ hx
  · exact herr _ _ hx

/-- Reading from the store leaves it alone. -/
private theorem Follows.read {f : Store → Except Fault α} (hok : ∀ a, f c.store = .ok a → P [] a c)
    (herr : ∀ e, f c.store = .error e → E [] (.fault e) c) :
    Follows (Walk.onStore (StoreM.read f)) c P E := by
  refine .onStore (fun a s h => ?_) (fun e s h => ?_) <;>
    rcases hf : f c.store with e' | a' <;> simp only [StoreM.read, hf] at h <;> cases h
  · exact hok _ hf
  · exact herr _ hf

/-- A list that reaches past the end of its buffer is reported, any other passes. -/
private theorem Follows.checkList {label : String} {p : Pool} {seg : Segment p}
    {P : List Mark → Unit → Context σ → Prop}
    (hok : seg.stop ≤ (c.store.buffer p).size → P [] () c)
    (herr : (c.store.buffer p).size < seg.stop →
      E [.violation (.danglingList label seg.start seg.len)]
        (.violation (.danglingList label seg.start seg.len)) c) :
    Follows (Walk.checkList label seg) c P E := by
  by_cases h : (c.store.buffer p).size < seg.stop
  · refine .congr (y := Walk.raise (.danglingList label seg.start seg.len)) (fun tr => ?_)
      (.raise (herr h))
    simp only [Walk.checkList, Walk.inspect, Bind.bind, EStateM.bind, h, if_true]
  · refine .congr (y := Pure.pure ()) (fun tr => ?_) (.pure (hok (Nat.not_lt.mp h)))
    simp only [Walk.checkList, Walk.inspect, Bind.bind, EStateM.bind, h, if_false]

/-! The primitive steps, each followed by the rest of a computation. -/

variable {Q : List Mark → β → Context σ → Prop} {k : α → Walk σ β}

private theorem Follows.lift_bind {x : TransformM σ α}
    (hok : ∀ a c', x c = .ok a c' → Follows (k a) c' Q E)
    (herr : ∀ e c', x c = .error e c' → E [] (.fault e) c') :
    Follows (Walk.lift x >>= k) c Q E := by
  refine Follows.bind (P := fun w a c' => w = [] ∧ x c = .ok a c')
    (.lift (fun a c' h => ⟨rfl, h⟩) herr) ?_ (fun _ _ _ h => h)
  rintro _ a c' ⟨rfl, h⟩
  exact hok a c' h

theorem Follows.onStore_bind {x : StoreM α}
    (hok : ∀ a s, x c.store = .ok a s → Follows (k a) ⟨s, c.state⟩ Q E)
    (herr : ∀ e s, x c.store = .error e s → E [] (.fault e) ⟨s, c.state⟩) :
    Follows (Walk.onStore x >>= k) c Q E := by
  refine Follows.bind (P := fun w a c' => ∃ s, w = [] ∧ c' = ⟨s, c.state⟩ ∧ x c.store = .ok a s)
    (.onStore (fun a s h => ⟨s, rfl, rfl, h⟩) herr) ?_ (fun _ _ _ h => h)
  rintro _ a _ ⟨s, rfl, rfl, h⟩
  exact hok a s h

theorem Follows.read_bind {f : Store → Except Fault α}
    (hok : ∀ a, f c.store = .ok a → Follows (k a) c Q E)
    (herr : ∀ e, f c.store = .error e → E [] (.fault e) c) :
    Follows (Walk.onStore (StoreM.read f) >>= k) c Q E := by
  refine Follows.bind (P := fun w a c' => w = [] ∧ c = c' ∧ f c.store = .ok a)
    (.read (fun a h => ⟨rfl, rfl, h⟩) herr) ?_ (fun _ _ _ h => h)
  rintro _ a _ ⟨rfl, rfl, h⟩
  exact hok a h

theorem Follows.checkList_bind {label : String} {p : Pool} {seg : Segment p}
    {k : Unit → Walk σ β} (hok : seg.stop ≤ (c.store.buffer p).size → Follows (k ()) c Q E)
    (herr : (c.store.buffer p).size < seg.stop →
      E [.violation (.danglingList label seg.start seg.len)]
        (.violation (.danglingList label seg.start seg.len)) c) :
    Follows (Walk.checkList label seg >>= k) c Q E := by
  refine Follows.bind (P := fun w _ c' => w = [] ∧ c = c' ∧ seg.stop ≤ (c.store.buffer p).size)
    (.checkList (fun h => ⟨rfl, rfl, h⟩) herr) ?_ (fun _ _ _ h => h)
  rintro _ _ _ ⟨rfl, rfl, h⟩
  exact hok h

theorem Follows.emit_bind {e : Event} {m : Mark} {k : Unit → Walk σ β} (hm : m.events = [e])
    (h : Follows (k ()) c (fun w => Q (m :: w)) (fun w => E (m :: w))) :
    Follows (Walk.emit e >>= k) c Q E := by
  refine Follows.bind (P := fun w _ c' => w = [m] ∧ c = c') (E := fun _ _ _ => False)
    (.emit hm ⟨rfl, rfl⟩) ?_ (fun _ _ _ h => h.elim)
  rintro _ _ _ ⟨rfl, rfl⟩
  exact h

end Logic

namespace Transformer

open Walk (emit onStore checkList)

/-! ### One level of the traversal

In this section `walk` traverses the slots of a node, and `d` is the depth for which it is known to
follow the rules. -/

/-- `walk` follows the rules for lawful slots. -/
def WalkFollows (t : Transformer σ) (d : Nat) (walk : {α : Type} → Slots α → Walk σ α) : Prop :=
  ∀ {α : Type} {slots : α → Slots α}, Slots.Lawful slots → ∀ (x : α) (c : Context σ),
    Follows (walk (slots x)) c
      (fun w y c' => ∃ ps, Completes t d (.parts (slots x).parts) c w ps c' ∧
        (slots x).Refills ps y)
      (fun w e c' => Aborts t d (.parts (slots x).parts) c w e c')

variable {t : Transformer σ} {d : Nat} {walk : {α : Type} → Slots α → Walk σ α}

/-- Descending into a node is traversing the slots of its body and closing the node. -/
theorem descend_eq_of_body? {n : Node} {c : Context σ} {x : n.kind.Body}
    (hx : n.body? c.store = some x) (tr : Array Event) :
    descend walk n ⟨c, tr⟩ =
      (walk (n.kind.bodySlots x) >>= fun y => onStore (n.close y) : Walk σ Node) ⟨c, tr⟩ := by
  obtain ⟨k, v⟩ := n
  cases k with
  | stored b =>
    change c.store.get? v = some x at hx
    simp only [descend, Walk.fetch, Walk.inspect, Bind.bind, EStateM.bind, hx, Pure.pure,
      EStateM.pure, Kind.bodySlots, Node.close]
    rcases walk (b.slots x) ⟨c, tr⟩ with ⟨y, c₁, tr₁⟩ | ⟨e, w₁⟩
    · simp only [Walk.onStore, Walk.lift, TransformM.onStore, EStateM.bind]
      rcases StoreM.save v y c₁.store with ⟨u, s⟩ | ⟨e, s⟩ <;> rfl
    · rfl
  | _ =>
    cases hx
    rfl

/-- An id that is not allocated is reported. -/
theorem descend_eq_of_get?_eq_none {b : Category} {id : Id b} {c : Context σ}
    (hx : c.store.get? id = none) (tr : Array Event) :
    descend walk (.stored id) ⟨c, tr⟩ =
      (Walk.raise (.danglingNode b.name id.raw) : Walk σ Node) ⟨c, tr⟩ := by
  simp only [descend, Walk.fetch, Walk.inspect, Bind.bind, EStateM.bind, hx]
  rfl

/-- The parts of a node with body `x` are done, and the node is closed. -/
def Descends (t : Transformer σ) (d : Nat) (n : Node) (x : n.kind.Body) (c : Context σ)
    (w : List Mark) (r : Node) (c' : Context σ) : Prop :=
  ∃ ps y c₁ s, Completes t d (.parts (n.kind.bodySlots x).parts) c w ps c₁ ∧
    (n.kind.bodySlots x).Refills ps y ∧ n.close y c₁.store = .ok r s ∧ c' = ⟨s, c₁.state⟩

/-- The parts of a node with body `x` are not done, or the node is not closed. -/
def DescentStops (t : Transformer σ) (d : Nat) (n : Node) (x : n.kind.Body) (c : Context σ)
    (w : List Mark) (e : Abort) (c' : Context σ) : Prop :=
  Aborts t d (.parts (n.kind.bodySlots x).parts) c w e c' ∨
    ∃ ps y c₁ e' s, Completes t d (.parts (n.kind.bodySlots x).parts) c w ps c₁ ∧
      (n.kind.bodySlots x).Refills ps y ∧ n.close y c₁.store = .error e' s ∧
      e = .fault e' ∧ c' = ⟨s, c₁.state⟩

/-- Descending into an answer follows the rules for the inside of a visit. -/
private theorem descend_follows (hw : WalkFollows t d walk) {n : Node} {c : Context σ}
    {x : n.kind.Body} (hx : n.body? c.store = some x) :
    Follows (descend walk n) c (Descends t d n x c) (DescentStops t d n x c) := by
  refine .congr (descend_eq_of_body? hx) ?_
  refine (hw n.kind.lawful x c).bind ?_ (fun w e c' h => .inl h)
  rintro u y c₁ ⟨ps, hc, hy⟩
  refine .onStore (fun r s hs => ?_) (fun e s hs => ?_)
  · exact ⟨ps, y, c₁, s, by simpa using hc, hy, hs, rfl⟩
  · exact .inr ⟨ps, y, c₁, e, s, by simpa using hc, hy, hs, rfl, rfl⟩

/-- A visit whose answer is descended into, from the answer on. -/
theorem visit_eq_of_replace {n a : Node} {c c₁ : Context σ}
    (hr : t.replace n c = .ok (a, true) c₁) (o : Origin) (tr : Array Event) :
    t.visit walk n ⟨c, tr⟩ =
      (descend walk a >>= fun r => emit .leave >>= fun _ => Walk.lift t.leave >>= fun _ =>
        pure r : Walk σ Node) ⟨c₁, tr ++ traceOf [.call o n a true]⟩ := by
  have hp : (tr.push (.call n)).push (.answer a true) = tr ++ traceOf [.call o n a true] := by
    simp [traceOf, Mark.events, ← Array.toList_inj]
  rw [← hp]
  simp [visit, emit, Walk.lift, Bind.bind, EStateM.bind, hr]

/-- Visits follow the rules. -/
theorem visit_follows (hw : WalkFollows t d walk) (o : Origin) (n : Node) (c : Context σ) :
    Follows (t.visit walk n) c (fun w r c' => Completes t d (.visit o n) c w r c')
      (fun w e c' => Aborts t d (.visit o n) c w e c') := by
  rcases hr : t.replace n c with ⟨⟨a, goOn⟩, c₁⟩ | ⟨e, c₁⟩
  · cases goOn with
    | false =>
      refine .inl ⟨_, a, c₁, .stay hr, fun tr => ?_⟩
      simp [visit, emit, Walk.lift, Bind.bind, EStateM.bind, hr, Pure.pure, EStateM.pure, traceOf,
        Mark.events, ← Array.toList_inj]
    | true =>
      refine .after (visit_eq_of_replace hr o) ?_
      -- the body is looked up in the store as the transformer left it
      rcases hx : a.body? c₁.store with _ | x
      · obtain ⟨b, id, rfl, hid⟩ := Node.exists_of_body?_eq_none hx
        refine Follows.bind (P := fun _ _ _ => False)
          (.congr (descend_eq_of_get?_eq_none hid) (.raise (.danglingNode hr hid)))
          (fun _ _ _ h => h.elim) (fun _ _ _ h => h)
      · refine (descend_follows hw hx).bind ?_ ?_
        · rintro w r _ ⟨ps, y, c₂, s, hc, hy, hs, rfl⟩
          refine .emit_bind (m := .leave) rfl (.lift_bind (fun _ c₃ hl => ?_) (fun e c₃ hl => ?_))
          · exact .finish (m := .finish o n r) rfl (by simpa using Completes.down hr hx hc hy hs hl)
          · simpa using Aborts.leave hr hx hc hy hs hl
        · rintro w e c' (h | ⟨ps, y, c₂, e, s, hc, hy, hs, rfl, rfl⟩)
          · exact .inner hr hx h
          · exact .close hr hx hc hy hs
  · refine .inr ⟨_, .fault e, c₁, .halt hr, fun tr => ?_⟩
    simp [visit, emit, Walk.lift, Bind.bind, EStateM.bind, hr, traceOf, Mark.events]

/-- Putting the first part in front of the others. -/
theorem completes_cons {p q : SlotPart} {ps qs : List SlotPart} {c c₁ c₂ : Context σ}
    {u w : List Mark} (hp : Completes t (d + 1) (.parts [p]) c u [q] c₁)
    (hw : Completes t (d + 1) (.parts ps) c₁ w qs c₂) :
    Completes t (d + 1) (.parts (p :: ps)) c (u ++ w) (q :: qs) c₂ := by
  cases hp with
  | node hv hk hn =>
    cases hn
    simpa using Completes.node hv hk hw
  | list hp hs hi hn =>
    cases hn
    simpa using Completes.list hp hs hi hw
  | stmts hs hi hc hn =>
    cases hn
    simpa using Completes.stmts hs hi hc hw

/-- A slot with one node follows the rules. -/
private theorem nodeSlot_follows (hw : WalkFollows t d walk) (l : String) (k : Kind) (v : k.Value)
    (c : Context σ) :
    Follows (t.nodeSlot walk l k v) c
      (fun w v' c' => Completes t (d + 1) (.parts [.node l ⟨k, v⟩]) c w [.node l ⟨k, v'⟩] c')
      (fun w e c' => ∀ ps, Aborts t (d + 1) (.parts (.node l ⟨k, v⟩ :: ps)) c w e c') := by
  refine (visit_follows hw (.slot l) ⟨k, v⟩ c).bind (fun u r c₁ hv => ?_)
    (fun w e c' h ps => .node h)
  rcases hr : r.as? k with _ | v'
  · exact .raise fun ps => .mismatch hv (Node.as?_eq_none_iff.mp hr)
  · obtain rfl := Node.as?_eq_some_iff.mp hr
    exact .pure (.node hv rfl .nil)

/-- The items of a list follow the rules. -/
private theorem walkItems_follows (hw : WalkFollows t d walk) (l : String) {p : Pool}
    (seg : Segment p) (n i : Nat) (c : Context σ) :
    Follows (walkItems walk l seg n i) c
      (fun w _ c' => Completes t d (.items l p seg n i) c w () c')
      (fun w e c' => Aborts t d (.items l p seg n i) c w e c') := by
  induction n generalizing i c with
  | zero => exact .pure .itemsDone
  | succ n ih =>
    refine .read_bind (fun x hx => ?_) (fun e hx => .itemRead hx)
    refine (hw (p.lawful l) x c).bind ?_ (fun w e c' h => .item hx h)
    rintro u y c₁ ⟨qs, hv, hy⟩
    refine .onStore_bind (fun _ s hs => ?_) (fun e s hs => ?_)
    · refine (ih (i + 1) ⟨s, c₁.state⟩).imp (fun w _ c' h => ?_) (fun w e c' h => ?_)
      · exact .itemsNext hx hv hy hs h
      · exact .itemsRest hx hv hy hs h
    · simpa using Aborts.itemWrite hx hv hy hs

/-- The answer for an item of a statement list is taken or refused. -/
theorem spliceAnswer_follows (l : String) (seg : Segment .stmts) (i : Nat)
    (out : Option (Array (Id .stmt))) (r : Node) (c : Context σ) :
    Follows (spliceAnswer l seg i out r) c
      (fun w out' c' => ∃ s, Takes l seg i c.store out r w out' s ∧ c' = ⟨s, c.state⟩)
      (fun w e c' => ∃ s, Refuses l seg i c.store out r w e s ∧ c' = ⟨s, c.state⟩) := by
  by_cases hs : r.kind = .stored .stmt
  · obtain ⟨_, id⟩ := r
    cases hs
    cases out with
    | some out => exact .pure ⟨_, .push out id, rfl⟩
    | none =>
      refine .onStore_bind (fun _ s h => ?_) (fun e s h => ⟨s, .write h, rfl⟩)
      exact .pure ⟨s, .write h, rfl⟩
  by_cases hb : r.kind = .expandedBlock
  · obtain ⟨_, b⟩ := r
    cases hb
    refine .checkList_bind (fun hb => ?_) (fun hb => ⟨_, .dangling hb, rfl⟩)
    refine .read_bind (fun new hn => ?_) (fun e hn => ⟨_, .block hb hn, rfl⟩)
    refine .emit_bind (m := .splice l i new.size) rfl ?_
    cases out with
    | some out => exact .pure ⟨_, .splice hb hn (.aside _), rfl⟩
    | none =>
      -- the items so far are read only now, after the splice has been recorded
      refine Follows.bind (P := fun w old c' => w = [] ∧ c = c' ∧ Collected seg i c.store none old)
        (.read_bind (fun xs hx => .pure ⟨rfl, rfl, .inPlace hx⟩)
          (fun e hx => ⟨_, .collect hb hn hx, rfl⟩)) ?_ (fun _ _ _ h => h)
      rintro _ old _ ⟨rfl, rfl, ho⟩
      exact .pure ⟨_, .splice hb hn ho, rfl⟩
  · have he : (spliceAnswer l seg i out r : Walk σ _) =
        Walk.raise (.ofAnswer l (.stored .stmt) r) := by
      unfold spliceAnswer
      split
      · exact absurd rfl hs
      · exact absurd rfl hb
      · rfl
    rw [he]
    exact .raise ⟨_, .mismatch hs hb, rfl⟩

/-- The items of a statement list follow the rules. -/
private theorem walkStmts_follows (hw : WalkFollows t d walk) (l : String) (seg : Segment .stmts)
    (n i : Nat) (out : Option (Array (Id .stmt))) (c : Context σ) :
    Follows (t.walkStmts walk l seg n i out) c
      (fun w res c' => Completes t d (.stmts l seg n i out) c w res c')
      (fun w e c' => Aborts t d (.stmts l seg n i out) c w e c') := by
  induction n generalizing i out c with
  | zero => exact .pure .stmtsDone
  | succ n ih =>
    refine .read_bind (fun x hx => ?_) (fun e hx => .stmtRead hx)
    refine (visit_follows hw (.item l) (.stored x) c).bind (fun u r c₁ hv => ?_)
      (fun w e c' h => .stmt hx h)
    refine (spliceAnswer_follows l seg i out r c₁).bind ?_ ?_
    · rintro v out' _ ⟨s, ht, rfl⟩
      refine (ih (i + 1) out' ⟨s, c₁.state⟩).imp (fun w res c' h => ?_) (fun w e c' h => ?_)
      · simpa using Completes.stmtsNext hx hv ht h
      · simpa using Aborts.stmtsRest hx hv ht h
    · rintro v e _ ⟨s, ht, rfl⟩
      simpa using Aborts.refused hx hv ht

/-- A list that is not a statement list is traversed in place. -/
theorem listSlot_of_ne (l : String) {p : Pool} (hp : p ≠ .stmts) (seg : Segment p) :
    t.listSlot walk l p seg = (do
      checkList l seg
      walkItems walk l seg seg.length 0
      return seg) := by
  cases p with
  | stmts => exact absurd rfl hp
  | _ => rfl

/-- A slot with a list follows the rules. -/
private theorem listSlot_follows (hw : WalkFollows t d walk) (l : String) (p : Pool)
    (seg : Segment p) (c : Context σ) :
    Follows (t.listSlot walk l p seg) c
      (fun w seg' c' => Completes t (d + 1) (.parts [.list l p seg]) c w [.list l p seg'] c')
      (fun w e c' => ∀ ps, Aborts t (d + 1) (.parts (.list l p seg :: ps)) c w e c') := by
  by_cases hp : p = .stmts
  · subst hp
    refine .checkList_bind (fun hs => ?_) (fun hs ps => .danglingList hs)
    refine (walkStmts_follows hw l seg seg.length 0 none c).bind (fun u out c₁ hi => ?_)
      (fun w e c' h ps => .stmts hs h)
    cases out with
    | some out =>
      refine .onStore (fun seg' s h => ?_) (fun e s h ps => ?_)
      · simpa using Completes.stmts hs hi h .nil
      · simpa using Aborts.settle hs hi h
    | none =>
      refine .pure ?_
      simpa using Completes.stmts hs hi rfl .nil
  · rw [listSlot_of_ne l hp seg]
    refine .checkList_bind (fun hs => ?_) (fun hs ps => .danglingList hs)
    refine (walkItems_follows hw l seg seg.length 0 c).bind (fun u _ c₁ hi => ?_)
      (fun w e c' h ps => .list hp hs h)
    refine .pure ?_
    simpa using Completes.list hp hs hi .nil

/-! ### All levels -/

/-- Answering the slots of a body one by one is traversing its parts: `b` and `qs` are what the law
of the slots carries along. -/
theorem run_follows (hw : WalkFollows t d walk) {slots : α → Slots α} {b : α} {qs : List SlotPart}
    (x : Slots α) (hx : x.Tracks slots b qs) (c : Context σ) :
    Follows (x.run ⟨t.nodeSlot walk, t.listSlot walk⟩) c
      (fun w y c' => ∃ ps, Completes t (d + 1) (.parts x.parts) c w ps c' ∧ x.Refills ps y)
      (fun w e c' => Aborts t (d + 1) (.parts x.parts) c w e c') := by
  induction x generalizing qs c with
  | done a => exact .pure ⟨[], .nil, .done a⟩
  | node l k v next ih =>
    refine (nodeSlot_follows hw l k v c).bind (fun u v' c₁ hv => ?_) (fun w e c' h => h _)
    refine (ih v' (hx v').2 c₁).imp ?_ (fun w e c' h => ?_)
    · rintro w y c' ⟨ps, hc, hr⟩
      -- the later slots hold what they held before this one was answered
      rw [(hx v').1] at hc
      exact ⟨_, completes_cons hv hc, .node hr⟩
    · rw [(hx v').1] at h
      exact .rest hv h
  | list l p seg next ih =>
    refine (listSlot_follows hw l p seg c).bind (fun u seg' c₁ hv => ?_) (fun w e c' h => h _)
    refine (ih seg' (hx seg').2 c₁).imp ?_ (fun w e c' h => ?_)
    · rintro w y c' ⟨ps, hc, hr⟩
      rw [(hx seg').1] at hc
      exact ⟨_, completes_cons hv hc, .list hr⟩
    · rw [(hx seg').1] at h
      exact .rest hv h

/-- The traversal follows the rules at every depth. -/
theorem walk_follows (t : Transformer σ) (d : Nat) : WalkFollows t d (t.walk d) := by
  induction d with
  | zero =>
    intro α slots _ x c
    refine .inr ⟨[], _, c, .deep, fun tr => ?_⟩
    rw [traceOf_nil, Array.append_empty]
    rfl
  | succ d ih =>
    intro α slots hs x c
    exact run_follows ih (slots x) (hs.tracks x) c

/-- The history of a run: what the rules say of the visit of the root, with the outcome of the run,
from the initial store and state to the final ones. -/
def IsHistory (t : Transformer σ) (depth : Nat) (root : Node) (store : Store) (state : σ)
    (w : List Mark) : Prop :=
  let out := t.run depth root store state
  out.trace = #[.start root.kind] ++ traceOf w ∧
    match out.result with
    | .ok r => Completes t depth (.visit .root root) ⟨store, state⟩ w r ⟨out.store, out.state⟩
    | .error e => Aborts t depth (.visit .root root) ⟨store, state⟩ w e ⟨out.store, out.state⟩

section IsHistory

variable {depth : Nat} {root : Node} {store : Store} {state : σ} {w : List Mark}

theorem IsHistory.trace_eq (h : t.IsHistory depth root store state w) :
    (t.run depth root store state).trace = #[.start root.kind] ++ traceOf w :=
  h.1

theorem IsHistory.completes (h : t.IsHistory depth root store state w) {r : Node}
    (hr : (t.run depth root store state).result = .ok r) :
    Completes t depth (.visit .root root) ⟨store, state⟩ w r
      ⟨(t.run depth root store state).store, (t.run depth root store state).state⟩ := by
  simpa only [IsHistory, hr] using h.2

theorem IsHistory.aborts (h : t.IsHistory depth root store state w) {e : Abort}
    (he : (t.run depth root store state).result = .error e) :
    Aborts t depth (.visit .root root) ⟨store, state⟩ w e
      ⟨(t.run depth root store state).store, (t.run depth root store state).state⟩ := by
  simpa only [IsHistory, he] using h.2

end IsHistory

/-- **Adequacy.** Every run has a history. -/
theorem exists_history (t : Transformer σ) (depth : Nat) (root : Node) (store : Store)
    (state : σ) : ∃ w, t.IsHistory depth root store state w := by
  have htr : t.traverse depth root ⟨⟨store, state⟩, #[]⟩ =
      t.visit (t.walk depth) root ⟨⟨store, state⟩, #[.start root.kind]⟩ := rfl
  rcases visit_follows (walk_follows t depth) .root root ⟨store, state⟩ with
    ⟨w, r, c', hc, hv⟩ | ⟨w, e, c', ha, hv⟩
  · have hrun : t.run depth root store state =
        ⟨.ok r, c'.store, c'.state, #[.start root.kind] ++ traceOf w⟩ := by
      rw [run, htr, hv]
    exact ⟨w, by simpa only [IsHistory, hrun] using ⟨trivial, hc⟩⟩
  · have hrun : t.run depth root store state =
        ⟨.error e, c'.store, c'.state, #[.start root.kind] ++ traceOf w⟩ := by
      rw [run, htr, hv]
    exact ⟨w, by simpa only [IsHistory, hrun] using ⟨trivial, ha⟩⟩

end Transformer

end GoTree
