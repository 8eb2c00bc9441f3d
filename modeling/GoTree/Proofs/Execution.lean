import GoTree.Proofs.Adequacy

/-!
# What the rules derive is what the traversal does

`GoTree.Proofs.Adequacy` finds a derivation for every run. This module is the converse: a
derivation by the rules of `GoTree.Proofs.History` determines the run. A completed visit of the root
is the run that returns its result, an aborted visit is the run that stops with its abort, and in
both cases store, state and trace are those of the derivation (`Completes.run_eq`,
`Aborts.run_eq`). So a run has one history only, and to follow a run it is enough to build a
derivation.

`Ends` is what a derivation says of the function that carries out its task. The parts of a node are
carried out slot by slot (`Advances`), and this needs one half of the law of slots only: what a slot
holds does not depend on the answers to the slots before it (`Slots.Steady`).
-/

namespace GoTree

variable {σ α β : Type}

/-! ### Steady slots -/

namespace Slots

/-- Whatever a slot is answered with, the later slots hold the same. -/
def Steady : Slots α → Prop
  | done _ => True
  | node _ _ v next => ∀ v', (next v').parts = (next v).parts ∧ (next v').Steady
  | list _ _ seg next => ∀ seg', (next seg').parts = (next seg).parts ∧ (next seg').Steady

private theorem Tracks.steady {slots : α → Slots α} {b : α} {x : Slots α} {qs : List SlotPart}
    (h : x.Tracks slots b qs) : x.Steady := by
  induction x generalizing qs with
  | done a => trivial
  | node l k v next ih => exact fun v' => ⟨(h v').1, ih v' (h v').2⟩
  | list l p seg next ih => exact fun seg' => ⟨(h seg').1, ih seg' (h seg').2⟩

theorem Lawful.steady {slots : α → Slots α} (h : Lawful slots) (x : α) : (slots x).Steady :=
  (h.tracks x).steady

/-- Refilling has one outcome. -/
theorem Refills.unique {x : Slots α} {ps : List SlotPart} {y z : α} (hy : x.Refills ps y)
    (hz : x.Refills ps z) : y = z := by
  induction hy with
  | done a =>
    cases hz
    rfl
  | node h ih =>
    cases hz with
    | node hz => exact ih hz
  | list h ih =>
    cases hz with
    | list hz => exact ih hz

end Slots

/-! ### Outcomes of computations -/

/-- From the context `c` on, a computation has the outcome `o` and adds the events of `w`, whatever
the trace was before. -/
def Ends (x : Walk σ α) (c : Context σ) (w : List Mark) (o : Except Abort α) (c' : Context σ) :
    Prop :=
  ∀ tr, x ⟨c, tr⟩ =
    match o with
    | .ok a => .ok a ⟨c', tr ++ traceOf w⟩
    | .error e => .error e ⟨c', tr ++ traceOf w⟩

section Logic

variable {x : Walk σ α} {f : α → Walk σ β} {c c₁ c₂ : Context σ} {u w : List Mark} {a : α}

theorem Ends.bind {o : Except Abort β} (hx : Ends x c u (.ok a) c₁) (hf : Ends (f a) c₁ w o c₂) :
    Ends (x >>= f) c (u ++ w) o c₂ := by
  intro tr
  change EStateM.bind x f _ = _
  simp only [EStateM.bind, hx tr, hf (tr ++ traceOf u), traceOf_append, Array.append_assoc]

/-- What comes after an abort is not carried out. -/
theorem Ends.bind_error {e : Abort} (hx : Ends x c w (.error e) c₁) :
    Ends (x >>= f) c w (.error e) c₁ := by
  intro tr
  change EStateM.bind x f _ = _
  simp only [EStateM.bind, hx tr]

theorem Ends.pure (a : α) (c : Context σ) : Ends (pure a : Walk σ α) c [] (.ok a) c := by
  intro tr
  simp [Pure.pure, EStateM.pure]

/-! A step without events, before or after the rest of a computation. -/

theorem Ends.step_bind {o : Except Abort β} (hx : Ends x c [] (.ok a) c₁)
    (hf : Ends (f a) c₁ w o c₂) : Ends (x >>= f) c w o c₂ := by
  simpa using hx.bind hf

theorem Ends.bind_step {o : Except Abort β} (hx : Ends x c w (.ok a) c₁)
    (hf : Ends (f a) c₁ [] o c₂) : Ends (x >>= f) c w o c₂ := by
  simpa using hx.bind hf

theorem Ends.congr {y : Walk σ α} {o : Except Abort α} (h : ∀ tr, x ⟨c, tr⟩ = y ⟨c, tr⟩)
    (hy : Ends y c w o c₂) : Ends x c w o c₂ :=
  fun tr => (h tr).trans (hy tr)

theorem Ends.raise (v : Violation) (c : Context σ) :
    Ends (Walk.raise v : Walk σ α) c [.violation v] (.error (.violation v)) c := by
  intro tr
  have hraise : (Walk.raise v : Walk σ α) ⟨c, tr⟩ =
      .error (.violation v) ⟨c, tr.push (.violation v)⟩ := rfl
  simp [hraise, traceOf, Mark.events]

theorem Ends.emit {e : Event} {m : Mark} (hm : m.events = [e]) (c : Context σ) :
    Ends (Walk.emit e : Walk σ Unit) c [m] (.ok ()) c := by
  intro tr
  simp [Walk.emit, traceOf, hm]

theorem Ends.lift {y : TransformM σ α} (h : y c = .ok a c₁) :
    Ends (Walk.lift y) c [] (.ok a) c₁ := by
  intro tr
  simp [Walk.lift, h]

theorem Ends.lift_error {y : TransformM σ α} {e : Fault} (h : y c = .error e c₁) :
    Ends (Walk.lift y) c [] (.error (.fault e)) c₁ := by
  intro tr
  simp [Walk.lift, h]

theorem Ends.onStore {y : StoreM α} {s : Store} (h : y c.store = .ok a s) :
    Ends (Walk.onStore y) c [] (.ok a) ⟨s, c.state⟩ :=
  .lift (by simp only [TransformM.onStore, h])

theorem Ends.onStore_error {y : StoreM α} {e : Fault} {s : Store} (h : y c.store = .error e s) :
    Ends (Walk.onStore y) c [] (.error (.fault e)) ⟨s, c.state⟩ :=
  .lift_error (by simp only [TransformM.onStore, h])

theorem Ends.read {g : Store → Except Fault α} (h : g c.store = .ok a) :
    Ends (Walk.onStore (StoreM.read g)) c [] (.ok a) c :=
  .onStore (by simp only [StoreM.read, h])

theorem Ends.read_error {g : Store → Except Fault α} {e : Fault} (h : g c.store = .error e) :
    Ends (Walk.onStore (StoreM.read g)) c [] (.error (.fault e)) c :=
  .onStore_error (by simp only [StoreM.read, h])

theorem Ends.checkList {p : Pool} {seg : Segment p} (l : String)
    (h : seg.stop ≤ (c.store.buffer p).size) : Ends (Walk.checkList l seg) c [] (.ok ()) c := by
  refine .congr (y := Pure.pure ()) (fun tr => ?_) (.pure () c)
  simp only [Walk.checkList, Walk.inspect, Bind.bind, EStateM.bind, Nat.not_lt.mpr h, if_false]

theorem Ends.checkList_error {p : Pool} {seg : Segment p} (l : String)
    (h : (c.store.buffer p).size < seg.stop) :
    Ends (Walk.checkList l seg) c [.violation (.danglingList l seg.start seg.len)]
      (.error (.violation (.danglingList l seg.start seg.len))) c := by
  refine .congr (y := Walk.raise _) (fun tr => ?_) (.raise _ c)
  simp only [Walk.checkList, Walk.inspect, Bind.bind, EStateM.bind, h, if_true]

end Logic

/-! ### Slot by slot -/

section Slot

open Transformer

variable {t : Transformer σ} {d : Nat} {c c₁ c₂ : Context σ} {u w : List Mark} {l : String}

/-- Slots that hold `p` first are carried out by answering `p` with `q`, and then the rest: `x'` is
what is left of the slots `x`. -/
def Advances (t : Transformer σ) (d : Nat) (p q : SlotPart) (c : Context σ) (u : List Mark)
    (c₁ : Context σ) : Prop :=
  ∀ (α : Type) (x : Slots α) (ps : List SlotPart), x.Steady → x.parts = p :: ps →
    ∃ x' : Slots α, x'.Steady ∧ x'.parts = ps ∧
      (∀ qs y, x'.Refills qs y → x.Refills (q :: qs) y) ∧
      ∀ w o c₂, Ends (t.walk (d + 1) x') c₁ w o c₂ → Ends (t.walk (d + 1) x) c (u ++ w) o c₂

/-- Slots that hold `p` first stop there. -/
def Halts (t : Transformer σ) (d : Nat) (p : SlotPart) (c : Context σ) (w : List Mark) (e : Abort)
    (c' : Context σ) : Prop :=
  ∀ (α : Type) (x : Slots α) (ps : List SlotPart), x.parts = p :: ps →
    Ends (t.walk (d + 1) x) c w (.error e) c'

private theorem advances_of_nodeSlot {k : Kind} {v v' : k.Value}
    (h : Ends (t.nodeSlot (t.walk d) l k v) c u (.ok v') c₁) :
    Advances t d (.node l ⟨k, v⟩) (.node l ⟨k, v'⟩) c u c₁ := by
  intro α x ps hx hp
  cases x with
  | done a => cases hp
  | list l p seg next => cases hp
  | node l k v next =>
    cases hp
    exact ⟨next v', (hx v').2, (hx v').1, fun _ _ => .node, fun _ _ _ hw => h.bind hw⟩

theorem halts_of_nodeSlot {k : Kind} {v : k.Value} {e : Abort}
    (h : Ends (t.nodeSlot (t.walk d) l k v) c w (.error e) c₁) :
    Halts t d (.node l ⟨k, v⟩) c w e c₁ := by
  intro α x ps hp
  cases x with
  | done a => cases hp
  | list l p seg next => cases hp
  | node l k v next =>
    cases hp
    exact h.bind_error

theorem advances_of_listSlot {p : Pool} {seg seg' : Segment p}
    (h : Ends (t.listSlot (t.walk d) l p seg) c u (.ok seg') c₁) :
    Advances t d (.list l p seg) (.list l p seg') c u c₁ := by
  intro α x ps hx hp
  cases x with
  | done a => cases hp
  | node l k v next => cases hp
  | list l p seg next =>
    cases hp
    exact ⟨next seg', (hx seg').2, (hx seg').1, fun _ _ => .list, fun _ _ _ hw => h.bind hw⟩

theorem halts_of_listSlot {p : Pool} {seg : Segment p} {e : Abort}
    (h : Ends (t.listSlot (t.walk d) l p seg) c w (.error e) c₁) :
    Halts t d (.list l p seg) c w e c₁ := by
  intro α x ps hp
  cases x with
  | done a => cases hp
  | node l k v next => cases hp
  | list l p seg next =>
    cases hp
    exact h.bind_error

/-- A slot with one node, after the visit of the node. -/
theorem advances_node {n r : Node} (hv : Ends (t.visit (t.walk d) n) c u (.ok r) c₁)
    (hk : r.kind = n.kind) : Advances t d (.node l n) (.node l r) c u c₁ := by
  obtain ⟨k, v⟩ := n
  obtain ⟨_, v'⟩ := r
  cases hk
  refine advances_of_nodeSlot (hv.bind_step ?_)
  rw [Node.as?_mk]
  exact .pure v' c₁

private theorem halts_node {n : Node} {e : Abort}
    (hv : Ends (t.visit (t.walk d) n) c w (.error e) c₁) : Halts t d (.node l n) c w e c₁ :=
  halts_of_nodeSlot hv.bind_error

private theorem halts_mismatch {n r : Node} (hv : Ends (t.visit (t.walk d) n) c w (.ok r) c₁)
    (hk : r.kind ≠ n.kind) :
    Halts t d (.node l n) c (w ++ [.violation (.ofAnswer l n.kind r)])
      (.violation (.ofAnswer l n.kind r)) c₁ := by
  obtain ⟨k, v⟩ := n
  refine halts_of_nodeSlot (hv.bind ?_)
  rw [Node.as?_eq_none_iff.mpr hk]
  exact .raise _ c₁

/-- A list that is not a statement list, after its items. -/
theorem advances_list {p : Pool} {seg : Segment p} (hp : p ≠ .stmts)
    (hs : seg.stop ≤ (c.store.buffer p).size)
    (hi : Ends (walkItems (t.walk d) l seg seg.length 0) c u (.ok ()) c₁) :
    Advances t d (.list l p seg) (.list l p seg) c u c₁ := by
  refine advances_of_listSlot ?_
  rw [listSlot_of_ne l hp seg]
  exact .step_bind (.checkList l hs) (hi.bind_step (.pure seg c₁))

private theorem halts_list {p : Pool} {seg : Segment p} {e : Abort} (hp : p ≠ .stmts)
    (hs : seg.stop ≤ (c.store.buffer p).size)
    (hi : Ends (walkItems (t.walk d) l seg seg.length 0) c w (.error e) c₁) :
    Halts t d (.list l p seg) c w e c₁ := by
  refine halts_of_listSlot ?_
  rw [listSlot_of_ne l hp seg]
  exact .step_bind (.checkList l hs) hi.bind_error

/-- A list that reaches past its buffer is reported, whatever its items are. -/
private theorem halts_danglingList {p : Pool} {seg : Segment p}
    (hs : (c.store.buffer p).size < seg.stop) :
    Halts t d (.list l p seg) c [.violation (.danglingList l seg.start seg.len)]
      (.violation (.danglingList l seg.start seg.len)) c := by
  refine halts_of_listSlot ?_
  by_cases hp : p = .stmts
  · subst hp
    exact (Ends.checkList_error l hs).bind_error
  · rw [listSlot_of_ne l hp seg]
    exact (Ends.checkList_error l hs).bind_error

/-- A statement list from its last item on: the handle is settled. -/
theorem listSlot_stmts_eq (seg : Segment .stmts) :
    t.listSlot (t.walk d) l .stmts seg = (do
      Walk.checkList l seg
      let out ← t.walkStmts (t.walk d) l seg seg.length 0 none
      Walk.onStore (seg.settle out)) := by
  refine congrArg (Walk.checkList l seg >>= ·) (funext fun _ => ?_)
  refine congrArg (t.walkStmts (t.walk d) l seg seg.length 0 none >>= ·) (funext fun out => ?_)
  cases out <;> rfl

theorem advances_stmts {seg seg' : Segment .stmts} {out : Option (Array (Id .stmt))} {s : Store}
    (hs : seg.stop ≤ (c.store.buffer .stmts).size)
    (hi : Ends (t.walkStmts (t.walk d) l seg seg.length 0 none) c u (.ok out) c₁)
    (hc : seg.settle out c₁.store = .ok seg' s) :
    Advances t d (.list l .stmts seg) (.list l .stmts seg') c u ⟨s, c₁.state⟩ := by
  refine advances_of_listSlot ?_
  rw [listSlot_stmts_eq]
  exact .step_bind (.checkList l hs) (hi.bind_step (.onStore hc))

private theorem halts_stmts {seg : Segment .stmts} {e : Abort}
    (hs : seg.stop ≤ (c.store.buffer .stmts).size)
    (hi : Ends (t.walkStmts (t.walk d) l seg seg.length 0 none) c w (.error e) c₁) :
    Halts t d (.list l .stmts seg) c w e c₁ := by
  refine halts_of_listSlot ?_
  rw [listSlot_stmts_eq]
  exact .step_bind (.checkList l hs) hi.bind_error

private theorem halts_settle {seg : Segment .stmts} {out : Option (Array (Id .stmt))} {e : Fault}
    {s : Store} (hs : seg.stop ≤ (c.store.buffer .stmts).size)
    (hi : Ends (t.walkStmts (t.walk d) l seg seg.length 0 none) c w (.ok out) c₁)
    (hc : seg.settle out c₁.store = .error e s) :
    Halts t d (.list l .stmts seg) c w (.fault e) ⟨s, c₁.state⟩ := by
  refine halts_of_listSlot ?_
  rw [listSlot_stmts_eq]
  exact .step_bind (.checkList l hs) (hi.bind_step (.onStore_error hc))

end Slot

/-! ### Answers for the items of a statement list -/

section Answers

open Transformer

variable {l : String} {seg : Segment .stmts} {i : Nat} {s s' : Store} {r : Node} {w : List Mark}
  {out out' : Option (Array (Id .stmt))} {e : Abort}

private theorem Collected.ends {old : Array (Id .stmt)} {q : σ} (h : Collected seg i s out old) :
    Ends (collected seg i out : Walk σ _) ⟨s, q⟩ [] (.ok old) ⟨s, q⟩ := by
  cases h with
  | aside => exact .pure _ _
  | inPlace hx => exact .step_bind (.read hx) (.pure _ _)

theorem Takes.ends (h : Takes l seg i s out r w out' s') (q : σ) :
    Ends (spliceAnswer l seg i out r : Walk σ _) ⟨s, q⟩ w (.ok out') ⟨s', q⟩ := by
  cases h with
  | write hs => exact .step_bind (.onStore hs) (.pure _ _)
  | push out id => exact .pure _ _
  | splice hb hn ho =>
    refine .step_bind (.checkList l hb) (.step_bind (.read hn) ?_)
    exact (Ends.emit rfl _).bind (.step_bind ho.ends (.pure _ _))

private theorem Refuses.ends (h : Refuses l seg i s out r w e s') (q : σ) :
    Ends (spliceAnswer l seg i out r : Walk σ _) ⟨s, q⟩ w (.error e) ⟨s', q⟩ := by
  cases h with
  | write hs => exact (Ends.onStore_error hs).bind_error
  | mismatch hs hb =>
    have he : (spliceAnswer l seg i out r : Walk σ _) =
        Walk.raise (.ofAnswer l (.stored .stmt) r) := by
      unfold spliceAnswer
      split
      · exact absurd rfl hs
      · exact absurd rfl hb
      · rfl
    rw [he]
    exact .raise _ _
  | dangling hb => exact (Ends.checkList_error l hb).bind_error
  | block hb hn => exact .step_bind (.checkList l hb) (Ends.read_error hn).bind_error
  | collect hb hn ho =>
    refine .step_bind (.checkList l hb) (.step_bind (.read hn) ?_)
    exact (Ends.emit rfl _).bind (Ends.read_error ho).bind_error.bind_error

end Answers

/-! ### Along the rules -/

section Rules

open Transformer

variable {t : Transformer σ} {d : Nat} {c c₁ c₂ c' : Context σ} {w : List Mark}

/-- What a completed task says of the function that carries it out. -/
abbrev Task.Computes (t : Transformer σ) (d : Nat) (c : Context σ) (w : List Mark)
    (c' : Context σ) : (k : Task) → k.Result → Prop
  | visit _ n, r => Ends (t.visit (t.walk d) n) c w (.ok r) c'
  | parts ps, qs => ∀ (α : Type) (x : Slots α), x.Steady → x.parts = ps →
      ∃ y, x.Refills qs y ∧ Ends (t.walk d x) c w (.ok y) c'
  | items l _ seg n i, _ => Ends (walkItems (t.walk d) l seg n i) c w (.ok ()) c'
  | stmts l seg n i out, res => Ends (t.walkStmts (t.walk d) l seg n i out) c w (.ok res) c'

/-- What a task that stops early says of the function that carries it out. -/
abbrev Task.Fails (t : Transformer σ) (d : Nat) (c : Context σ) (w : List Mark) (e : Abort)
    (c' : Context σ) : Task → Prop
  | visit _ n => Ends (t.visit (t.walk d) n) c w (.error e) c'
  | parts ps => ∀ (α : Type) (x : Slots α), x.Steady → x.parts = ps →
      Ends (t.walk d x) c w (.error e) c'
  | items l _ seg n i => Ends (walkItems (t.walk d) l seg n i) c w (.error e) c'
  | stmts l seg n i out => Ends (t.walkStmts (t.walk d) l seg n i out) c w (.error e) c'

/-- The first part is done, then the others. -/
theorem Advances.cons {p q : SlotPart} {ps qs : List SlotPart} {u : List Mark}
    (h : Advances t d p q c u c₁)
    (hw : (Task.parts ps).Computes t (d + 1) c₁ w c₂ qs) :
    (Task.parts (p :: ps)).Computes t (d + 1) c (u ++ w) c₂ (q :: qs) := by
  intro α x hx hp
  obtain ⟨x', hx', hp', hr, he⟩ := h α x ps hx hp
  obtain ⟨y, hy, hw⟩ := hw α x' hx' hp'
  exact ⟨y, hr qs y hy, he w _ c₂ hw⟩

/-- A visit whose answer has the body `x`, in terms of what the slots of `x` do. -/
theorem visit_ends {n a : Node} {x : a.kind.Body} {o : Except Abort Node} {u : List Mark}
    (org : Origin) (hr : t.replace n c = .ok (a, true) c₁) (hx : a.body? c₁.store = some x)
    (h : Ends (t.walk d (a.kind.bodySlots x) >>= fun y => Walk.onStore (a.close y) >>= fun r =>
      Walk.emit .leave >>= fun _ => Walk.lift t.leave >>= fun _ => pure r : Walk σ Node) c₁ u o
      c') : Ends (t.visit (t.walk d) n) c (.call org n a true :: u) o c' := by
  intro tr
  have h' := h (tr ++ traceOf [.call org n a true])
  rw [Array.append_assoc, ← traceOf_append, List.singleton_append] at h'
  rw [visit_eq_of_replace hr org, ← h']
  change EStateM.bind (descend (t.walk d) a) _ _ = EStateM.bind (t.walk d (a.kind.bodySlots x)) _ _
  simp only [EStateM.bind, descend_eq_of_body? hx, bind]
  cases t.walk d (a.kind.bodySlots x) _ <;> rfl

/-- The items of a list, from the first of them on. -/
theorem items_ends {l : String} {p : Pool} {seg : Segment p} {n i : Nat} {x : p.Item}
    {o : Except Abort Unit} (hx : c.store.item seg i = .ok x)
    (h : Ends (t.walk d (p.slots l x) >>= fun y =>
      Walk.onStore (StoreM.setItem seg i y) >>= fun _ =>
      walkItems (t.walk d) l seg n (i + 1) : Walk σ Unit) c w o c') :
    Ends (walkItems (t.walk d) l seg (n + 1) i) c w o c' :=
  Ends.step_bind (Ends.read hx) h

/-- The items of a statement list, from the first of them on. -/
theorem stmts_ends {l : String} {seg : Segment .stmts} {n i : Nat} {x : Id .stmt}
    {out : Option (Array (Id .stmt))} {o : Except Abort (Option (Array (Id .stmt)))}
    (hx : c.store.item seg i = .ok x)
    (h : Ends (t.visit (t.walk d) (.stored x) >>= fun r => spliceAnswer l seg i out r >>= fun out =>
      t.walkStmts (t.walk d) l seg n (i + 1) out : Walk σ _) c w o c') :
    Ends (t.walkStmts (t.walk d) l seg (n + 1) i out) c w o c' :=
  Ends.step_bind (Ends.read hx) h

/-- What a completed task derives is what its function computes. -/
theorem Completes.computes {k : Task} {r : k.Result} (h : Completes t d k c w r c') :
    k.Computes t d c w c' r := by
  induction h with
  | @stay d o n a c c' hr =>
    intro tr
    simp [visit, Walk.emit, Walk.lift, Bind.bind, EStateM.bind, hr, Pure.pure, EStateM.pure,
      traceOf, Mark.events, ← Array.toList_inj]
  | @down d o n a r x y c c₁ c₂ c₃ s w ps hr hx hw hy hc hl ih =>
    -- the body that the slots come to is the one that the rule refills
    obtain ⟨y', hy', hw'⟩ := ih _ _ (a.kind.lawful.steady x) rfl
    obtain rfl := hy'.unique hy
    have hend : Ends (pure r : Walk σ Node) c₃ [.finish o n r] (.ok r) c₃ := by
      intro tr
      simp [Pure.pure, EStateM.pure, traceOf, Mark.events]
    refine visit_ends o hr hx ?_
    refine hw'.bind (.step_bind (.onStore hc) ?_)
    exact (Ends.emit (m := .leave) rfl _).bind (.step_bind (.lift hl) hend)
  | nil =>
    intro α x hx hp
    cases x with
    | done a => exact ⟨a, .done a, .pure a _⟩
    | node => cases hp
    | list => cases hp
  | node hv hk hw ihv ihw => exact (advances_node ihv hk).cons ihw
  | list hp hs hi hw ihi ihw => exact (advances_list hp hs ihi).cons ihw
  | stmts hs hi hc hw ihi ihw => exact (advances_stmts hs ihi hc).cons ihw
  | itemsDone => exact .pure () _
  | @itemsNext d l p seg n i x y qs c c₁ c₂ s u w hx hv hy hs hw ihv ihw =>
    obtain ⟨y', hy', hv'⟩ := ihv _ _ ((p.lawful l).steady x) rfl
    obtain rfl := hy'.unique hy
    exact items_ends hx (hv'.bind (.step_bind (.onStore hs) ihw))
  | stmtsDone => exact .pure _ _
  | stmtsNext hx hv ht hw ihv ihw =>
    rw [List.append_assoc]
    exact stmts_ends hx (Ends.bind ihv ((ht.ends _).bind ihw))

/-- The first part of a list of parts that is done. -/
theorem Completes.advances {p q : SlotPart} {u : List Mark}
    (h : Completes t (d + 1) (.parts [p]) c u [q] c₁) : Advances t d p q c u c₁ := by
  cases h with
  | node hv hk hw =>
    cases hw
    simpa using advances_node hv.computes hk
  | list hp hs hi hw =>
    cases hw
    simpa using advances_list hp hs hi.computes
  | stmts hs hi hc hw =>
    cases hw
    simpa using advances_stmts hs hi.computes hc

/-- What a task that stops derives is what its function does. -/
theorem Aborts.fails {k : Task} {e : Abort} (h : Aborts t d k c w e c') : k.Fails t d c w e c' := by
  induction h with
  | @halt d o n e c c' hr =>
    intro tr
    simp [visit, Walk.emit, Walk.lift, Bind.bind, EStateM.bind, hr, traceOf, Mark.events]
  | @danglingNode d o n b id c c₁ hr hx =>
    intro tr
    rw [visit_eq_of_replace hr o]
    simp only [bind, EStateM.bind]
    rw [descend_eq_of_get?_eq_none hx, Ends.raise _ c₁ _]
    simp [traceOf, Mark.events]
  | @inner d o n a x c c₁ c₂ w e hr hx hw ih =>
    exact visit_ends o hr hx (ih _ _ (a.kind.lawful.steady x) rfl).bind_error
  | @close d o n a x y c c₁ c₂ s w ps e hr hx hw hy hc =>
    obtain ⟨y', hy', hw'⟩ := hw.computes _ _ (a.kind.lawful.steady x) rfl
    obtain rfl := hy'.unique hy
    exact visit_ends o hr hx (hw'.bind_step (Ends.onStore_error hc).bind_error)
  | @leave d o n a r x y c c₁ c₂ c₃ s w ps e hr hx hw hy hc hl =>
    obtain ⟨y', hy', hw'⟩ := hw.computes _ _ (a.kind.lawful.steady x) rfl
    obtain rfl := hy'.unique hy
    refine visit_ends o hr hx ?_
    refine hw'.bind (.step_bind (.onStore hc) ?_)
    exact (Ends.emit (m := .leave) rfl _).bind_step (Ends.lift_error hl).bind_error
  | deep =>
    intro α x hx hp tr
    rw [traceOf_nil, Array.append_empty]
    rfl
  | node hv ih => exact fun α x _ hp => halts_node ih α x _ hp
  | mismatch hv hk => exact fun α x _ hp => halts_mismatch hv.computes hk α x _ hp
  | danglingList hs => exact fun α x _ hp => halts_danglingList hs α x _ hp
  | list hp hs hi ih => exact fun α x _ hps => halts_list hp hs ih α x _ hps
  | stmts hs hi ih => exact fun α x _ hp => halts_stmts hs ih α x _ hp
  | settle hs hi hc => exact fun α x _ hp => halts_settle hs hi.computes hc α x _ hp
  | rest hv hw ih =>
    intro α x hx hp
    obtain ⟨x', hx', hp', -, he⟩ := hv.advances α x _ hx hp
    exact he _ _ _ (ih α x' hx' hp')
  | itemRead hx => exact (Ends.read_error hx).bind_error
  | @item d l p seg n i x c c' w e hx hv ih =>
    exact items_ends hx (ih _ _ ((p.lawful l).steady x) rfl).bind_error
  | @itemWrite d l p seg n i x y qs c c₁ s w e hx hv hy hs =>
    obtain ⟨y', hy', hv'⟩ := hv.computes _ _ ((p.lawful l).steady x) rfl
    obtain rfl := hy'.unique hy
    exact items_ends hx (hv'.bind_step (Ends.onStore_error hs).bind_error)
  | @itemsRest d l p seg n i x y qs c c₁ c₂ s u w e hx hv hy hs hw ih =>
    obtain ⟨y', hy', hv'⟩ := hv.computes _ _ ((p.lawful l).steady x) rfl
    obtain rfl := hy'.unique hy
    exact items_ends hx (hv'.bind (.step_bind (.onStore hs) ih))
  | stmtRead hx => exact (Ends.read_error hx).bind_error
  | stmt hx hv ih => exact stmts_ends hx (Ends.bind_error ih)
  | refused hx hv ht =>
    exact stmts_ends hx (Ends.bind hv.computes (ht.ends _).bind_error)
  | stmtsRest hx hv ht hw ih =>
    rw [List.append_assoc]
    exact stmts_ends hx (Ends.bind hv.computes ((ht.ends _).bind ih))

variable {depth : Nat} {root : Node} {store : Store} {state : σ}

/-- A completed visit of the root is the run. -/
theorem Completes.run_eq {r : Node}
    (h : Completes t depth (.visit .root root) ⟨store, state⟩ w r c') :
    t.run depth root store state =
      ⟨.ok r, c'.store, c'.state, #[.start root.kind] ++ traceOf w⟩ := by
  have hv : t.traverse depth root ⟨⟨store, state⟩, #[]⟩ =
      .ok r ⟨c', #[.start root.kind] ++ traceOf w⟩ := h.computes #[.start root.kind]
  rw [run, hv]

/-- A visit of the root that stops early is the run. -/
theorem Aborts.run_eq {e : Abort}
    (h : Aborts t depth (.visit .root root) ⟨store, state⟩ w e c') :
    t.run depth root store state =
      ⟨.error e, c'.store, c'.state, #[.start root.kind] ++ traceOf w⟩ := by
  have hv : t.traverse depth root ⟨⟨store, state⟩, #[]⟩ =
      .error e ⟨c', #[.start root.kind] ++ traceOf w⟩ := h.fails #[.start root.kind]
  rw [run, hv]

end Rules

end GoTree
