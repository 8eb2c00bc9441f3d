import GoTree.Proofs.Execution
import GoTree.Proofs.Unfolding

/-!
# The traversal as a machine

The rules of `GoTree.Proofs.History` relate the beginning of a task to its end. What holds in the
middle of a run, and above all what holds where a run breaks off, is said of a **machine** that goes
through the same run step by step. A configuration of the machine has a focus (the node, the part or
the item that it works on), a stack of frames (what waits for the focus to be done) and a context.

The nodes and items whose parts are being traversed are the **owners** of a configuration: each was
copied out when it was opened, and is rebuilt and written back when its last part is done. A stored
node is *open* exactly as long as it is an owner.

A step is labelled by the **deeds** that it does. The deeds of a run tell more than its trace: which
lists were taken up, what the parts of an owner were replaced by, what was written back, and how the
store grew.

`Transformer.exists_endsIn` says that every run is a run of the machine, and `Reaches.run_eq` that
the machine, which is deterministic, has no other runs.
-/

namespace GoTree

/-- What is rebuilt when its parts are done. -/
inductive Owner where
  /-- An answer, with the body that it had when it was opened. -/
  | node (a : Node) (x : a.kind.Body)
  /-- Item `i` of a list, `n` items coming after it. -/
  | item (label : String) (p : Pool) (seg : Segment p) (n i : Nat) (x : p.Item)

/-- The parts of an owner as it was opened. -/
def Owner.parts : Owner → List SlotPart
  | node a x => (a.kind.bodySlots x).parts
  | item l p _ _ _ x => (p.slots l x).parts

/-- What a configuration works on. -/
inductive Focus where
  | visit (n : Node)
  | answered (a : Node) (descend : Bool)
  /-- The parts `ps` of an owner are to be done, the ones before have been replaced by `qs`. -/
  | parts (w : Owner) (ps qs : List SlotPart)
  /-- The `n` items of a list from item `i` on are to be done. -/
  | items (label : String) (p : Pool) (seg : Segment p) (n i : Nat)
  /-- The same for a statement list; `rs` are the results of the visits so far. -/
  | stmts (label : String) (seg : Segment .stmts) (n i : Nat) (out : Option (Array (Id .stmt)))
      (rs : List Node)
  /-- The children of a node are done, and the transformer is to be told. -/
  | leave (r : Node)
  | result (r : Node)

/-- What waits for the focus to be done. -/
inductive Frame where
  /-- The node of a slot is visited. -/
  | slot (w : Owner) (label : String) (n : Node) (ps qs : List SlotPart)
  /-- The list of a slot is traversed. -/
  | list (w : Owner) (label : String) (p : Pool) (seg : Segment p) (ps qs : List SlotPart)
  /-- Item `i` of a statement list is visited. -/
  | stmt (label : String) (seg : Segment .stmts) (n i : Nat) (out : Option (Array (Id .stmt)))
      (rs : List Node)

/-- How many levels of slots a stack goes down. -/
def levels : List Frame → Nat
  | [] => 0
  | .slot .. :: st => levels st + 1
  | .list .. :: st => levels st + 1
  | .stmt .. :: st => levels st

/-- What a step does, as far as it is told. -/
inductive Deed where
  /-- The transformer answers a node; `s` and `s'` are the store before and after. -/
  | call (given answer : Node) (descend : Bool) (s s' : Store)
  /-- The transformer is told that the children of a node are done. -/
  | leave (s s' : Store)
  /-- A list is taken up. -/
  | take (p : Pool) (seg : Segment p)
  /-- Part `k` of an owner is done and replaced. -/
  | fill (w : Owner) (k : Nat) (part replaced : SlotPart) (s s' : Store)
  /-- An answer with the body `x` is closed with the body `y`, its parts being replaced by `qs`. -/
  | save (a : Node) (x : a.kind.Body) (qs : List SlotPart) (y : a.kind.Body)
  | splice (slot : String) (index inserted : Nat)

/-- What the trace shows of a deed. -/
def Deed.events : Deed → List Event
  | call given answer descend _ _ => [.call given, .answer answer descend]
  | leave _ _ => [.leave]
  | take _ _ => []
  | fill .. => []
  | save .. => []
  | splice slot index inserted => [.splice slot index inserted]

/-- The deeds of taking an answer for an item. -/
def Mark.deeds : Mark → List Deed
  | splice slot index inserted => [.splice slot index inserted]
  | _ => []

/-- A point of a run. -/
structure Config (σ : Type) where
  focus : Focus
  stack : List Frame
  context : Context σ

variable {σ : Type}

/-- What a configuration does next. `D` bounds the levels. -/
inductive Step (t : Transformer σ) (D : Nat) : Config σ → List Deed → Config σ → Prop where
  | call {n a : Node} {b : Bool} {st : List Frame} {c c' : Context σ}
      (hr : t.replace n c = .ok (a, b) c') :
      Step t D ⟨.visit n, st, c⟩ [.call n a b c.store c'.store] ⟨.answered a b, st, c'⟩
  | stay {a : Node} {st : List Frame} {c : Context σ} :
      Step t D ⟨.answered a false, st, c⟩ [] ⟨.result a, st, c⟩
  /-- The body of the answer is copied out. -/
  | down {a : Node} {x : a.kind.Body} {st : List Frame} {c : Context σ}
      (hx : a.body? c.store = some x) :
      Step t D ⟨.answered a true, st, c⟩ []
        ⟨.parts (.node a x) (a.kind.bodySlots x).parts [], st, c⟩
  | slot {w : Owner} {l : String} {n : Node} {ps qs : List SlotPart} {st : List Frame}
      {c : Context σ} (hd : levels st < D) :
      Step t D ⟨.parts w (.node l n :: ps) qs, st, c⟩ [] ⟨.visit n, .slot w l n ps qs :: st, c⟩
  | list {w : Owner} {l : String} {p : Pool} {seg : Segment p} {ps qs : List SlotPart}
      {st : List Frame} {c : Context σ} (hd : levels st < D) (hp : p ≠ .stmts)
      (hs : seg.stop ≤ (c.store.buffer p).size) :
      Step t D ⟨.parts w (.list l p seg :: ps) qs, st, c⟩ [.take p seg]
        ⟨.items l p seg seg.length 0, .list w l p seg ps qs :: st, c⟩
  | stmts {w : Owner} {l : String} {seg : Segment .stmts} {ps qs : List SlotPart}
      {st : List Frame} {c : Context σ} (hd : levels st < D)
      (hs : seg.stop ≤ (c.store.buffer .stmts).size) :
      Step t D ⟨.parts w (.list l .stmts seg :: ps) qs, st, c⟩ [.take .stmts seg]
        ⟨.stmts l seg seg.length 0 none [], .list w l .stmts seg ps qs :: st, c⟩
  /-- The last part of an answer is done, and the answer gets its new body. -/
  | close {a r : Node} {x y : a.kind.Body} {qs : List SlotPart} {st : List Frame} {c : Context σ}
      {s : Store} (hd : levels st < D) (hy : (a.kind.bodySlots x).Refills qs y)
      (hc : a.close y c.store = .ok r s) :
      Step t D ⟨.parts (.node a x) [] qs, st, c⟩ [.save a x qs y] ⟨.leave r, st, ⟨s, c.state⟩⟩
  | leave {r : Node} {st : List Frame} {c c' : Context σ} (hl : t.leave c = .ok () c') :
      Step t D ⟨.leave r, st, c⟩ [.leave c.store c'.store] ⟨.result r, st, c'⟩
  /-- A slot with one node takes a result of the same kind. -/
  | fill {w : Owner} {l : String} {n r : Node} {ps qs : List SlotPart} {st : List Frame}
      {c : Context σ} (hk : r.kind = n.kind) :
      Step t D ⟨.result r, .slot w l n ps qs :: st, c⟩
        [.fill w qs.length (.node l n) (.node l r) c.store c.store]
        ⟨.parts w ps (qs ++ [.node l r]), st, c⟩
  | item {l : String} {p : Pool} {seg : Segment p} {n i : Nat} {x : p.Item} {st : List Frame}
      {c : Context σ} (hx : c.store.item seg i = .ok x) :
      Step t D ⟨.items l p seg (n + 1) i, st, c⟩ []
        ⟨.parts (.item l p seg n i x) (p.slots l x).parts [], st, c⟩
  /-- The last part of an item is done, and the item is written back to its cell. -/
  | write {l : String} {p : Pool} {seg : Segment p} {n i : Nat} {x y : p.Item}
      {qs : List SlotPart} {st : List Frame} {c : Context σ} {s : Store} (hd : levels st < D)
      (hy : (p.slots l x).Refills qs y) (hs : StoreM.setItem seg i y c.store = .ok () s) :
      Step t D ⟨.parts (.item l p seg n i x) [] qs, st, c⟩ []
        ⟨.items l p seg n (i + 1), st, ⟨s, c.state⟩⟩
  /-- A list that is not a statement list keeps its handle. -/
  | itemsDone {w : Owner} {l l' : String} {p : Pool} {seg : Segment p} {i : Nat}
      {ps qs : List SlotPart} {st : List Frame} {c : Context σ} :
      Step t D ⟨.items l' p seg 0 i, .list w l p seg ps qs :: st, c⟩
        [.fill w qs.length (.list l p seg) (.list l p seg) c.store c.store]
        ⟨.parts w ps (qs ++ [.list l p seg]), st, c⟩
  | stmt {l : String} {seg : Segment .stmts} {n i : Nat} {x : Id .stmt}
      {out : Option (Array (Id .stmt))} {rs : List Node} {st : List Frame} {c : Context σ}
      (hx : c.store.item seg i = .ok x) :
      Step t D ⟨.stmts l seg (n + 1) i out rs, st, c⟩ []
        ⟨.visit (.stored x), .stmt l seg n i out rs :: st, c⟩
  /-- The result for an item of a statement list is taken. -/
  | take {l : String} {seg : Segment .stmts} {n i : Nat} {r : Node}
      {out out' : Option (Array (Id .stmt))} {rs : List Node} {v : List Mark} {st : List Frame}
      {c : Context σ} {s : Store} (ht : Takes l seg i c.store out r v out' s) :
      Step t D ⟨.result r, .stmt l seg n i out rs :: st, c⟩ (v.flatMap Mark.deeds)
        ⟨.stmts l seg n (i + 1) out' (rs ++ [r]), st, ⟨s, c.state⟩⟩
  /-- Collected contents become a new list. -/
  | settle {w : Owner} {l l' : String} {seg seg' : Segment .stmts} {i : Nat}
      {out : Option (Array (Id .stmt))} {rs : List Node} {ps qs : List SlotPart}
      {st : List Frame} {c : Context σ} {s : Store} (hc : seg.settle out c.store = .ok seg' s) :
      Step t D ⟨.stmts l' seg 0 i out rs, .list w l .stmts seg ps qs :: st, c⟩
        [.fill w qs.length (.list l .stmts seg) (.list l .stmts seg') c.store s]
        ⟨.parts w ps (qs ++ [.list l .stmts seg']), st, ⟨s, c.state⟩⟩

/-- A configuration ends the run, with a last piece of the trace and a last context. -/
inductive Concludes (t : Transformer σ) (D : Nat) : Config σ → Except Abort Node → List Event →
    Context σ → Prop where
  | returned {r : Node} {c : Context σ} : Concludes t D ⟨.result r, [], c⟩ (.ok r) [] c
  | halt {n : Node} {st : List Frame} {e : Fault} {c c' : Context σ}
      (hr : t.replace n c = .error e c') :
      Concludes t D ⟨.visit n, st, c⟩ (.error (.fault e)) [.call n] c'
  | danglingNode {b : Category} {id : Id b} {st : List Frame} {c : Context σ}
      (hx : c.store.get? id = none) :
      Concludes t D ⟨.answered (.stored id) true, st, c⟩
        (.error (.violation (.danglingNode b.name id.raw)))
        [.violation (.danglingNode b.name id.raw)] c
  | deep {w : Owner} {ps qs : List SlotPart} {st : List Frame} {c : Context σ}
      (hd : D ≤ levels st) :
      Concludes t D ⟨.parts w ps qs, st, c⟩ (.error (.fault .tooDeep)) [] c
  | danglingList {w : Owner} {l : String} {p : Pool} {seg : Segment p} {ps qs : List SlotPart}
      {st : List Frame} {c : Context σ} (hd : levels st < D)
      (hs : (c.store.buffer p).size < seg.stop) :
      Concludes t D ⟨.parts w (.list l p seg :: ps) qs, st, c⟩
        (.error (.violation (.danglingList l seg.start seg.len)))
        [.violation (.danglingList l seg.start seg.len)] c
  | close {a : Node} {x y : a.kind.Body} {qs : List SlotPart} {st : List Frame} {e : Fault}
      {c : Context σ} {s : Store} (hd : levels st < D) (hy : (a.kind.bodySlots x).Refills qs y)
      (hc : a.close y c.store = .error e s) :
      Concludes t D ⟨.parts (.node a x) [] qs, st, c⟩ (.error (.fault e)) [] ⟨s, c.state⟩
  | leave {r : Node} {st : List Frame} {e : Fault} {c c' : Context σ}
      (hl : t.leave c = .error e c') :
      Concludes t D ⟨.leave r, st, c⟩ (.error (.fault e)) [.leave] c'
  | mismatch {w : Owner} {l : String} {n r : Node} {ps qs : List SlotPart} {st : List Frame}
      {c : Context σ} (hk : r.kind ≠ n.kind) :
      Concludes t D ⟨.result r, .slot w l n ps qs :: st, c⟩
        (.error (.violation (.ofAnswer l n.kind r))) [.violation (.ofAnswer l n.kind r)] c
  | itemRead {l : String} {p : Pool} {seg : Segment p} {n i : Nat} {st : List Frame} {e : Fault}
      {c : Context σ} (hx : c.store.item seg i = .error e) :
      Concludes t D ⟨.items l p seg (n + 1) i, st, c⟩ (.error (.fault e)) [] c
  | itemWrite {l : String} {p : Pool} {seg : Segment p} {n i : Nat} {x y : p.Item}
      {qs : List SlotPart} {st : List Frame} {e : Fault} {c : Context σ} {s : Store}
      (hd : levels st < D) (hy : (p.slots l x).Refills qs y)
      (hs : StoreM.setItem seg i y c.store = .error e s) :
      Concludes t D ⟨.parts (.item l p seg n i x) [] qs, st, c⟩ (.error (.fault e)) []
        ⟨s, c.state⟩
  | stmtRead {l : String} {seg : Segment .stmts} {n i : Nat} {out : Option (Array (Id .stmt))}
      {rs : List Node} {st : List Frame} {e : Fault} {c : Context σ}
      (hx : c.store.item seg i = .error e) :
      Concludes t D ⟨.stmts l seg (n + 1) i out rs, st, c⟩ (.error (.fault e)) [] c
  | refused {l : String} {seg : Segment .stmts} {n i : Nat} {r : Node}
      {out : Option (Array (Id .stmt))} {rs : List Node} {v : List Mark} {st : List Frame}
      {e : Abort} {c : Context σ} {s : Store} (ht : Refuses l seg i c.store out r v e s) :
      Concludes t D ⟨.result r, .stmt l seg n i out rs :: st, c⟩ (.error e)
        (v.flatMap Mark.events) ⟨s, c.state⟩
  | settle {w : Owner} {l l' : String} {seg : Segment .stmts} {i : Nat}
      {out : Option (Array (Id .stmt))} {rs : List Node} {ps qs : List SlotPart}
      {st : List Frame} {e : Fault} {c : Context σ} {s : Store}
      (hc : seg.settle out c.store = .error e s) :
      Concludes t D ⟨.stmts l' seg 0 i out rs, .list w l .stmts seg ps qs :: st, c⟩
        (.error (.fault e)) [] ⟨s, c.state⟩

/-- Any number of steps. -/
inductive Steps (t : Transformer σ) (D : Nat) : Config σ → List Deed → Config σ → Prop where
  | refl (cfg : Config σ) : Steps t D cfg [] cfg
  | tail {cfg cfg₁ cfg' : Config σ} {u v : List Deed} (h : Steps t D cfg u cfg₁)
      (hs : Step t D cfg₁ v cfg') : Steps t D cfg (u ++ v) cfg'

namespace Steps

variable {t : Transformer σ} {D : Nat} {cfg cfg₁ cfg' : Config σ} {u v : List Deed}

theorem single (h : Step t D cfg u cfg') : Steps t D cfg u cfg' :=
  .tail (.refl cfg) h

theorem trans (h : Steps t D cfg u cfg₁) (h' : Steps t D cfg₁ v cfg') :
    Steps t D cfg (u ++ v) cfg' := by
  induction h' with
  | refl => rwa [List.append_nil]
  | tail _ hs ih =>
    rw [← List.append_assoc]
    exact .tail ih hs

end Steps

/-! ### The machine follows the rules -/

/-- The machine goes from one configuration to another, and the trace shows the marks `w`. -/
def Path (t : Transformer σ) (D : Nat) (cfg : Config σ) (w : List Mark) (cfg' : Config σ) : Prop :=
  ∃ u, Steps t D cfg u cfg' ∧ u.flatMap Deed.events = w.flatMap Mark.events

/-- The machine goes from a configuration to the end of the run, and the trace shows the marks
`w`. -/
def Breaks (t : Transformer σ) (D : Nat) (cfg : Config σ) (w : List Mark) (e : Abort)
    (c' : Context σ) : Prop :=
  ∃ u cfg' es, Steps t D cfg u cfg' ∧ Concludes t D cfg' (.error e) es c' ∧
    u.flatMap Deed.events ++ es = w.flatMap Mark.events

section Paths

variable {t : Transformer σ} {D : Nat} {cfg cfg₁ cfg' : Config σ} {v w : List Mark} {u : List Deed}
  {e : Abort} {c' : Context σ} {es : List Event}

theorem Path.refl : Path t D cfg [] cfg :=
  ⟨[], .refl cfg, rfl⟩

/-- A step that the trace does not show. -/
private theorem Path.silent (hs : Step t D cfg u cfg₁) (hu : u.flatMap Deed.events = [])
    (h : Path t D cfg₁ w cfg') : Path t D cfg w cfg' := by
  obtain ⟨u', hp, heq⟩ := h
  refine ⟨u ++ u', (Steps.single hs).trans hp, ?_⟩
  rw [List.flatMap_append, hu, List.nil_append, heq]

theorem Path.step (hs : Step t D cfg u cfg') (hu : u.flatMap Deed.events = w.flatMap Mark.events) :
    Path t D cfg w cfg' :=
  ⟨u, .single hs, hu⟩

theorem Path.trans (h : Path t D cfg v cfg₁) (h' : Path t D cfg₁ w cfg') :
    Path t D cfg (v ++ w) cfg' := by
  obtain ⟨u, hp, heq⟩ := h
  obtain ⟨u', hp', heq'⟩ := h'
  refine ⟨u ++ u', hp.trans hp', ?_⟩
  rw [List.flatMap_append, List.flatMap_append, heq, heq']

theorem Path.breaks (h : Path t D cfg v cfg₁) (h' : Breaks t D cfg₁ w e c') :
    Breaks t D cfg (v ++ w) e c' := by
  obtain ⟨u, hp, heq⟩ := h
  obtain ⟨u', cfg', es, hp', hc, heq'⟩ := h'
  refine ⟨u ++ u', cfg', es, hp.trans hp', hc, ?_⟩
  rw [List.flatMap_append, List.flatMap_append, heq, List.append_assoc, heq']

private theorem Breaks.silent (hs : Step t D cfg u cfg₁) (hu : u.flatMap Deed.events = [])
    (h : Breaks t D cfg₁ w e c') : Breaks t D cfg w e c' :=
  Path.breaks (.step (w := []) hs hu) h

theorem Concludes.breaks (h : Concludes t D cfg (.error e) es c')
    (hw : es = w.flatMap Mark.events) : Breaks t D cfg w e c' :=
  ⟨[], cfg, es, .refl cfg, h, hw⟩

end Paths

/-- From a stack, the machine does a task. Of the parts of a node, those that come after the task
stay to be done. -/
def Task.Followed (t : Transformer σ) (D : Nat) (st : List Frame) (c : Context σ) (w : List Mark)
    (c' : Context σ) : (k : Task) → k.Result → Prop
  | visit _ n, r => Path t D ⟨.visit n, st, c⟩ w ⟨.result r, st, c'⟩
  | parts ps, qs => ∀ ow ps' qs', Path t D ⟨.parts ow (ps ++ ps') qs', st, c⟩ w
      ⟨.parts ow ps' (qs' ++ qs), st, c'⟩
  | items l p seg n i, _ => Path t D ⟨.items l p seg n i, st, c⟩ w
      ⟨.items l p seg 0 (i + n), st, c'⟩
  | stmts l seg n i out, res => ∀ rs, ∃ rs', Path t D ⟨.stmts l seg n i out rs, st, c⟩ w
      ⟨.stmts l seg 0 (i + n) res rs', st, c'⟩

/-- From a stack, the machine takes up a task and ends the run. -/
def Task.Broken (t : Transformer σ) (D : Nat) (st : List Frame) (c : Context σ) (w : List Mark)
    (e : Abort) (c' : Context σ) : Task → Prop
  | visit _ n => Breaks t D ⟨.visit n, st, c⟩ w e c'
  | parts ps => ∀ ow qs', Breaks t D ⟨.parts ow ps qs', st, c⟩ w e c'
  | items l p seg n i => Breaks t D ⟨.items l p seg n i, st, c⟩ w e c'
  | stmts l seg n i out => ∀ rs, Breaks t D ⟨.stmts l seg n i out rs, st, c⟩ w e c'

section Rules

variable {t : Transformer σ} {d D : Nat} {k : Task} {c c' : Context σ} {w : List Mark}

/-- The trace shows the deeds of taking an answer as it shows the marks. -/
theorem Takes.events_deeds {l : String} {seg : Segment .stmts} {i : Nat} {s s' : Store} {r : Node}
    {out out' : Option (Array (Id .stmt))} (h : Takes l seg i s out r w out' s') :
    (w.flatMap Mark.deeds).flatMap Deed.events = w.flatMap Mark.events := by
  cases h <;> rfl

/-- Parts are not done at depth zero. -/
theorem Completes.depth_pos {ps qs : List SlotPart} (h : Completes t d (.parts ps) c w qs c') :
    0 < d := by
  cases h <;> exact Nat.succ_pos _

/-- The machine does every task that is completed. -/
theorem Completes.followed {r : k.Result} (h : Completes t d k c w r c') (st : List Frame)
    (hd : levels st + d = D) : k.Followed t D st c w c' r := by
  -- a slot adds one level to the stack and takes one from the depth, so their sum stays `D`
  induction h generalizing st with
  | stay hr =>
    exact .trans (w := [_]) (.step (w := [.call _ _ _ _]) (.call hr) rfl) (.step .stay rfl)
  | @down d o n a r x y c c₁ c₂ c₃ s w ps hr hx hw hy hc hl ih =>
    have hcall : Path t D ⟨.visit n, st, c⟩ [.call o n a true] ⟨.answered a true, st, c₁⟩ :=
      .step (.call hr) rfl
    have hinner := ih st hd (.node a x) [] []
    rw [List.append_nil, List.nil_append] at hinner
    have hd' : levels st < D := by
      have := hw.depth_pos
      omega
    have hend : Path t D ⟨.parts (.node a x) [] ps, st, c₂⟩ [.leave, .finish o n r]
        ⟨.result r, st, c₃⟩ :=
      .silent (.close hd' hy hc) rfl (.step (.leave hl) rfl)
    exact hcall.trans (.silent (.down hx) rfl (hinner.trans hend))
  | nil =>
    intro ow ps' qs'
    rw [List.append_nil]
    exact .refl
  | @node d l n r ps qs c c₁ c₂ u w hv hk hw ihv ihw =>
    intro ow ps' qs'
    have hfirst := ihv (.slot ow l n (ps ++ ps') qs' :: st) (by rw [levels]; omega)
    have hrest := ihw st hd ow ps' (qs' ++ [.node l r])
    rw [List.append_assoc] at hrest
    exact .silent (.slot (by omega)) rfl (hfirst.trans (.silent (.fill hk) rfl hrest))
  | @list d l p seg ps qs c c₁ c₂ u w hp hs hi hw ihi ihw =>
    intro ow ps' qs'
    have hfirst := ihi (.list ow l p seg (ps ++ ps') qs' :: st) (by rw [levels]; omega)
    have hrest := ihw st hd ow ps' (qs' ++ [.list l p seg])
    rw [List.append_assoc] at hrest
    exact .silent (.list (by omega) hp hs) rfl (hfirst.trans (.silent .itemsDone rfl hrest))
  | @stmts d l seg seg' ps qs c c₁ c₂ s u w out hs hi hc hw ihi ihw =>
    intro ow ps' qs'
    obtain ⟨rs, hfirst⟩ := ihi (.list ow l .stmts seg (ps ++ ps') qs' :: st)
      (by rw [levels]; omega) []
    have hrest := ihw st hd ow ps' (qs' ++ [.list l .stmts seg'])
    rw [List.append_assoc] at hrest
    exact .silent (.stmts (by omega) hs) rfl (hfirst.trans (.silent (.settle hc) rfl hrest))
  | itemsDone => exact .refl
  | @itemsNext d l p seg n i x y qs c c₁ c₂ s u w hx hv hy hs hw ihv ihw =>
    have hinner := ihv st hd (.item l p seg n i x) [] []
    rw [List.append_nil, List.nil_append] at hinner
    have hd' : levels st < D := by
      have := hv.depth_pos
      omega
    have hrest := ihw st hd
    rw [Task.Followed, show i + 1 + n = i + (n + 1) by omega] at hrest
    exact .silent (.item hx) rfl (hinner.trans (.silent (.write hd' hy hs) rfl hrest))
  | @stmtsDone d l seg i out c =>
    intro rs
    exact ⟨rs, .refl⟩
  | @stmtsNext d l seg n i x r out out' res c c₁ c₂ s u v w hx hv ha hw ihv ihw =>
    intro rs
    have hvisit := ihv (.stmt l seg n i out rs :: st) (by rw [levels]; exact hd)
    obtain ⟨rs', hrest⟩ := ihw st hd (rs ++ [r])
    rw [show i + 1 + n = i + (n + 1) by omega] at hrest
    have htake : Path t D ⟨.result r, .stmt l seg n i out rs :: st, c₁⟩ v
        ⟨.stmts l seg n (i + 1) out' (rs ++ [r]), st, ⟨s, c₁.state⟩⟩ :=
      .step (.take ha) ha.events_deeds
    exact ⟨rs', .silent (.stmt hx) rfl ((hvisit.trans htake).trans hrest)⟩

/-- The machine takes up every task that stops early, and ends there. -/
theorem Aborts.broken {e : Abort} (h : Aborts t d k c w e c') (st : List Frame)
    (hd : levels st + d = D) : k.Broken t D st c w e c' := by
  -- what was completed before the abort is followed, and the machine breaks off after it
  induction h generalizing st with
  | halt hr => exact (Concludes.halt hr).breaks rfl
  | @danglingNode d o n b id c c₁ hr hx =>
    have hcall : Path t D ⟨.visit n, st, c⟩ [.call o n (.stored id) true]
        ⟨.answered (.stored id) true, st, c₁⟩ := .step (.call hr) rfl
    exact hcall.breaks ((Concludes.danglingNode hx).breaks (w := [.violation _]) rfl)
  | @inner d o n a x c c₁ c₂ w e hr hx hw ih =>
    have hcall : Path t D ⟨.visit n, st, c⟩ [.call o n a true] ⟨.answered a true, st, c₁⟩ :=
      .step (.call hr) rfl
    exact hcall.breaks (.silent (.down hx) rfl (ih st hd (.node a x) []))
  | @close d o n a x y c c₁ c₂ s w ps e hr hx hw hy hc =>
    have hcall : Path t D ⟨.visit n, st, c⟩ [.call o n a true] ⟨.answered a true, st, c₁⟩ :=
      .step (.call hr) rfl
    have hinner := hw.followed st hd (.node a x) [] []
    rw [List.append_nil, List.nil_append] at hinner
    have hd' : levels st < D := by
      have := hw.depth_pos
      omega
    have hend : Breaks t D ⟨.parts (.node a x) [] ps, st, c₂⟩ [] (.fault e) ⟨s, c₂.state⟩ :=
      (Concludes.close hd' hy hc).breaks rfl
    have hparts := hinner.breaks hend
    rw [List.append_nil] at hparts
    exact hcall.breaks (.silent (.down hx) rfl hparts)
  | @leave d o n a r x y c c₁ c₂ c₃ s w ps e hr hx hw hy hc hl =>
    have hcall : Path t D ⟨.visit n, st, c⟩ [.call o n a true] ⟨.answered a true, st, c₁⟩ :=
      .step (.call hr) rfl
    have hinner := hw.followed st hd (.node a x) [] []
    rw [List.append_nil, List.nil_append] at hinner
    have hd' : levels st < D := by
      have := hw.depth_pos
      omega
    have hend : Breaks t D ⟨.parts (.node a x) [] ps, st, c₂⟩ [.leave] (.fault e) c₃ :=
      .silent (.close hd' hy hc) rfl ((Concludes.leave hl).breaks rfl)
    exact hcall.breaks (.silent (.down hx) rfl (hinner.breaks hend))
  | deep =>
    intro ow qs'
    exact (Concludes.deep (by omega)).breaks rfl
  | @node d l n ps c c' w e hv ih =>
    intro ow qs'
    have hfirst := ih (.slot ow l n ps qs' :: st) (by rw [levels]; omega)
    exact .silent (.slot (by omega)) rfl hfirst
  | @mismatch d l n r ps c c' w hv hk =>
    intro ow qs'
    have hd' : levels (.slot ow l n ps qs' :: st) + d = D := by
      rw [levels]
      omega
    have hend : Breaks t D ⟨.result r, .slot ow l n ps qs' :: st, c'⟩
        [.violation (.ofAnswer l n.kind r)] (.violation (.ofAnswer l n.kind r)) c' :=
      (Concludes.mismatch hk).breaks rfl
    exact .silent (.slot (by omega)) rfl ((hv.followed _ hd').breaks hend)
  | danglingList hs =>
    intro ow qs'
    exact (Concludes.danglingList (by omega) hs).breaks rfl
  | @list d l p seg ps c c' w e hp hs hi ih =>
    intro ow qs'
    have hfirst := ih (.list ow l p seg ps qs' :: st) (by rw [levels]; omega)
    exact .silent (.list (by omega) hp hs) rfl hfirst
  | @stmts d l seg ps c c' w e hs hi ih =>
    intro ow qs'
    have hfirst := ih (.list ow l .stmts seg ps qs' :: st) (by rw [levels]; omega) []
    exact .silent (.stmts (by omega) hs) rfl hfirst
  | @settle d l seg ps c c₁ s w out e hs hi hc =>
    intro ow qs'
    have hd' : levels (.list ow l .stmts seg ps qs' :: st) + d = D := by
      rw [levels]
      omega
    obtain ⟨rs, hfirst⟩ := hi.followed _ hd' []
    have hend : Breaks t D ⟨.stmts l seg 0 (0 + seg.length) out rs,
        .list ow l .stmts seg ps qs' :: st, c₁⟩ [] (.fault e) ⟨s, c₁.state⟩ :=
      (Concludes.settle hc).breaks rfl
    have hlist := hfirst.breaks hend
    rw [List.append_nil] at hlist
    exact .silent (.stmts (by omega) hs) rfl hlist
  | @rest d p q ps c c₁ c₂ u w e hv hw ih =>
    intro ow qs'
    have hfirst := hv.followed st hd ow ps qs'
    exact hfirst.breaks (ih st hd ow (qs' ++ [q]))
  | itemRead hx => exact (Concludes.itemRead hx).breaks rfl
  | @item d l p seg n i x c c' w e hx hv ih =>
    exact .silent (.item hx) rfl (ih st hd (.item l p seg n i x) [])
  | @itemWrite d l p seg n i x y qs c c₁ s w e hx hv hy hs =>
    have hinner := hv.followed st hd (.item l p seg n i x) [] []
    rw [List.append_nil, List.nil_append] at hinner
    have hd' : levels st < D := by
      have := hv.depth_pos
      omega
    have hend : Breaks t D ⟨.parts (.item l p seg n i x) [] qs, st, c₁⟩ [] (.fault e)
        ⟨s, c₁.state⟩ := (Concludes.itemWrite hd' hy hs).breaks rfl
    have hparts := hinner.breaks hend
    rw [List.append_nil] at hparts
    exact .silent (.item hx) rfl hparts
  | @itemsRest d l p seg n i x y qs c c₁ c₂ s u w e hx hv hy hs hw ih =>
    have hinner := hv.followed st hd (.item l p seg n i x) [] []
    rw [List.append_nil, List.nil_append] at hinner
    have hd' : levels st < D := by
      have := hv.depth_pos
      omega
    exact .silent (.item hx) rfl (hinner.breaks (.silent (.write hd' hy hs) rfl (ih st hd)))
  | stmtRead hx =>
    intro rs
    exact (Concludes.stmtRead hx).breaks rfl
  | @stmt d l seg n i x out c c' w e hx hv ih =>
    intro rs
    have hvisit := ih (.stmt l seg n i out rs :: st) (by rw [levels]; exact hd)
    exact .silent (.stmt hx) rfl hvisit
  | @refused d l seg n i x r out c c₁ s u v e hx hv ha =>
    intro rs
    have hd' : levels (.stmt l seg n i out rs :: st) + d = D := hd
    have hvisit := hv.followed _ hd'
    exact .silent (.stmt hx) rfl (hvisit.breaks ((Concludes.refused ha).breaks rfl))
  | @stmtsRest d l seg n i x r out out' c c₁ c₂ s u v w e hx hv ha hw ih =>
    intro rs
    have hd' : levels (.stmt l seg n i out rs :: st) + d = D := hd
    have hvisit := hv.followed _ hd'
    have htake : Path t D ⟨.result r, .stmt l seg n i out rs :: st, c₁⟩ v
        ⟨.stmts l seg n (i + 1) out' (rs ++ [r]), st, ⟨s, c₁.state⟩⟩ :=
      .step (.take ha) ha.events_deeds
    exact .silent (.stmt hx) rfl ((hvisit.trans htake).breaks (ih st hd (rs ++ [r])))

end Rules

/-! ### Runs -/

namespace Transformer

variable {t : Transformer σ} {depth : Nat} {root : Node} {store : Store} {state : σ}
  {log : List Deed} {cfg : Config σ}

/-- The machine, started on a root, comes to a configuration. -/
def Reaches (t : Transformer σ) (depth : Nat) (root : Node) (store : Store) (state : σ)
    (log : List Deed) (cfg : Config σ) : Prop :=
  Steps t depth ⟨.visit root, [], ⟨store, state⟩⟩ log cfg

/-- The run on a root ends in a configuration: the machine comes to it, and what it concludes there
is the outcome of the run. -/
structure EndsIn (t : Transformer σ) (depth : Nat) (root : Node) (store : Store) (state : σ)
    (log : List Deed) (cfg : Config σ) : Prop where
  reaches : t.Reaches depth root store state log cfg
  concludes : ∃ es, Concludes t depth cfg (t.run depth root store state).result es
      ⟨(t.run depth root store state).store, (t.run depth root store state).state⟩ ∧
    (t.run depth root store state).trace =
      #[.start root.kind] ++ (log.flatMap Deed.events ++ es).toArray

/-- Every run is a run of the machine. -/
theorem exists_endsIn (t : Transformer σ) (depth : Nat) (root : Node) (store : Store) (state : σ) :
    ∃ log cfg, t.EndsIn depth root store state log cfg := by
  obtain ⟨w, hw⟩ := t.exists_history depth root store state
  have htrace := hw.trace_eq
  rw [traceOf] at htrace
  rcases hres : (t.run depth root store state).result with e | r
  · obtain ⟨u, cfg, es, hsteps, hc, heq⟩ := (hw.aborts hres).broken [] (Nat.zero_add depth)
    refine ⟨u, cfg, hsteps, es, ?_, by rw [htrace, heq]⟩
    rwa [hres]
  · obtain ⟨u, hsteps, heq⟩ := (hw.completes hres).followed [] (Nat.zero_add depth)
    refine ⟨u, _, hsteps, [], ?_, by rw [htrace, List.append_nil, heq]⟩
    rw [hres]
    exact .returned

end Transformer

/-! ### What a run descends into -/

/-- The address of the stored node that is descended into at an event. -/
def Event.descents : Event → Multiset Address
  | answer a true => a.footprint
  | _ => 0

/-- The address of the stored node that is descended into by a deed. -/
@[simp]
def Deed.descents : Deed → Multiset Address
  | call _ a true _ _ => a.footprint
  | _ => 0

/-- The addresses of the stored nodes that are descended into, with their multiplicities. -/
def descents (log : List Deed) : Multiset Address :=
  (log.map Deed.descents).sum

/-- The addresses of the stored nodes that a run descended into, with their multiplicities. -/
def Transformer.Outcome.descended (out : Outcome σ) : Multiset Address :=
  (out.trace.toList.map Event.descents).sum

@[simp]
theorem descents_nil : descents [] = 0 :=
  rfl

@[simp]
theorem descents_singleton (d : Deed) : descents [d] = d.descents := by
  simp [descents]

@[simp]
theorem descents_append (u v : List Deed) : descents (u ++ v) = descents u + descents v := by
  simp [descents]

private theorem sum_descents_events (log : List Deed) :
    ((log.flatMap Deed.events).map Event.descents).sum = descents log := by
  induction log with
  | nil => rfl
  | cons d log ih =>
    have hd : (d.events.map Event.descents).sum = d.descents := by
      cases d with
      | call n a b s s' => cases b <;> simp [Deed.events, Event.descents, Deed.descents]
      | _ => rfl
    rw [List.flatMap_cons, List.map_append, List.sum_append, ih, hd]
    rfl

/-- A run ends without going on below a node. -/
theorem Concludes.sum_descents {t : Transformer σ} {D : Nat} {cfg : Config σ}
    {res : Except Abort Node} {es : List Event} {c' : Context σ}
    (h : Concludes t D cfg res es c') : (es.map Event.descents).sum = 0 := by
  cases h with
  | refused ht => cases ht <;> rfl
  | _ => rfl

theorem Transformer.EndsIn.descended_eq {t : Transformer σ} {depth : Nat} {root : Node}
    {store : Store} {state : σ} {log : List Deed} {cfg : Config σ}
    (h : t.EndsIn depth root store state log cfg) :
    (t.run depth root store state).descended = descents log := by
  obtain ⟨es, hc, htrace⟩ := h.concludes
  have hes := hc.sum_descents
  rw [Outcome.descended, htrace, Array.toList_append, List.map_append, List.sum_append,
    List.toList_toArray, List.map_append, List.sum_append, hes, sum_descents_events]
  simp [Event.descents]

end GoTree
