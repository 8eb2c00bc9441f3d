import GoTree.Proofs.Adequacy

/-!
# The kinds of answers

An answer has to **fit** the place it is given for: a slot with one node takes a node of the same
kind, an item of a statement list also takes an expanded block, and the root takes anything. The
test is made when the visit of a node is over, and by then the subtree of the answer has been
traversed, whatever its kind. So several answers that do not fit may be under way at once, and the
one that is reported is the first whose visit is over.

`Transformer.kind_discipline` says this for all transformers: in a run that returns, all answers
fit; a run stops with a violation of kinds exactly when a visit is over whose result does not fit;
this is then the last thing that happens, and the violation names the slot and the two kinds.

The label of a slot is that of the field that holds it (`Found`). A list passes its label on to the
items that are nodes; an item that is not a node has labels of its own.
-/

namespace GoTree

/-- The violations that are about the kind of an answer. -/
def Violation.isOfKind : Violation → Bool
  | slotMismatch .. => true
  | misplacedExpansion _ => true
  | _ => false

/-- The answer `r` for `n` fits the place where `n` was found. -/
def Fits : Origin → Node → Node → Prop
  | .root, _, _ => True
  | .slot _, n, r => r.kind = n.kind
  | .item _, n, r => r.kind = n.kind ∨ r.kind = .expandedBlock

/-- The violation of answering `r` for `n` in the slot `label`: it is about a misplaced expansion
exactly when `r` is an expanded block, and otherwise names the kinds of `n` and `r`. -/
structure Reports (label : String) (n r : Node) (v : Violation) : Prop where
  misplaced : v = .misplacedExpansion label ↔ r.kind = .expandedBlock
  mismatch : r.kind ≠ .expandedBlock → v = .slotMismatch label n.kind.name r.kind.name

private theorem reports_ofAnswer (label : String) (n r : Node) :
    Reports label n r (.ofAnswer label n.kind r) := by
  by_cases h : r.kind = .expandedBlock
  · exact ⟨by simp [Violation.ofAnswer, Node.isExpandedBlock, h], fun hr => absurd h hr⟩
  · exact ⟨by simp [Violation.ofAnswer, Node.isExpandedBlock, h],
      fun _ => by simp [Violation.ofAnswer, Node.isExpandedBlock, h]⟩

theorem isOfKind_ofAnswer (label : String) (k : Kind) (r : Node) :
    (Violation.ofAnswer label k r).isOfKind = true := by
  by_cases h : r.kind = .expandedBlock <;>
    simp [Violation.ofAnswer, Node.isExpandedBlock, h, Violation.isOfKind]

theorem Fits.congr {o : Origin} {n a r : Node} (h : Fits o n r) (hk : r.kind = a.kind) :
    Fits o n a := by
  cases o with
  | root => trivial
  | slot l => exact hk.symm.trans h
  | item l => exact h.imp hk.symm.trans hk.symm.trans

/-! ### Labels -/

/-- A part that a construct has by itself, under a label of its own: a part of the body of a node,
or a part of a list item whatever the label of the list. -/
inductive OwnPart : SlotPart → Prop where
  | body {q : SlotPart} (k : Kind) (x : k.Body) (h : q ∈ (k.bodySlots x).parts) : OwnPart q
  | item {q : SlotPart} (p : Pool) (x : p.Item) (h : ∀ label, q ∈ (p.slots label x).parts) :
      OwnPart q

/-- A node is found in the field with the label of its origin: in a slot of its own or in a
list. -/
inductive Found : Origin → Node → Prop where
  | slot {l : String} {n : Node} (h : OwnPart (.node l n)) : Found (.slot l) n
  | list {l : String} {p : Pool} {seg : Segment p} {n : Node} (x : p.Item)
      (h : OwnPart (.list l p seg)) (hx : (p.slots l x).parts = [.node l n]) : Found (.slot l) n
  | stmts {l : String} {seg : Segment .stmts} (x : Id .stmt) (h : OwnPart (.list l .stmts seg)) :
      Found (.item l) (.stored x)

/-- The label of a place other than the root. -/
def Origin.label? : Origin → Option String
  | root => none
  | slot label => some label
  | item label => some label

/-- A part that is in its place: a part of a construct, or a node found in a list. -/
def Held (q : SlotPart) : Prop :=
  OwnPart q ∨ ∃ l n, q = .node l n ∧ Found (.slot l) n

theorem Held.found {l : String} {n : Node} (h : Held (.node l n)) : Found (.slot l) n := by
  rcases h with h | ⟨l', n', heq, h⟩
  · exact .slot h
  · cases heq
    exact h

theorem Held.ownPart {l : String} {p : Pool} {seg : Segment p} (h : Held (.list l p seg)) :
    OwnPart (.list l p seg) := by
  rcases h with h | ⟨l', n', heq, -⟩
  · exact h
  · cases heq

/-- A list item is a single node under the label of the list, or its labels are its own. -/
private theorem Pool.parts_slots_label (p : Pool) (l : String) (x : p.Item) :
    (∃ n, (p.slots l x).parts = [.node l n]) ∨
      ∀ l', (p.slots l' x).parts = (p.slots l x).parts := by
  cases p <;> first | exact .inl ⟨_, rfl⟩ | exact .inr fun _ => rfl

theorem OwnPart.held_item {l : String} {p : Pool} {seg : Segment p} (h : OwnPart (.list l p seg))
    (x : p.Item) : ∀ q ∈ (p.slots l x).parts, Held q := by
  intro q hq
  rcases p.parts_slots_label l x with ⟨n, hn⟩ | hl
  · rw [hn] at hq
    obtain rfl := List.mem_singleton.mp hq
    exact .inr ⟨l, n, rfl, .list x h hn⟩
  · exact .inl (.item p x fun l' => by rwa [hl l'])

/-! ### The discipline along the rules -/

/-- Of the marks inside a node: what is called or finished was found in a field, and the answer
fits. -/
def Mark.Sound : Mark → Prop
  | call o n a _ => Found o n ∧ Fits o n a
  | finish o n r => Found o n ∧ Fits o n r
  | _ => True

/-- Every visit that is over in a history ended well. -/
def Settled (w : List Mark) : Prop :=
  ∀ o n r, .finish o n r ∈ w → Found o n ∧ Fits o n r

/-- What a task takes up is in its place. -/
def Task.Placed : Task → Prop
  | visit _ _ => True
  | parts ps => ∀ q ∈ ps, Held q
  | items l p seg _ _ => OwnPart (.list l p seg)
  | stmts l seg _ _ _ => OwnPart (.list l .stmts seg)

/-- What is known of a completed task. Whether the result of a visit fits is not known before its
slot has looked at it. -/
def Task.Disciplined : (k : Task) → List Mark → k.Result → Prop
  | visit o n, w, r => ∃ a b u, w = .call o n a b :: u ++ [.finish o n r] ∧ r.kind = a.kind ∧
      ∀ m ∈ u, m.Sound
  | parts _, w, _ => ∀ m ∈ w, m.Sound
  | items .., w, _ => ∀ m ∈ w, m.Sound
  | stmts .., w, _ => ∀ m ∈ w, m.Sound

/-- How a task stops: with all finished visits in order and for a reason that is not one of kinds,
or at the first visit whose result does not fit. -/
inductive Stops : List Mark → Abort → Prop where
  | settled {w : List Mark} {e : Abort} (hw : Settled w)
      (he : ∀ v, e = .violation v → v.isOfKind = false) : Stops w e
  | broken {u : List Mark} {o : Origin} {n r : Node} {l : String} (hu : Settled u)
      (hf : Found o n) (hl : o.label? = some l) (hr : ¬Fits o n r) :
      Stops (u ++ [.finish o n r, .violation (.ofAnswer l n.kind r)])
        (.violation (.ofAnswer l n.kind r))

theorem Settled.nil : Settled [] := by
  intro o n r h
  cases h

theorem Settled.append {u w : List Mark} (hu : Settled u) (hw : Settled w) : Settled (u ++ w) := by
  intro o n r h
  rcases List.mem_append.mp h with h | h
  · exact hu o n r h
  · exact hw o n r h

theorem Settled.of_sound {w : List Mark} (h : ∀ m ∈ w, m.Sound) : Settled w :=
  fun _ _ _ hm => h _ hm

/-- A mark that ends no visit leaves a history settled. -/
theorem Settled.singleton {m : Mark} (h : ∀ o n r, m ≠ .finish o n r) : Settled [m] := by
  intro o n r hm
  exact absurd (List.mem_singleton.mp hm).symm (h o n r)

theorem Stops.append {u w : List Mark} {e : Abort} (hu : Settled u) (h : Stops w e) :
    Stops (u ++ w) e := by
  cases h with
  | settled hw he => exact .settled (hu.append hw) he
  | broken hu' hf hl hr =>
    rw [← List.append_assoc]
    exact .broken (hu.append hu') hf hl hr

private theorem Stops.fault {w : List Mark} (hw : Settled w) (e : Fault) : Stops w (.fault e) :=
  .settled hw fun v h => by cases h

section Rules

variable {σ : Type} {t : Transformer σ} {d : Nat} {k : Task} {c c' : Context σ} {w : List Mark}
  {o : Origin} {n r : Node} {l : String} {seg : Segment .stmts} {i : Nat} {s s' : Store}
  {out out' : Option (Array (Id .stmt))} {e : Abort}

/-- A visit in a field whose result fits is in order. -/
theorem Task.Disciplined.sound (h : (Task.visit o n).Disciplined w r) (hf : Found o n)
    (hr : Fits o n r) : ∀ m ∈ w, m.Sound := by
  obtain ⟨a, b, u, rfl, hk, hu⟩ := h
  intro m hm
  simp only [List.cons_append, List.mem_cons, List.mem_append, List.not_mem_nil, or_false] at hm
  rcases hm with rfl | hm | rfl
  · exact ⟨hf, hr.congr hk⟩
  · exact hu m hm
  · exact ⟨hf, hr⟩

/-- A visit whose result does not fit stops the task when the slot looks at it. -/
theorem Task.Disciplined.stops (h : (Task.visit o n).Disciplined w r) (hf : Found o n)
    (hl : o.label? = some l) (hr : ¬Fits o n r) :
    Stops (w ++ [.violation (.ofAnswer l n.kind r)]) (.violation (.ofAnswer l n.kind r)) := by
  obtain ⟨a, b, u, rfl, -, hu⟩ := h
  have hs : Settled ([.call o n a b] ++ u) :=
    (Settled.singleton (by simp)).append (.of_sound hu)
  simpa using Stops.broken hs hf hl hr

theorem Takes.fits {x : Id .stmt} (h : Takes l seg i s out r w out' s') :
    Fits (.item l) (.stored x) r := by
  cases h with
  | write => exact .inl rfl
  | push => exact .inl rfl
  | splice => exact .inr rfl

theorem Takes.sound (h : Takes l seg i s out r w out' s') : ∀ m ∈ w, m.Sound := by
  cases h with
  | write => simp
  | push => simp
  | splice => simp [Mark.Sound]

/-- A completed task that takes up what is in its place is in order. -/
theorem Completes.disciplined {r : k.Result} (h : Completes t d k c w r c') (hk : k.Placed) :
    k.Disciplined w r := by
  induction h with
  | @stay d o n a c c' hr => exact ⟨a, false, [], rfl, rfl, by simp⟩
  | @down d o n a r x y c c₁ c₂ c₃ s w ps hr hx hw hy hc hl ih =>
    have hw' := ih fun q hq => .inl (.body a.kind x hq)
    -- closing keeps the kind of the answer, so what the slot will look at is the kind of `a`
    refine ⟨a, true, w ++ [.leave], by simp, Node.kind_of_close hc, ?_⟩
    intro m hm
    rcases List.mem_append.mp hm with hm | hm
    · exact hw' m hm
    · obtain rfl := List.mem_singleton.mp hm
      trivial
  | nil => simp [Task.Disciplined]
  | node hv hr hw ihv ihw =>
    obtain ⟨hq, hps⟩ := List.forall_mem_cons.mp hk
    exact List.forall_mem_append.mpr ⟨(ihv trivial).sound hq.found hr, ihw hps⟩
  | list hp hs hi hw ihi ihw =>
    obtain ⟨hq, hps⟩ := List.forall_mem_cons.mp hk
    exact List.forall_mem_append.mpr ⟨ihi hq.ownPart, ihw hps⟩
  | stmts hs hi hc hw ihi ihw =>
    obtain ⟨hq, hps⟩ := List.forall_mem_cons.mp hk
    exact List.forall_mem_append.mpr ⟨ihi hq.ownPart, ihw hps⟩
  | itemsDone => simp [Task.Disciplined]
  | itemsNext hx hv hy hs hw ihv ihw =>
    exact List.forall_mem_append.mpr ⟨ihv (OwnPart.held_item hk _), ihw hk⟩
  | stmtsDone => simp [Task.Disciplined]
  | stmtsNext hx hv ht hw ihv ihw =>
    refine List.forall_mem_append.mpr ⟨List.forall_mem_append.mpr ⟨?_, ht.sound⟩, ihw hk⟩
    exact (ihv trivial).sound (.stmts _ hk) ht.fits

/-- A task that stops early and takes up what is in its place stops at the first result that does
not fit, or for another reason. -/
theorem Aborts.stops (h : Aborts t d k c w e c') (hk : k.Placed) : Stops w e := by
  induction h with
  | halt hr => exact .fault (.singleton (by simp)) _
  | danglingNode hr hx =>
    refine .settled (Settled.append (u := [_]) (.singleton (by simp)) (.singleton (by simp))) ?_
    rintro v ⟨⟩
    rfl
  | inner hr hx hw ih =>
    refine Stops.append (u := [_]) (.singleton (by simp)) (ih fun q hq => ?_)
    exact .inl (.body _ _ hq)
  | close hr hx hw hy hc =>
    have hs := Settled.of_sound (hw.disciplined fun q hq => .inl (.body _ _ hq))
    exact .fault (Settled.append (u := [_]) (.singleton (by simp)) hs) _
  | leave hr hx hw hy hc hl =>
    have hs := Settled.of_sound (hw.disciplined fun q hq => .inl (.body _ _ hq))
    refine .fault (Settled.append ?_ (.singleton (by simp))) _
    exact Settled.append (u := [_]) (.singleton (by simp)) hs
  | deep => exact .fault .nil _
  | node hv ih => exact ih trivial
  | mismatch hv hr =>
    -- all visits inside of this one are settled, so it is the first that breaks the rule
    have hq := (List.forall_mem_cons.mp hk).1
    exact (hv.disciplined trivial).stops hq.found rfl hr
  | danglingList hs =>
    refine .settled (.singleton (by simp)) ?_
    rintro v ⟨⟩
    rfl
  | list hp hs hi ih => exact ih (List.forall_mem_cons.mp hk).1.ownPart
  | stmts hs hi ih => exact ih (List.forall_mem_cons.mp hk).1.ownPart
  | settle hs hi hc =>
    exact .fault (.of_sound (hi.disciplined (List.forall_mem_cons.mp hk).1.ownPart)) _
  | rest hv hw ih =>
    obtain ⟨hq, hps⟩ := List.forall_mem_cons.mp hk
    refine Stops.append (.of_sound (hv.disciplined ?_)) (ih hps)
    exact List.forall_mem_singleton.mpr hq
  | itemRead hx => exact .fault .nil _
  | item hx hv ih => exact ih (OwnPart.held_item hk _)
  | itemWrite hx hv hy hs =>
    exact .fault (.of_sound (hv.disciplined (OwnPart.held_item hk _))) _
  | itemsRest hx hv hy hs hw ih =>
    exact Stops.append (.of_sound (hv.disciplined (OwnPart.held_item hk _))) (ih hk)
  | stmtRead hx => exact .fault .nil _
  | stmt hx hv ih => exact ih trivial
  | @refused _ l _ _ _ x _ _ _ _ _ _ _ _ hx hv ht =>
    have hd := hv.disciplined trivial
    have hf : Found (.item l) (.stored x) := .stmts x hk
    cases ht with
    | write h => simpa using Stops.fault (.of_sound (hd.sound hf (.inl rfl))) _
    | mismatch hs hb => exact hd.stops hf rfl (not_or.mpr ⟨hs, hb⟩)
    | dangling hb =>
      refine .settled (.append (.of_sound (hd.sound hf (.inr rfl))) (.singleton (by simp))) ?_
      rintro v ⟨⟩
      rfl
    | block hb hn => simpa using Stops.fault (.of_sound (hd.sound hf (.inr rfl))) _
    | collect hb hn ho =>
      exact .fault (.append (.of_sound (hd.sound hf (.inr rfl))) (.singleton (by simp))) _
  | stmtsRest hx hv ht hw ih =>
    refine Stops.append (.append (.of_sound ?_) (.of_sound ht.sound)) (ih hk)
    exact (hv.disciplined trivial).sound (.stmts _ hk) ht.fits

/-- The first visit that is over with a result that does not fit is the last thing that happens. -/
private theorem Stops.last (h : Stops w e) (hm : .finish o n r ∈ w) (hr : ¬Fits o n r) :
    ∃ u l v, w = u ++ [.finish o n r, .violation v] ∧
      (∀ o n r, .finish o n r ∈ u → Fits o n r) ∧ Found o n ∧ o.label? = some l ∧
      Reports l n r v ∧ e = .violation v := by
  cases h with
  | settled hw he => exact absurd (hw o n r hm).2 hr
  | @broken u o' n' r' l hu hf hl hr' =>
    rcases List.mem_append.mp hm with hm | hm
    · exact absurd (hu o n r hm).2 hr
    · obtain ⟨rfl, rfl, rfl⟩ : o = o' ∧ n = n' ∧ r = r' := by simpa using hm
      exact ⟨u, l, _, rfl, fun o n r hm => (hu o n r hm).2, hf, hl, reports_ofAnswer l n r, rfl⟩

/-- A task stops with a violation of kinds exactly when the result of a visit does not fit. -/
private theorem Stops.isOfKind_iff (h : Stops w e) :
    (∃ v, e = .violation v ∧ v.isOfKind) ↔ ∃ o n r, .finish o n r ∈ w ∧ ¬Fits o n r := by
  constructor
  · rintro ⟨v, rfl, hv⟩
    cases h with
    | settled hw he =>
      rw [he v rfl] at hv
      cases hv
    | broken hu hf hl hr => exact ⟨_, _, _, by simp, hr⟩
  · rintro ⟨o, n, r, hm, hr⟩
    cases h with
    | settled hw he => exact absurd (hw o n r hm).2 hr
    | broken => exact ⟨_, rfl, isOfKind_ofAnswer _ _ _⟩

/-- The visit of the root is not over in a task that stops. -/
private theorem Stops.root_notMem (h : Stops w e) : .finish .root n r ∉ w := by
  intro hm
  have hfound : Found .root n := by
    cases h with
    | settled hw he => exact (hw .root n r hm).1
    | @broken u o' n' r' l hu hf hl hr' =>
      rcases List.mem_append.mp hm with hm | hm
      · exact (hu .root n r hm).1
      · obtain ⟨rfl, rfl, -⟩ : .root = o' ∧ n = n' ∧ r = r' := by simpa using hm
        exact hf
  cases hfound

variable {root m : Node}

/-- All answers in a completed visit of the root fit. -/
private theorem Task.Disciplined.fits_call {a : Node} {b : Bool}
    (h : (Task.visit .root root).Disciplined w r) (hm : .call o n a b ∈ w) : Fits o n a := by
  obtain ⟨a', b', u, rfl, -, hu⟩ := h
  simp only [List.cons_append, List.mem_cons, List.mem_append, List.not_mem_nil, or_false,
    reduceCtorEq] at hm
  rcases hm with hm | hm
  · cases hm
    trivial
  · exact (hu _ hm).2

/-- A visit that is over in a completed visit of the root is that visit, or it was found in a field
and its result fits. -/
theorem Task.Disciplined.finish_cases (h : (Task.visit .root root).Disciplined w r)
    (hm : .finish o n m ∈ w) : (o = .root ∧ n = root ∧ m = r) ∨ Found o n ∧ Fits o n m := by
  obtain ⟨a, b, u, rfl, -, hu⟩ := h
  simp only [List.cons_append, List.mem_cons, List.mem_append, List.not_mem_nil, or_false,
    reduceCtorEq, false_or] at hm
  rcases hm with hm | hm
  · exact .inr (hu _ hm)
  · cases hm
    exact .inl ⟨rfl, rfl, rfl⟩

private theorem Task.Disciplined.fits_finish (h : (Task.visit .root root).Disciplined w r)
    (hm : .finish o n m ∈ w) : Fits o n m := by
  rcases h.finish_cases hm with ⟨rfl, -, -⟩ | ⟨-, hf⟩
  · trivial
  · exact hf

end Rules

/-- **The discipline of kinds.** Every run has a history by the rules such that

* if the run returns, every answer in it fits;
* the run is stopped by a violation of kinds exactly when a visit is over whose result does not
  fit;
* such a visit is the first of its sort and the last thing that happens: the run stops with a
  violation that carries the label of the field in which the node was found, is about a misplaced
  expansion if the result is an expanded block, and otherwise names the kinds of the node and of the
  result;
* a visit of the root that is over is the result of the run, of whatever kind. -/
theorem Transformer.kind_discipline {σ : Type} (t : Transformer σ) (depth : Nat) (root : Node)
    (store : Store) (state : σ) :
    let out := t.run depth root store state
    ∃ w, t.IsHistory depth root store state w ∧
      (∀ r, out.result = .ok r → ∀ o n a b, .call o n a b ∈ w → Fits o n a) ∧
      ((∃ v, out.result = .error (.violation v) ∧ v.isOfKind) ↔
        ∃ o n r, .finish o n r ∈ w ∧ ¬Fits o n r) ∧
      (∀ o n r, .finish o n r ∈ w → ¬Fits o n r → ∃ u l v,
        w = u ++ [.finish o n r, .violation v] ∧ (∀ o n r, .finish o n r ∈ u → Fits o n r) ∧
          Found o n ∧ o.label? = some l ∧ Reports l n r v ∧
          out.result = .error (.violation v)) ∧
      ∀ n r, .finish .root n r ∈ w → n = root ∧ out.result = .ok r := by
  intro out
  obtain ⟨w, hw⟩ := t.exists_history depth root store state
  refine ⟨w, hw, ?_⟩
  rcases hres : out.result with e | r
  · have hs : Stops w e := (hw.aborts hres).stops trivial
    refine ⟨by simp, by simpa using hs.isOfKind_iff, ?_, fun n r hm => absurd hm hs.root_notMem⟩
    intro o n r hm hr
    simpa using hs.last hm hr
  · have hd : (Task.visit .root root).Disciplined w r := (hw.completes hres).disciplined trivial
    refine ⟨fun _ _ o n a b hm => hd.fits_call hm, ?_, ?_, ?_⟩
    · constructor
      · rintro ⟨v, hv, -⟩
        cases hv
      · rintro ⟨o, n, m, hm, hr⟩
        exact absurd (hd.fits_finish hm) hr
    · intro o n m hm hr
      exact absurd (hd.fits_finish hm) hr
    · intro n m hm
      rcases hd.finish_cases hm with ⟨-, rfl, rfl⟩ | ⟨hf, -⟩
      · exact ⟨rfl, rfl⟩
      · cases hf

end GoTree
