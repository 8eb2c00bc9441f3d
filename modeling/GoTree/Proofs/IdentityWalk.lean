import GoTree.Proofs.Observer
import GoTree.Proofs.Scanning
import GoTree.Proofs.Unfolding

/-!
# The traversal that keeps everything

`keepAll` answers every node with itself and goes on to its children. What such a traversal does can
be told without a transformer and without changes of the store: `Walks s d ps ns` says that walking
through the parts `ps` in the store `s` meets the nodes `ns`, in this order. The rules have the
shape of those for printing in `GoTree.Proofs.Scanning`, and `d` bounds the number of levels that
printing would take. Every run of `keepAll` that returns is a walk (`Completes.walks`).

A node that is met may be met as a field of a struct or not. `Met s b ps b' n` says that the node
`n` is met in the parts `ps`, where `b'` tells whether fields at that place are fields of a struct;
a walk meets exactly these nodes (`Walks.mem_iff`).
-/

namespace GoTree

/-- Answers every node with itself and goes on to its children. -/
def keepAll : Transformer Unit where
  replace := fun n c => .ok (n, true) c

theorem keepAll_observes : keepAll.Observes where
  answer := by
    rintro n a b c c' ⟨⟩
    rfl
  replace _ _ := rfl
  leave _ := rfl

/-! ### The nodes that are shown to a transformer -/

/-- The node that is handed to the transformer. -/
def Event.given? : Event → Option Node
  | call n => some n
  | _ => none

/-- The nodes that were handed to the transformer, in order. -/
def Transformer.Outcome.visited {σ : Type} (out : Outcome σ) : List Node :=
  out.trace.toList.filterMap Event.given?

/-- The nodes that are handed to the transformer in a history, in order. -/
def visitedIn (w : List Mark) : List Node :=
  (traceOf w).toList.filterMap Event.given?

private theorem visitedIn_append (u w : List Mark) :
    visitedIn (u ++ w) = visitedIn u ++ visitedIn w := by
  simp [visitedIn]

private theorem visitedIn_call (o : Origin) (n a : Node) (b : Bool) (w : List Mark) :
    visitedIn (.call o n a b :: w) = n :: visitedIn w :=
  rfl

/-! ### Walks -/

/-- A walk through the parts of a list meets these nodes. -/
inductive Walks (s : Store) : Nat → List SlotPart → List Node → Prop where
  | nil {d : Nat} : Walks s d [] []
  | cons {d : Nat} {q q' : SlotPart} {ps : List SlotPart} {ns ms : List Node}
      (h : Walks s d [q] ns) (ht : Walks s d (q' :: ps) ms) : Walks s d (q :: q' :: ps) (ns ++ ms)
  | node {d e : Nat} {l : String} {n : Node} {x : n.kind.Body} {ns : List Node}
      (hd : e + (SlotPart.node l n).levels ≤ d) (hx : n.body? s = some x)
      (h : Walks s e (n.kind.bodySlots x).parts ns) : Walks s d [.node l n] (n :: ns)
  | list {d e : Nat} {l : String} {p : Pool} {seg : Segment p} {xs : List p.Item} {ns : List Node}
      (hd : e + (SlotPart.list l p seg).levels ≤ d) (hs : seg.stop ≤ (s.buffer p).size)
      (hl : xs.length = seg.length) (hx : s.Reads p seg.start.toNat xs)
      (h : Walks s e (xs.map (.item l p)) ns) : Walks s d [.list l p seg] ns
  | item {d : Nat} {l : String} {p : Pool} {x : p.Item} {ns : List Node}
      (h : Walks s d (p.slots l x).parts ns) : Walks s d [.item l p x] ns

private theorem Walks.first {s : Store} {d : Nat} {q : SlotPart} {ps : List SlotPart}
    {ns ms : List Node}
    (h : Walks s d [q] ns) (ht : Walks s d ps ms) : Walks s d (q :: ps) (ns ++ ms) := by
  cases ps with
  | nil =>
    cases ht
    rwa [List.append_nil]
  | cons q' ps => exact .cons h ht

/-- What a task of `keepAll` has walked through. The visit of a node needs a level more than its
parts. -/
def Task.Walked (s : Store) (d : Nat) (w : List Mark) : Task → Prop
  | visit _ n => ∀ l, Walks s (d + 1) [.node l n] (visitedIn w)
  | parts ps => Walks s d ps (visitedIn w)
  | items l p seg n i => ∃ xs, xs.length = n ∧ s.Reads p (seg.start.toNat + i) xs ∧
      Walks s d (xs.map (.item l p)) (visitedIn w)
  | stmts l seg n i out => out = none → ∃ xs, xs.length = n ∧
      s.Reads .stmts (seg.start.toNat + i) xs ∧
        Walks s (d + 1) (xs.map (.item l .stmts)) (visitedIn w)

/-- A task of `keepAll` that ends is a walk. -/
theorem Completes.walks {d : Nat} {k : Task} {c c' : Context Unit} {w : List Mark} {r : k.Result}
    (h : Completes keepAll d k c w r c') : k.Walked c.store d w := by
  induction h with
  | stay hr => cases hr
  | @down d o n a r x y c c₁ c₂ c₃ s w ps hr hx hw hy hc hl ih =>
    cases hr
    intro l
    have hd : d + (SlotPart.node l n).levels ≤ d + 1 :=
      Nat.add_le_add_left (SlotPart.levels_le_one _) d
    have hend : visitedIn [.leave, .finish o n r] = [] := rfl
    rw [List.cons_append, visitedIn_call, visitedIn_append, hend, List.append_nil]
    exact .node hd hx ih
  | nil => exact .nil
  | @node d l n r ps qs c c₁ c₂ u w hv hk hw ihv ihw =>
    obtain ⟨-, hs⟩ := hv.kept keepAll_observes
    rw [hs] at ihw
    rw [Task.Walked, visitedIn_append]
    exact (ihv l).first ihw
  | @list d l p seg ps qs c c₁ c₂ u w hp hb hi hw ihi ihw =>
    have hs : c₁.store = c.store := hi.kept keepAll_observes
    have hd : d + (SlotPart.list l p seg).levels ≤ d + 1 :=
      Nat.add_le_add_left (SlotPart.levels_le_one _) d
    obtain ⟨xs, hlen, hx, hxs⟩ := ihi
    rw [hs] at ihw
    rw [Task.Walked, visitedIn_append]
    exact Walks.first (.list hd hb hlen hx hxs) ihw
  | @stmts d l seg seg' ps qs c c₁ c₂ s u w out hb hi hc hw ihi ihw =>
    obtain ⟨rfl, hs⟩ := hi.kept keepAll_observes rfl
    cases hc
    obtain ⟨xs, hlen, hx, hxs⟩ := ihi rfl
    rw [show (Context.mk c₁.store c₁.state).store = c.store from hs] at ihw
    rw [Task.Walked, visitedIn_append]
    exact Walks.first (.list (Nat.le_refl _) hb hlen hx hxs) ihw
  | itemsDone => exact ⟨[], rfl, trivial, .nil⟩
  | @itemsNext d l p seg n i x y qs c c₁ c₂ s u w hx hv hy hs hw ihv ihw =>
    have hs' := (hv.kept keepAll_observes).setItem hx hy hs
    rw [show (Context.mk s c₁.state).store = c.store from hs'] at ihw
    obtain ⟨xs, hlen, hxs, hws⟩ := ihw
    refine ⟨x :: xs, by rw [List.length_cons, hlen], ⟨Store.getElem?_of_item hx, hxs⟩, ?_⟩
    rw [visitedIn_append]
    exact Walks.first (.item ihv) hws
  | stmtsDone => exact fun _ => ⟨[], rfl, trivial, .nil⟩
  | @stmtsNext d l seg n i x r out out' res c c₁ c₂ s u v w hx hv ha hw ihv ihw =>
    rintro rfl
    -- the answer is the item itself: it is written back in place, and nothing is collected
    obtain ⟨rfl, hs₁⟩ := hv.kept keepAll_observes
    have hx₁ := hx
    rw [← hs₁] at hx₁
    obtain ⟨rfl, rfl⟩ := ha.kept hx₁
    rw [show (Context.mk c₁.store c₁.state).store = c.store from hs₁] at ihw
    obtain ⟨xs, hlen, hxs, hws⟩ := ihw rfl
    refine ⟨x :: xs, by rw [List.length_cons, hlen], ⟨Store.getElem?_of_item hx, hxs⟩, ?_⟩
    cases ha
    rw [List.append_nil, visitedIn_append]
    exact Walks.first (.item (ihv l)) hws

/-- A run of `keepAll` that returns is a walk. -/
theorem walks_of_run {depth : Nat} {root r : Node} {s : Store}
    (hr : (keepAll.run depth root s ()).result = .ok r) (l : String) :
    Walks s (depth + 1) [.node l root] (keepAll.run depth root s ()).visited := by
  obtain ⟨w, hw⟩ := keepAll.exists_history depth root s ()
  have hv : (keepAll.run depth root s ()).visited = visitedIn w := by
    rw [Transformer.Outcome.visited, hw.trace_eq, Array.toList_append, List.filterMap_append]
    rfl
  rw [hv]
  exact (hw.completes hr).walks l

/-! ### The nodes that are met -/

/-- A node is met in the parts of a list. `b` and `b'` tell whether the fields in the list, and at
the place of the node, are fields of a struct. -/
inductive Met (s : Store) : Bool → List SlotPart → Bool → Node → Prop where
  | here {b : Bool} {l : String} {n : Node} {ps : List SlotPart} : Met s b (.node l n :: ps) b n
  | inner {b b' : Bool} {l : String} {n m : Node} {x : n.kind.Body} {ps : List SlotPart}
      (hx : n.body? s = some x)
      (h : Met s (n.kind.inStruct b x) (n.kind.bodySlots x).parts b' m) :
      Met s b (.node l n :: ps) b' m
  | list {b b' : Bool} {l : String} {p : Pool} {seg : Segment p} {xs : List p.Item} {m : Node}
      {ps : List SlotPart} (hl : xs.length = seg.length) (hx : s.Reads p seg.start.toNat xs)
      (h : Met s b (xs.map (.item l p)) b' m) : Met s b (.list l p seg :: ps) b' m
  | item {b b' : Bool} {l : String} {p : Pool} {x : p.Item} {m : Node} {ps : List SlotPart}
      (h : Met s b (p.slots l x).parts b' m) : Met s b (.item l p x :: ps) b' m
  | rest {b b' : Bool} {q : SlotPart} {ps : List SlotPart} {m : Node} (h : Met s b ps b' m) :
      Met s b (q :: ps) b' m

namespace Met

variable {s : Store} {b b' : Bool} {q : SlotPart} {ps : List SlotPart} {m : Node}

theorem not_nil : ¬Met s b [] b' m := by
  rintro ⟨⟩

theorem of_first (h : Met s b [q] b' m) : Met s b (q :: ps) b' m := by
  cases h with
  | here => exact .here
  | inner hx h => exact .inner hx h
  | list hl hx h => exact .list hl hx h
  | item h => exact .item h
  | rest h => exact absurd h not_nil

private theorem cons_iff : Met s b (q :: ps) b' m ↔ Met s b [q] b' m ∨ Met s b ps b' m := by
  constructor
  · intro h
    cases h with
    | here => exact .inl .here
    | inner hx h => exact .inl (.inner hx h)
    | list hl hx h => exact .inl (.list hl hx h)
    | item h => exact .inl (.item h)
    | rest h => exact .inr h
  · rintro (h | h)
    · exact h.of_first
    · exact .rest h

end Met

/-- A walk meets the nodes that are met in its parts, and no others. -/
theorem Walks.mem_iff {s : Store} {d : Nat} {ps : List SlotPart} {ns : List Node}
    (h : Walks s d ps ns) (b : Bool) (m : Node) : m ∈ ns ↔ ∃ b', Met s b ps b' m := by
  induction h generalizing b with
  | nil =>
    constructor
    · rintro ⟨⟩
    · rintro ⟨b', ⟨⟩⟩
  | cons _ _ ih ih' =>
    rw [List.mem_append, ih b, ih' b, ← exists_or]
    exact exists_congr fun b' => Met.cons_iff.symm
  | node hd hx _ ih =>
    rw [List.mem_cons, ih]
    constructor
    · rintro (rfl | ⟨b', h⟩)
      · exact ⟨b, .here⟩
      · exact ⟨b', .inner hx h⟩
    · rintro ⟨b', h⟩
      cases h with
      | here => exact .inl rfl
      | inner hx' h =>
        cases hx.symm.trans hx'
        exact .inr ⟨b', h⟩
      | rest h => exact absurd h Met.not_nil
  | list hd hs hl hx _ ih =>
    rw [ih b]
    constructor
    · rintro ⟨b', h⟩
      exact ⟨b', .list hl hx h⟩
    · rintro ⟨b', h⟩
      cases h with
      | list hl' hx' h =>
        cases hx.unique hx' (hl.trans hl'.symm)
        exact ⟨b', h⟩
      | rest h => exact absurd h Met.not_nil
  | item _ ih =>
    rw [ih b]
    constructor
    · rintro ⟨b', h⟩
      exact ⟨b', .item h⟩
    · rintro ⟨b', h⟩
      cases h with
      | item h => exact ⟨b', h⟩
      | rest h => exact absurd h Met.not_nil

end GoTree
