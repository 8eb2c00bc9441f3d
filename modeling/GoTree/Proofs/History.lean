import GoTree.Proofs.Parts
import GoTree.Transform.Walk

/-!
# The rules of a traversal

What a traversal does is stated here by rules, apart from the functions that do it. `Completes`
says that a **task** (the visit of a node, the parts of a node, the rest of a list) ends with a
result, `Aborts` that it stops early. Both carry a **history**: the list of all that happens, in
order, with the place where each node was found. The trace of a traversal is what is left of its
history when the places and the ends of visits are left out (`Mark.events`).

For visits the rules are a grammar of histories. Writing `V(n)` for the histories of a visit of `n`,
`V(n)` is `call n a` alone when the answer `a` is not descended into, and otherwise `call n a`, the
histories of all parts of `a` from left to right, and `leave`. The parts of `a` are those of its
body as it stands right after the answer; the items of a list are read one by one, each when the
ones before it are done.

The number in front bounds the nesting, as the depth of `Transformer.walk` does.
`GoTree.Proofs.Adequacy` proves that the rules describe `Transformer.run`.
-/

namespace GoTree

/-! ### Histories -/

/-- Where a node that is handed to the transformer was found. -/
inductive Origin where
  | root
  /-- In a slot of its own, or in a list that takes one answer for each item. -/
  | slot (label : String)
  /-- In a statement list. -/
  | item (label : String)
  deriving DecidableEq

/-- What happens in a traversal. -/
inductive Mark where
  /-- The transformer is given a node and answers it. -/
  | call (origin : Origin) (given answer : Node) (descend : Bool)
  /-- The transformer is given a node and faults. -/
  | halt (origin : Origin) (given : Node)
  /-- The transformer is told that the children of a node are done. -/
  | leave
  /-- The visit of a node is over; `result` is what it yields. -/
  | finish (origin : Origin) (given result : Node)
  | splice (slot : String) (index inserted : Nat)
  | violation (v : Violation)

/-- What the trace shows of a mark. -/
def Mark.events : Mark → List Event
  | call _ given answer descend => [.call given, .answer answer descend]
  | halt _ given => [.call given]
  | leave => [.leave]
  | finish .. => []
  | splice slot index inserted => [.splice slot index inserted]
  | violation v => [.violation v]

/-- The trace of a history. -/
def traceOf (w : List Mark) : Array Event :=
  (w.flatMap Mark.events).toArray

@[simp]
theorem traceOf_nil : traceOf [] = #[] :=
  rfl

@[simp]
theorem traceOf_append (u w : List Mark) : traceOf (u ++ w) = traceOf u ++ traceOf w := by
  simp [traceOf]

/-! ### Tasks -/

/-- What a traversal has to do at one point. -/
inductive Task where
  | visit (origin : Origin) (n : Node)
  | parts (ps : List SlotPart)
  /-- The `n` items of a list from item `i` on. -/
  | items (label : String) (p : Pool) (seg : Segment p) (n i : Nat)
  /-- The `n` items of a statement list from item `i` on, `out` being what has been collected. -/
  | stmts (label : String) (seg : Segment .stmts) (n i : Nat) (out : Option (Array (Id .stmt)))

/-- What a task yields: the node, the parts or the contents that take the place of the old. -/
abbrev Task.Result : Task → Type
  | visit .. => Node
  | parts _ => List SlotPart
  | items .. => Unit
  | stmts .. => Option (Array (Id .stmt))

/-! ### Answers for the items of a statement list -/

section Answers

variable (label : String) (seg : Segment .stmts) (i : Nat) (s : Store)

/-- The contents collected before item `i`: what is on the side already, or else the items of the
list up to `i`. -/
inductive Collected : Option (Array (Id .stmt)) → Array (Id .stmt) → Prop where
  | aside (out : Array (Id .stmt)) : Collected (some out) out
  | inPlace {xs : Array (Id .stmt)} (h : s.items seg = .ok xs) : Collected none (xs.extract 0 i)

/-- An answer for item `i` is taken in the store `s`. -/
inductive Takes : Option (Array (Id .stmt)) → Node → List Mark → Option (Array (Id .stmt)) →
    Store → Prop where
  | write {id : Id .stmt} {s' : Store} (h : StoreM.setItem seg i id s = .ok () s') :
      Takes none (.stored id) [] none s'
  | push (out : Array (Id .stmt)) (id : Id .stmt) :
      Takes (some out) (.stored id) [] (some (out.push id)) s
  | splice {out : Option (Array (Id .stmt))} {old new : Array (Id .stmt)} {b : Block}
      (hb : b.stmts.stop ≤ (s.buffer .stmts).size) (hn : s.items b.stmts = .ok new)
      (ho : Collected seg i s out old) :
      Takes out (.expandedBlock b) [.splice label i new.size] (some (old ++ new)) s

/-- An answer for item `i` stops the traversal. -/
inductive Refuses : Option (Array (Id .stmt)) → Node → List Mark → Abort → Store → Prop where
  | write {id : Id .stmt} {e : Fault} {s' : Store} (h : StoreM.setItem seg i id s = .error e s') :
      Refuses none (.stored id) [] (.fault e) s'
  | mismatch {out : Option (Array (Id .stmt))} {r : Node} (hs : r.kind ≠ .stored .stmt)
      (hb : r.kind ≠ .expandedBlock) :
      Refuses out r [.violation (.ofAnswer label (.stored .stmt) r)]
        (.violation (.ofAnswer label (.stored .stmt) r)) s
  | dangling {out : Option (Array (Id .stmt))} {b : Block}
      (hb : (s.buffer .stmts).size < b.stmts.stop) :
      Refuses out (.expandedBlock b)
        [.violation (.danglingList label b.stmts.start b.stmts.len)]
        (.violation (.danglingList label b.stmts.start b.stmts.len)) s
  | block {out : Option (Array (Id .stmt))} {b : Block} {e : Fault}
      (hb : b.stmts.stop ≤ (s.buffer .stmts).size) (hn : s.items b.stmts = .error e) :
      Refuses out (.expandedBlock b) [] (.fault e) s
  | collect {b : Block} {new : Array (Id .stmt)} {e : Fault}
      (hb : b.stmts.stop ≤ (s.buffer .stmts).size) (hn : s.items b.stmts = .ok new)
      (ho : s.items seg = .error e) :
      Refuses none (.expandedBlock b) [.splice label i new.size] (.fault e) s

end Answers

/-- The handle of a statement list when its last item is done: collected contents become a new
list. -/
def Segment.settle (seg : Segment .stmts) : Option (Array (Id .stmt)) → StoreM (Segment .stmts)
  | some out => StoreM.list .stmts out
  | none => pure seg

/-! ### The rules -/

variable {σ : Type}

/-- A task ends with a result. -/
inductive Completes (t : Transformer σ) : Nat → (k : Task) → Context σ → List Mark → k.Result →
    Context σ → Prop where
  /-- The answer is not descended into. -/
  | stay {d : Nat} {o : Origin} {n a : Node} {c c' : Context σ}
      (hr : t.replace n c = .ok (a, false) c') :
      Completes t d (.visit o n) c [.call o n a false, .finish o n a] a c'
  /-- The parts of the answer are traversed, the answer is refilled with what they yield, and the
  transformer is told. -/
  | down {d : Nat} {o : Origin} {n a r : Node} {x y : a.kind.Body} {c c₁ c₂ c₃ : Context σ}
      {s : Store} {w : List Mark} {ps : List SlotPart}
      (hr : t.replace n c = .ok (a, true) c₁) (hx : a.body? c₁.store = some x)
      (hw : Completes t d (.parts (a.kind.bodySlots x).parts) c₁ w ps c₂)
      (hy : (a.kind.bodySlots x).Refills ps y) (hc : a.close y c₂.store = .ok r s)
      (hl : t.leave ⟨s, c₂.state⟩ = .ok () c₃) :
      Completes t d (.visit o n) c (.call o n a true :: w ++ [.leave, .finish o n r]) r c₃
  | nil {d : Nat} {c : Context σ} : Completes t (d + 1) (.parts []) c [] [] c
  /-- A slot with one node takes an answer of the same kind. -/
  | node {d : Nat} {l : String} {n r : Node} {ps qs : List SlotPart} {c c₁ c₂ : Context σ}
      {u w : List Mark} (hv : Completes t d (.visit (.slot l) n) c u r c₁) (hk : r.kind = n.kind)
      (hw : Completes t (d + 1) (.parts ps) c₁ w qs c₂) :
      Completes t (d + 1) (.parts (.node l n :: ps)) c (u ++ w) (.node l r :: qs) c₂
  /-- A list that is not a statement list keeps its handle. -/
  | list {d : Nat} {l : String} {p : Pool} {seg : Segment p} {ps qs : List SlotPart}
      {c c₁ c₂ : Context σ} {u w : List Mark} (hp : p ≠ .stmts)
      (hs : seg.stop ≤ (c.store.buffer p).size)
      (hi : Completes t d (.items l p seg seg.length 0) c u () c₁)
      (hw : Completes t (d + 1) (.parts ps) c₁ w qs c₂) :
      Completes t (d + 1) (.parts (.list l p seg :: ps)) c (u ++ w) (.list l p seg :: qs) c₂
  | stmts {d : Nat} {l : String} {seg seg' : Segment .stmts} {ps qs : List SlotPart}
      {c c₁ c₂ : Context σ} {s : Store} {u w : List Mark} {out : Option (Array (Id .stmt))}
      (hs : seg.stop ≤ (c.store.buffer .stmts).size)
      (hi : Completes t d (.stmts l seg seg.length 0 none) c u out c₁)
      (hc : seg.settle out c₁.store = .ok seg' s)
      (hw : Completes t (d + 1) (.parts ps) ⟨s, c₁.state⟩ w qs c₂) :
      Completes t (d + 1) (.parts (.list l .stmts seg :: ps)) c (u ++ w)
        (.list l .stmts seg' :: qs) c₂
  | itemsDone {d : Nat} {l : String} {p : Pool} {seg : Segment p} {i : Nat} {c : Context σ} :
      Completes t d (.items l p seg 0 i) c [] () c
  /-- An item is read, its parts are traversed, and it is written back to its cell. -/
  | itemsNext {d : Nat} {l : String} {p : Pool} {seg : Segment p} {n i : Nat} {x y : p.Item}
      {qs : List SlotPart} {c c₁ c₂ : Context σ} {s : Store} {u w : List Mark}
      (hx : c.store.item seg i = .ok x)
      (hv : Completes t d (.parts (p.slots l x).parts) c u qs c₁)
      (hy : (p.slots l x).Refills qs y) (hs : StoreM.setItem seg i y c₁.store = .ok () s)
      (hw : Completes t d (.items l p seg n (i + 1)) ⟨s, c₁.state⟩ w () c₂) :
      Completes t d (.items l p seg (n + 1) i) c (u ++ w) () c₂
  | stmtsDone {d : Nat} {l : String} {seg : Segment .stmts} {i : Nat}
      {out : Option (Array (Id .stmt))} {c : Context σ} :
      Completes t d (.stmts l seg 0 i out) c [] out c
  /-- A statement is read and visited, and its answer is taken. -/
  | stmtsNext {d : Nat} {l : String} {seg : Segment .stmts} {n i : Nat} {x : Id .stmt} {r : Node}
      {out out' res : Option (Array (Id .stmt))} {c c₁ c₂ : Context σ} {s : Store}
      {u v w : List Mark} (hx : c.store.item seg i = .ok x)
      (hv : Completes t d (.visit (.item l) (.stored x)) c u r c₁)
      (ht : Takes l seg i c₁.store out r v out' s)
      (hw : Completes t d (.stmts l seg n (i + 1) out') ⟨s, c₁.state⟩ w res c₂) :
      Completes t d (.stmts l seg (n + 1) i out) c (u ++ v ++ w) res c₂

/-- A task stops early. -/
inductive Aborts (t : Transformer σ) : Nat → Task → Context σ → List Mark → Abort →
    Context σ → Prop where
  /-- The transformer faults. -/
  | halt {d : Nat} {o : Origin} {n : Node} {e : Fault} {c c' : Context σ}
      (hr : t.replace n c = .error e c') :
      Aborts t d (.visit o n) c [.halt o n] (.fault e) c'
  | danglingNode {d : Nat} {o : Origin} {n : Node} {b : Category} {id : Id b} {c c₁ : Context σ}
      (hr : t.replace n c = .ok (.stored id, true) c₁) (hx : c₁.store.get? id = none) :
      Aborts t d (.visit o n) c
        [.call o n (.stored id) true, .violation (.danglingNode b.name id.raw)]
        (.violation (.danglingNode b.name id.raw)) c₁
  | inner {d : Nat} {o : Origin} {n a : Node} {x : a.kind.Body} {c c₁ c₂ : Context σ}
      {w : List Mark} {e : Abort} (hr : t.replace n c = .ok (a, true) c₁)
      (hx : a.body? c₁.store = some x)
      (hw : Aborts t d (.parts (a.kind.bodySlots x).parts) c₁ w e c₂) :
      Aborts t d (.visit o n) c (.call o n a true :: w) e c₂
  | close {d : Nat} {o : Origin} {n a : Node} {x y : a.kind.Body} {c c₁ c₂ : Context σ}
      {s : Store} {w : List Mark} {ps : List SlotPart} {e : Fault}
      (hr : t.replace n c = .ok (a, true) c₁) (hx : a.body? c₁.store = some x)
      (hw : Completes t d (.parts (a.kind.bodySlots x).parts) c₁ w ps c₂)
      (hy : (a.kind.bodySlots x).Refills ps y) (hc : a.close y c₂.store = .error e s) :
      Aborts t d (.visit o n) c (.call o n a true :: w) (.fault e) ⟨s, c₂.state⟩
  | leave {d : Nat} {o : Origin} {n a r : Node} {x y : a.kind.Body} {c c₁ c₂ c₃ : Context σ}
      {s : Store} {w : List Mark} {ps : List SlotPart} {e : Fault}
      (hr : t.replace n c = .ok (a, true) c₁) (hx : a.body? c₁.store = some x)
      (hw : Completes t d (.parts (a.kind.bodySlots x).parts) c₁ w ps c₂)
      (hy : (a.kind.bodySlots x).Refills ps y) (hc : a.close y c₂.store = .ok r s)
      (hl : t.leave ⟨s, c₂.state⟩ = .error e c₃) :
      Aborts t d (.visit o n) c (.call o n a true :: w ++ [.leave]) (.fault e) c₃
  /-- The nesting is deeper than the bound. -/
  | deep {ps : List SlotPart} {c : Context σ} : Aborts t 0 (.parts ps) c [] (.fault .tooDeep) c
  | node {d : Nat} {l : String} {n : Node} {ps : List SlotPart} {c c' : Context σ} {w : List Mark}
      {e : Abort} (hv : Aborts t d (.visit (.slot l) n) c w e c') :
      Aborts t (d + 1) (.parts (.node l n :: ps)) c w e c'
  /-- The answer for a slot with one node is of another kind. -/
  | mismatch {d : Nat} {l : String} {n r : Node} {ps : List SlotPart} {c c' : Context σ}
      {w : List Mark} (hv : Completes t d (.visit (.slot l) n) c w r c') (hk : r.kind ≠ n.kind) :
      Aborts t (d + 1) (.parts (.node l n :: ps)) c (w ++ [.violation (.ofAnswer l n.kind r)])
        (.violation (.ofAnswer l n.kind r)) c'
  | danglingList {d : Nat} {l : String} {p : Pool} {seg : Segment p} {ps : List SlotPart}
      {c : Context σ} (hs : (c.store.buffer p).size < seg.stop) :
      Aborts t (d + 1) (.parts (.list l p seg :: ps)) c
        [.violation (.danglingList l seg.start seg.len)]
        (.violation (.danglingList l seg.start seg.len)) c
  | list {d : Nat} {l : String} {p : Pool} {seg : Segment p} {ps : List SlotPart} {c c' : Context σ}
      {w : List Mark} {e : Abort} (hp : p ≠ .stmts) (hs : seg.stop ≤ (c.store.buffer p).size)
      (hi : Aborts t d (.items l p seg seg.length 0) c w e c') :
      Aborts t (d + 1) (.parts (.list l p seg :: ps)) c w e c'
  | stmts {d : Nat} {l : String} {seg : Segment .stmts} {ps : List SlotPart} {c c' : Context σ}
      {w : List Mark} {e : Abort} (hs : seg.stop ≤ (c.store.buffer .stmts).size)
      (hi : Aborts t d (.stmts l seg seg.length 0 none) c w e c') :
      Aborts t (d + 1) (.parts (.list l .stmts seg :: ps)) c w e c'
  | settle {d : Nat} {l : String} {seg : Segment .stmts} {ps : List SlotPart} {c c₁ : Context σ}
      {s : Store} {w : List Mark} {out : Option (Array (Id .stmt))} {e : Fault}
      (hs : seg.stop ≤ (c.store.buffer .stmts).size)
      (hi : Completes t d (.stmts l seg seg.length 0 none) c w out c₁)
      (hc : seg.settle out c₁.store = .error e s) :
      Aborts t (d + 1) (.parts (.list l .stmts seg :: ps)) c w (.fault e) ⟨s, c₁.state⟩
  /-- The first part is done, and a later one stops the traversal. -/
  | rest {d : Nat} {p q : SlotPart} {ps : List SlotPart} {c c₁ c₂ : Context σ} {u w : List Mark}
      {e : Abort} (hv : Completes t (d + 1) (.parts [p]) c u [q] c₁)
      (hw : Aborts t (d + 1) (.parts ps) c₁ w e c₂) :
      Aborts t (d + 1) (.parts (p :: ps)) c (u ++ w) e c₂
  | itemRead {d : Nat} {l : String} {p : Pool} {seg : Segment p} {n i : Nat} {e : Fault}
      {c : Context σ} (hx : c.store.item seg i = .error e) :
      Aborts t d (.items l p seg (n + 1) i) c [] (.fault e) c
  | item {d : Nat} {l : String} {p : Pool} {seg : Segment p} {n i : Nat} {x : p.Item}
      {c c' : Context σ} {w : List Mark} {e : Abort} (hx : c.store.item seg i = .ok x)
      (hv : Aborts t d (.parts (p.slots l x).parts) c w e c') :
      Aborts t d (.items l p seg (n + 1) i) c w e c'
  | itemWrite {d : Nat} {l : String} {p : Pool} {seg : Segment p} {n i : Nat} {x y : p.Item}
      {qs : List SlotPart} {c c₁ : Context σ} {s : Store} {w : List Mark} {e : Fault}
      (hx : c.store.item seg i = .ok x)
      (hv : Completes t d (.parts (p.slots l x).parts) c w qs c₁)
      (hy : (p.slots l x).Refills qs y) (hs : StoreM.setItem seg i y c₁.store = .error e s) :
      Aborts t d (.items l p seg (n + 1) i) c w (.fault e) ⟨s, c₁.state⟩
  | itemsRest {d : Nat} {l : String} {p : Pool} {seg : Segment p} {n i : Nat} {x y : p.Item}
      {qs : List SlotPart} {c c₁ c₂ : Context σ} {s : Store} {u w : List Mark} {e : Abort}
      (hx : c.store.item seg i = .ok x)
      (hv : Completes t d (.parts (p.slots l x).parts) c u qs c₁)
      (hy : (p.slots l x).Refills qs y) (hs : StoreM.setItem seg i y c₁.store = .ok () s)
      (hw : Aborts t d (.items l p seg n (i + 1)) ⟨s, c₁.state⟩ w e c₂) :
      Aborts t d (.items l p seg (n + 1) i) c (u ++ w) e c₂
  | stmtRead {d : Nat} {l : String} {seg : Segment .stmts} {n i : Nat}
      {out : Option (Array (Id .stmt))} {e : Fault} {c : Context σ}
      (hx : c.store.item seg i = .error e) :
      Aborts t d (.stmts l seg (n + 1) i out) c [] (.fault e) c
  | stmt {d : Nat} {l : String} {seg : Segment .stmts} {n i : Nat} {x : Id .stmt}
      {out : Option (Array (Id .stmt))} {c c' : Context σ} {w : List Mark} {e : Abort}
      (hx : c.store.item seg i = .ok x)
      (hv : Aborts t d (.visit (.item l) (.stored x)) c w e c') :
      Aborts t d (.stmts l seg (n + 1) i out) c w e c'
  /-- The answer for a statement of a list is refused. -/
  | refused {d : Nat} {l : String} {seg : Segment .stmts} {n i : Nat} {x : Id .stmt} {r : Node}
      {out : Option (Array (Id .stmt))} {c c₁ : Context σ} {s : Store} {u v : List Mark}
      {e : Abort} (hx : c.store.item seg i = .ok x)
      (hv : Completes t d (.visit (.item l) (.stored x)) c u r c₁)
      (ht : Refuses l seg i c₁.store out r v e s) :
      Aborts t d (.stmts l seg (n + 1) i out) c (u ++ v) e ⟨s, c₁.state⟩
  | stmtsRest {d : Nat} {l : String} {seg : Segment .stmts} {n i : Nat} {x : Id .stmt} {r : Node}
      {out out' : Option (Array (Id .stmt))} {c c₁ c₂ : Context σ} {s : Store}
      {u v w : List Mark} {e : Abort} (hx : c.store.item seg i = .ok x)
      (hv : Completes t d (.visit (.item l) (.stored x)) c u r c₁)
      (ht : Takes l seg i c₁.store out r v out' s)
      (hw : Aborts t d (.stmts l seg n (i + 1) out') ⟨s, c₁.state⟩ w e c₂) :
      Aborts t d (.stmts l seg (n + 1) i out) c (u ++ v ++ w) e c₂

end GoTree
