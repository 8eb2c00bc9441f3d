import GoTree.Transform.Basic

/-!
# The traversal

`Transformer.run` takes a transformer through a tree. Each node goes to the transformer first, then
the children of its answer are taken up from left to right:

* the payload of a stored node is copied out, its slots are traversed, and the rebuilt payload is
  stored back at the end, whatever happened to the stored payload in between;
* a slot with one node takes the answer for that node, which has to be of the same kind;
* a list is traversed in place, item by item, with one exception: an item of a statement list may
  be answered by an **expanded block**. From the first such answer on, the new contents are
  collected on the side, and they become a new list when the last item is done. The statements of
  an expanded block are not taken up as items of the list that they go into; they are traversed
  before that, as the children of the block, if the answer says to go on below it.

The root takes any answer.

Trees are graphs of handles, so they may be cyclic, and a transformer can make them so. The
recursion is therefore bounded by a **depth**: `Transformer.walk` goes through at most that many
levels of slots and ends with `Fault.tooDeep` if the tree is nested deeper.
-/

namespace GoTree

namespace Walk

variable {σ : Type}

/-- Tests that a list lies in its buffer. The test is in unbounded arithmetic, and an empty list is
tested like any other. -/
def checkList {p : Pool} (slot : String) (seg : Segment p) : Walk σ Unit := do
  let size ← inspect fun s => (s.buffer p).size
  if size < seg.stop then raise (.danglingList slot seg.start seg.len)

/-- The payload of an id, which has to be allocated. -/
def fetch {c : Category} (id : Id c) : Walk σ c.Payload := do
  match ← inspect (·.get? id) with
  | some node => pure node
  | none => raise (.danglingNode c.name id.raw)

end Walk

namespace Transformer

open Walk (emit raise lift onStore checkList fetch)

variable {σ : Type}

/-! ### Nodes

In this section `walk` traverses the slots of a node one level further down. -/

/-- Traverses the children of a node. -/
def descend (walk : {α : Type} → Slots α → Walk σ α) : Node → Walk σ Node
  | ⟨.stored _, id⟩ => do
      let payload ← fetch id
      let payload ← walk (Category.slots _ payload)
      onStore (StoreM.save id payload)
      return .stored id
  | ⟨k, v⟩ => do
      let v ← walk (k.slots v)
      return ⟨k, v⟩

/-- Hands a node to the transformer and, unless told otherwise, traverses the children of the
answer. -/
def visit (t : Transformer σ) (walk : {α : Type} → Slots α → Walk σ α) (node : Node) :
    Walk σ Node := do
  emit (.call node)
  let (answer, goOn) ← lift (t.replace node)
  emit (.answer answer goOn)
  if goOn then
    let result ← descend walk answer
    emit .leave
    lift t.leave
    return result
  else
    return answer

/-- A slot with one node. -/
def nodeSlot (t : Transformer σ) (walk : {α : Type} → Slots α → Walk σ α) (slot : String)
    (k : Kind) (v : k.Value) : Walk σ k.Value := do
  let answer ← t.visit walk ⟨k, v⟩
  match answer.as? k with
  | some v => pure v
  | none => raise (.ofAnswer slot k answer)

/-! ### Lists -/

/-- Traverses `n` items of a list in place, from item `i` on. -/
def walkItems (walk : {α : Type} → Slots α → Walk σ α) {p : Pool} (slot : String)
    (seg : Segment p) : (n i : Nat) → Walk σ Unit
  | 0, _ => pure ()
  | n + 1, i => do
      let x ← onStore (StoreM.item seg i)
      let x ← walk (p.slots slot x)
      onStore (StoreM.setItem seg i x)
      walkItems walk slot seg n (i + 1)

/-- What is collected of a statement list once a splice has happened. Before the first splice the
items of the list up to `i` are the answers so far. -/
def collected (seg : Segment .stmts) (i : Nat) : Option (Array (Id .stmt)) →
    Walk σ (Array (Id .stmt))
  | some out => pure out
  | none => do return (← onStore (StoreM.items seg)).extract 0 i

/-- Takes the answer for item `i` of a statement list. -/
def spliceAnswer (slot : String) (seg : Segment .stmts) (i : Nat)
    (out : Option (Array (Id .stmt))) (answer : Node) : Walk σ (Option (Array (Id .stmt))) :=
  match answer with
  | ⟨.stored .stmt, id⟩ =>
    match out with
    | some out => pure (some (out.push id))
    | none => do
        onStore (StoreM.setItem seg i id)
        return none
  | ⟨.expandedBlock, block⟩ => do
      checkList slot block.stmts
      let inserted ← onStore (StoreM.items block.stmts)
      emit (.splice slot i inserted.size)
      let out ← collected seg i out
      return some (out ++ inserted)
  | answer => raise (.ofAnswer slot (.stored .stmt) answer)

/-- Traverses `n` items of a statement list, from item `i` on, and returns the new contents if
there was a splice. -/
def walkStmts (t : Transformer σ) (walk : {α : Type} → Slots α → Walk σ α) (slot : String)
    (seg : Segment .stmts) : (n i : Nat) → Option (Array (Id .stmt)) →
    Walk σ (Option (Array (Id .stmt)))
  | 0, _, out => pure out
  | n + 1, i, out => do
      let stmt ← onStore (StoreM.item seg i)
      let answer ← t.visit walk (.stored stmt)
      let out ← spliceAnswer slot seg i out answer
      walkStmts t walk slot seg n (i + 1) out

/-- A slot with a list. -/
def listSlot (t : Transformer σ) (walk : {α : Type} → Slots α → Walk σ α) (slot : String) :
    (p : Pool) → Segment p → Walk σ (Segment p)
  | .stmts, seg => do
      checkList slot seg
      match ← t.walkStmts walk slot seg seg.length 0 none with
      | some out => onStore (StoreM.list .stmts out)
      | none => return seg
  | _, seg => do
      checkList slot seg
      walkItems walk slot seg seg.length 0
      return seg

/-! ### The whole traversal -/

/-- Traverses slots, through at most `depth` levels. -/
def walk (t : Transformer σ) : (depth : Nat) → {α : Type} → Slots α → Walk σ α
  | 0, _, _ => throw (.fault .tooDeep)
  | depth + 1, _, slots =>
      slots.run ⟨t.nodeSlot (t.walk depth), t.listSlot (t.walk depth)⟩

/-- Traverses the tree of a node and returns the node that stands in its place. -/
def traverse (t : Transformer σ) (depth : Nat) (root : Node) : Walk σ Node := do
  emit (.start root.kind)
  t.visit (t.walk depth) root

/-- The outcome of a traversal: the answer for the root or the reason of the abort, and the store,
the state of the transformer and the trace at its end. -/
structure Outcome (σ : Type) where
  result : Except Abort Node
  store : Store
  state : σ
  trace : Array Event

/-- Takes a transformer through the tree of a node. -/
def run (t : Transformer σ) (depth : Nat) (root : Node) (store : Store) (state : σ) :
    Outcome σ :=
  match t.traverse depth root ⟨⟨store, state⟩, #[]⟩ with
  | .ok node ⟨⟨store, state⟩, trace⟩ => ⟨.ok node, store, state, trace⟩
  | .error e ⟨⟨store, state⟩, trace⟩ => ⟨.error e, store, state, trace⟩

end Transformer

end GoTree
