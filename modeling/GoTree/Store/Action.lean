import GoTree.Store.Basic

/-!
# Actions on a store

`StoreM` is the monad of actions that read and change a store and may fault. A fault ends the
action and keeps all that was done before it: the store at the fault is part of the outcome.
-/

namespace GoTree

/-- Actions on a store. -/
abbrev StoreM : Type → Type :=
  EStateM Fault Store

namespace StoreM

variable {c : Category} {p : Pool} {α : Type}

/-- Reads from the store and leaves it alone. -/
def read (f : Store → Except Fault α) : StoreM α := fun s =>
  match f s with
  | .ok a => .ok a s
  | .error e => .error e s

/-- The node of an id. -/
def load (id : Id c) : StoreM c.Payload :=
  read (·.get id)

/-- The items of a list. -/
def items (seg : Segment p) : StoreM (Array p.Item) :=
  read (·.items seg)

/-- Item `i` of a list. -/
def item (seg : Segment p) (i : Nat) : StoreM p.Item :=
  read (·.item seg i)

/-- Allocates a node and returns its id. Ids are counted in 32 bits. -/
def alloc (c : Category) (node : c.Payload) (span : Span := .none) : StoreM (Id c) := fun s =>
  let id : Id c := ⟨(s.table c).size.toUInt32⟩
  .ok id (s.push c node span)

/-- Overwrites the node of an id, which has to be allocated, and keeps its span. -/
def save (id : Id c) (node : c.Payload) : StoreM Unit := fun s =>
  let size := (s.table c).size
  if id.index < size then .ok () (s.put id node)
  else .error (.indexOutOfBounds size id.index) s

/-- Overwrites item `i` of a list. -/
def setItem (seg : Segment p) (i : Nat) (x : p.Item) : StoreM Unit := fun s =>
  match seg.itemFault? (s.buffer p).size i with
  | some e => .error e s
  | none => .ok () (s.putItem seg i x)

/-- Adds a list and returns its handle. A list without items leaves the store as it is and has the
empty handle. The items are in the buffer before their position and number are tested. -/
def list (p : Pool) (items : Array p.Item) : StoreM (Segment p) := fun s =>
  let start := (s.buffer p).size
  let len := items.size
  let s := s.append p items
  if wordSize ≤ start then .error .startTooLarge s
  else if wordSize ≤ len then .error .lengthTooLarge s
  else if len = 0 then .ok .empty s
  else .ok ⟨start.toUInt32, len.toUInt32⟩ s

end StoreM

end GoTree
