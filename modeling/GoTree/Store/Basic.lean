import GoTree.Store.Table

/-!
# The store

A `Store` holds the nodes and lists of any number of trees. This module has its readers
(`get?`, `get`, `items`, `item`) and its total updates (`push`, `put`, `append`, `putItem`): a
reader that cannot follow its handle reports a `Fault`, and an update through a handle that does
not resolve changes nothing. `GoTree.Store.Action` puts tests in front of the updates.

A list that changes its length is appended anew and its old cells are abandoned, so a handle that
was a range of its buffer once is a range of it from then on (`Segment.fault?_eq_none_mono`).
-/

namespace GoTree

/-- All nodes and all lists. -/
structure Store where
  tables : Tables := {}
  buffers : Buffers := {}
  deriving DecidableEq

namespace Store

variable {c d : Category} {p q : Pool}

/-- The table of a category. -/
def table (s : Store) (c : Category) : Table c.Payload :=
  s.tables.get c

/-- The buffer of a pool. -/
def buffer (s : Store) (p : Pool) : Array p.Item :=
  s.buffers.get p

/-- Changes the table of one category. -/
def modifyTable (s : Store) (c : Category) (f : Table c.Payload → Table c.Payload) : Store :=
  { s with tables := s.tables.modify c f }

/-- Changes the buffer of one pool. -/
def modifyBuffer (s : Store) (p : Pool) (f : Array p.Item → Array p.Item) : Store :=
  { s with buffers := s.buffers.modify p f }

/-! ### Reading -/

/-- The node of an id, if it is allocated. -/
def get? (s : Store) (id : Id c) : Option c.Payload :=
  (s.table c).nodes[id.index]?

/-- The node of an id. -/
def get (s : Store) (id : Id c) : Except Fault c.Payload :=
  match s.get? id with
  | some node => .ok node
  | none => .error (.indexOutOfBounds (s.table c).size id.index)

/-- The span of an id. -/
def span (s : Store) (id : Id c) : Except Fault Span :=
  match (s.table c).spans[id.index]? with
  | some span => .ok span
  | none => .error (.indexOutOfBounds (s.table c).spans.size id.index)

/-- The items of a list. -/
def items (s : Store) (seg : Segment p) : Except Fault (Array p.Item) :=
  match seg.fault? (s.buffer p).size with
  | some e => .error e
  | none => .ok ((s.buffer p).extract seg.start.toNat seg.stop)

/-- Item `i` of a list. -/
def item (s : Store) (seg : Segment p) (i : Nat) : Except Fault p.Item :=
  match seg.itemFault? (s.buffer p).size i with
  | some e => .error e
  | none =>
    match (s.buffer p)[seg.start.toNat + i]? with
    | some x => .ok x
    | none => .error (.indexOutOfBounds seg.length i)

/-! ### Updates -/

/-- Adds a node; its id is the size of its table before. -/
def push (s : Store) (c : Category) (node : c.Payload) (span : Span) : Store :=
  s.modifyTable c (·.push node span)

/-- Overwrites the node of an id and keeps its span. -/
def put (s : Store) (id : Id c) (node : c.Payload) : Store :=
  s.modifyTable c (·.put id.index node)

/-- Adds items at the end of a buffer. -/
def append (s : Store) (p : Pool) (items : Array p.Item) : Store :=
  s.modifyBuffer p (· ++ items)

/-- Overwrites item `i` of a list. -/
def putItem (s : Store) (seg : Segment p) (i : Nat) (x : p.Item) : Store :=
  s.modifyBuffer p (·.setIfInBounds (seg.start.toNat + i) x)

/-! ### Readers after updates -/

@[simp]
theorem table_modifyTable_self (s : Store) (c : Category)
    (f : Table c.Payload → Table c.Payload) : (s.modifyTable c f).table c = f (s.table c) :=
  Tables.get_modify_self _ _ _

theorem table_modifyTable_of_ne (s : Store) (h : d ≠ c) (f : Table c.Payload → Table c.Payload) :
    (s.modifyTable c f).table d = s.table d :=
  Tables.get_modify_of_ne _ h _

@[simp]
theorem buffer_modifyTable (s : Store) (c : Category) (f : Table c.Payload → Table c.Payload)
    (p : Pool) : (s.modifyTable c f).buffer p = s.buffer p :=
  rfl

@[simp]
theorem buffer_modifyBuffer_self (s : Store) (p : Pool) (f : Array p.Item → Array p.Item) :
    (s.modifyBuffer p f).buffer p = f (s.buffer p) :=
  Buffers.get_modify_self _ _ _

theorem buffer_modifyBuffer_of_ne (s : Store) (h : q ≠ p) (f : Array p.Item → Array p.Item) :
    (s.modifyBuffer p f).buffer q = s.buffer q :=
  Buffers.get_modify_of_ne _ h _

@[simp]
theorem table_modifyBuffer (s : Store) (p : Pool) (f : Array p.Item → Array p.Item)
    (c : Category) : (s.modifyBuffer p f).table c = s.table c :=
  rfl

/-- Stores with the same tables and the same buffers are equal. -/
theorem ext_read {s t : Store} (ht : ∀ c, s.table c = t.table c)
    (hb : ∀ p, s.buffer p = t.buffer p) : s = t := by
  obtain ⟨ts, bs⟩ := s
  obtain ⟨tt, bt⟩ := t
  have h₁ : ts = tt := Tables.ext_get ht
  have h₂ : bs = bt := Buffers.ext_get hb
  rw [h₁, h₂]

end Store

end GoTree
