import GoTree.Fault

/-!
# Handles

The parts of a syntax tree refer to each other by number. An `Id c` is a position in the table of
category `c`, a `Segment p` is a run of cells in the list buffer `p`, and a `Symbol` is the number
of an interned string. Handles are 32-bit words and are plain data: nothing in their types says
that they resolve, and every operation that follows one has to say what happens when it does not.

The category of an id and the pool of a segment are **indices** of the types, so a statement id
never stands for an expression, while the types of nodes built from handles stay non-recursive.
-/

namespace GoTree

/-- The number of values of a 32-bit word. -/
abbrev wordSize : Nat := 0x100000000

/-- The categories of nodes that are kept in a table, one table each. -/
inductive Category where
  | decl
  | stmt
  | simpleStmt
  | expr
  | type
  | signature
  | func
  | field
  | switchClause
  | commClause
  | typeParams
  | typeParamDecl
  | comment
  | commentGroup
  | file
  deriving DecidableEq

/-- The list buffers, one for each type of list item. -/
inductive Pool where
  | identNames
  | exprs
  | stmts
  | types
  | fields
  | specs
  | keyedElements
  | topDecls
  | switchClauses
  | commClauses
  | typeCaseElems
  | typeTerms
  | interfaceElems
  | typeParamDecls
  | comments
  | commentGroups
  | exprOrTypes
  | files
  deriving DecidableEq

/-- A position in the table of category `c`. -/
structure Id (c : Category) where
  raw : UInt32
  deriving DecidableEq

/-- The position as an index. -/
def Id.index {c : Category} (id : Id c) : Nat :=
  id.raw.toNat

/-- How many different ids a list holds. -/
def Id.countDistinct {c : Category} (ids : List (Id c)) : Nat :=
  ids.eraseDups.length

/-- The number of an interned string. -/
structure Symbol where
  raw : UInt32
  deriving DecidableEq

/-- The position as an index into the interned strings. -/
def Symbol.index (s : Symbol) : Nat :=
  s.raw.toNat

/-! ### Source positions -/

/-- A stretch of source text, from `start` up to `stop`. -/
structure Span where
  start : UInt32 := 0
  stop : UInt32 := 0
  deriving DecidableEq

namespace Span

/-- The span that stands for "no position". -/
def none : Span := {}

/-- The span between two positions, each of which has to fit in a word; the start is tested
first. -/
def ofNat (start stop : Nat) : Except Fault Span :=
  if wordSize ≤ start then .error .startTooLarge
  else if wordSize ≤ stop then .error .endTooLarge
  else .ok ⟨start.toUInt32, stop.toUInt32⟩

/-- The length of a span; a span that ends before it starts has length zero. -/
def length (s : Span) : Nat :=
  s.stop.toNat - s.start.toNat

/-- Whether a span covers no text. -/
def isEmpty (s : Span) : Bool :=
  s.length == 0

end Span

/-! ### List handles -/

/-- A run of `len` cells of the buffer `p`, the first of which is `start`. -/
structure Segment (p : Pool) where
  start : UInt32
  len : UInt32
  deriving DecidableEq

namespace Segment

variable {p : Pool}

/-- The handle of a list without items. -/
def empty : Segment p := ⟨0, 0⟩

/-- Whether a list has no items. The start of such a handle is arbitrary. -/
def isEmpty (seg : Segment p) : Bool :=
  seg.len == 0

/-- The number of items. -/
def length (seg : Segment p) : Nat :=
  seg.len.toNat

/-- The position after the last cell, in unbounded arithmetic. -/
def stop (seg : Segment p) : Nat :=
  seg.start.toNat + seg.len.toNat

/-- The position after the last cell, which has to fit in a word. -/
def stop32 (seg : Segment p) : Except Fault UInt32 :=
  if wordSize ≤ seg.stop then .error .addOverflow else .ok (seg.start + seg.len)

/-- The first reason why a segment is not a range of a buffer with `size` cells: its end does not
fit in a word, it starts too late, it ends too late. An empty segment is tested like any other. -/
def fault? (seg : Segment p) (size : Nat) : Option Fault :=
  if wordSize ≤ seg.stop then some .addOverflow
  else if size < seg.start.toNat then some (.rangeStart seg.start.toNat size)
  else if size < seg.stop then some (.rangeEnd seg.stop size)
  else Option.none

/-- The reason why item `i` of a segment is not a cell of a buffer with `size` cells: the segment
is not a range of the buffer, or it has no item `i`. -/
def itemFault? (seg : Segment p) (size i : Nat) : Option Fault :=
  match seg.fault? size with
  | some e => some e
  | Option.none =>
    if i < seg.length then Option.none else some (.indexOutOfBounds seg.length i)

/-- A segment is a range of every buffer that reaches to its end, provided the end is a word. -/
theorem fault?_eq_none_iff {seg : Segment p} {size : Nat} :
    seg.fault? size = Option.none ↔ seg.stop < wordSize ∧ seg.stop ≤ size := by
  unfold fault? stop
  split
  · simp; omega
  · split
    · simp; omega
    · split <;> simp <;> omega

/-- A range of a buffer is a range of every longer buffer. -/
theorem fault?_eq_none_mono {seg : Segment p} {size size' : Nat} (h : size ≤ size')
    (hs : seg.fault? size = Option.none) : seg.fault? size' = Option.none := by
  rw [fault?_eq_none_iff] at hs ⊢
  omega

end Segment

end GoTree
