import GoTree.Node

/-!
# Violations

A traversal stops at the first **violation**: an answer that does not fit the slot it was given
for, or a handle that does not resolve when the traversal comes to it. The tree is then partly
changed, so a violation is final.
-/

namespace GoTree

/-- The ways in which a traversal can go wrong. Slots are named by their labels. -/
inductive Violation where
  /-- A node of one kind was answered for a slot of another kind. -/
  | slotMismatch (slot : String) (expected found : String)
  /-- An expanded block was answered for a slot other than an item of a statement list. -/
  | misplacedExpansion (slot : String)
  /-- A list reaches past the end of its buffer. -/
  | danglingList (slot : String) (start len : UInt32)
  /-- An id is not allocated. -/
  | danglingNode (kind : String) (index : UInt32)
  deriving DecidableEq

namespace Violation

/-- The text that reports a violation. -/
def message : Violation → String
  | slotMismatch slot expected found =>
      s!"rewrite: slot `{slot}` expects {expected}, callback returned {found}"
  | misplacedExpansion slot =>
      s!"rewrite: expanded block returned for `{slot}`, which is not a statement list"
  | danglingList slot start len =>
      s!"rewrite: list in `{slot}` (start {start}, length {len}) reaches past the end of its buffer"
  | danglingNode kind index =>
      s!"rewrite: unexpected {kind} node #{index}: not allocated in this arena"

/-- The slot at which a violation was found; an id is reported without its slot. -/
def slot? : Violation → Option String
  | slotMismatch slot _ _ => some slot
  | misplacedExpansion slot => some slot
  | danglingList slot _ _ => some slot
  | danglingNode _ _ => none

/-- The violation of answering `found` for a slot of kind `expected`. -/
def ofAnswer (slot : String) (expected : Kind) (found : Node) : Violation :=
  if found.isExpandedBlock then .misplacedExpansion slot
  else .slotMismatch slot expected.name found.kind.name

end Violation

end GoTree
