import GoTree.Node

/-!
# Slots

The children of a node sit in its **slots**. A value of type `Slots α` presents the slots of one
node in surface order, each with a label and its present content, and rebuilds the node (an `α`)
from whatever new contents it is handed: it is a tree of requests, and `Slots.run` answers the
requests in any monad.

A slot holds either one node or a whole list. What to do with a list is left to the handler of the
run, which sees its handle and returns the handle to be stored.
-/

namespace GoTree

/-- The slots of a node, in order, and the node rebuilt from their new contents. -/
inductive Slots (α : Type) where
  /-- No slot is left. -/
  | done (a : α)
  /-- A slot that holds one node. -/
  | node (label : String) (k : Kind) (v : k.Value) (next : k.Value → Slots α)
  /-- A slot that holds a list. -/
  | list (label : String) (p : Pool) (seg : Segment p) (next : Segment p → Slots α)

namespace Slots

variable {α β : Type}

/-- The slots of `x`, then those of `f` at what `x` rebuilds. -/
protected def bind : Slots α → (α → Slots β) → Slots β
  | done a, f => f a
  | node label k v next, f => node label k v fun v => (next v).bind f
  | list label p seg next, f => list label p seg fun seg => (next seg).bind f

instance : Monad Slots where
  pure := done
  bind := Slots.bind

/-- How the requests of a `Slots` are answered in a monad. -/
structure Handler (m : Type → Type) where
  /-- The new content of a slot with one node. -/
  node : String → (k : Kind) → k.Value → m k.Value
  /-- The new handle of a slot with a list. -/
  list : String → (p : Pool) → Segment p → m (Segment p)

/-- Answers the requests in order and rebuilds the node. -/
def run {m : Type → Type} [Monad m] (h : Handler m) : Slots α → m α
  | done a => pure a
  | node label k v next => do
      let v ← h.node label k v
      (next v).run h
  | list label p seg next => do
      let seg ← h.list label p seg
      (next seg).run h

/-- What is rebuilt when every slot keeps its content. -/
def rebuild : Slots α → α
  | done a => a
  | node _ _ v next => (next v).rebuild
  | list _ _ seg next => (next seg).rebuild

@[simp]
theorem rebuild_bind (x : Slots α) (f : α → Slots β) :
    (x.bind f).rebuild = (f x.rebuild).rebuild := by
  induction x with
  | done a => rfl
  | node label k v next ih => exact ih v
  | list label p seg next ih => exact ih seg

/-! ### Single slots -/

/-- A slot that holds the id of a stored node. -/
def childSlot {c : Category} (label : String) (id : Id c) : Slots (Id c) :=
  node label (.stored c) id done

/-- A slot that holds an identifier. -/
def nameSlot (label : String) (x : IdentName) : Slots IdentName :=
  node label .ident x done

/-- A slot that holds a basic literal. -/
def literalSlot (label : String) (x : BasicLit) : Slots BasicLit :=
  node label .basicLit x done

/-- A slot that holds a field list. -/
def fieldListSlot (label : String) (x : FieldList) : Slots FieldList :=
  node label .fieldList x done

/-- A slot that holds a block. -/
def blockSlot (label : String) (x : Block) : Slots Block :=
  node label .block x done

/-- A slot that holds a list. -/
def listSlot {p : Pool} (label : String) (seg : Segment p) : Slots (Segment p) :=
  list label p seg done

/-- The slots of an optional part; there are none if it is absent. -/
def optionSlot (slots : α → Slots α) : Option α → Slots (Option α)
  | none => pure none
  | some a => do return some (← slots a)

end Slots

end GoTree
