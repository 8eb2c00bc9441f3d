import GoTree.Slots.Grammar
import GoTree.Transform.Violation

/-!
# Transformers and the traversal monad

A `Transformer σ` decides what a traversal does at each node. It has a state of type `σ` of its own
and may also change the store. `Walk σ` is the monad in which the traversal itself is written: it
threads the store and the state of the transformer, and records every step in a **trace**. An
abort keeps store, state and trace as they were at that moment.
-/

namespace GoTree

/-- What a transformer acts on: the store and its own state. -/
structure Context (σ : Type) where
  store : Store
  state : σ

/-- Actions of a transformer. -/
abbrev TransformM (σ : Type) : Type → Type :=
  EStateM Fault (Context σ)

/-- The decisions of a traversal. -/
structure Transformer (σ : Type) where
  /-- Sees each node before its children and answers with the node that is to stand in its place,
  and whether to go on to the children of that node. -/
  replace : Node → TransformM σ (Node × Bool)
  /-- Is told when the children of a node are done. -/
  leave : TransformM σ Unit := pure ()

/-- Runs an action on the store alone. -/
def TransformM.onStore {σ α : Type} (x : StoreM α) : TransformM σ α := fun ⟨store, state⟩ =>
  match x store with
  | .ok a store => .ok a ⟨store, state⟩
  | .error e store => .error e ⟨store, state⟩

/-! ### Traces -/

/-- The steps of a traversal. -/
inductive Event where
  /-- The traversal starts at a node of this kind. -/
  | start (root : Kind)
  /-- A node is handed to the transformer. -/
  | call (given : Node)
  /-- The transformer has answered. -/
  | answer (returned : Node) (descend : Bool)
  /-- The children of a node are done. -/
  | leave
  /-- Statements replace item `index` of a statement list. -/
  | splice (slot : String) (index inserted : Nat)
  /-- The traversal stops at a violation. -/
  | violation (v : Violation)
  deriving DecidableEq

/-! ### The traversal monad -/

/-- Why a traversal stopped early. -/
inductive Abort where
  | violation (v : Violation)
  | fault (e : Fault)
  deriving DecidableEq

/-- The text that reports an abort. -/
def Abort.message : Abort → String
  | violation v => v.message
  | fault e => e.message

/-- A traversal under way. -/
structure WalkState (σ : Type) where
  context : Context σ
  trace : Array Event := #[]

/-- Steps of a traversal. -/
abbrev Walk (σ : Type) : Type → Type :=
  EStateM Abort (WalkState σ)

namespace Walk

variable {σ α : Type}

/-- Adds an event to the trace. -/
def emit (e : Event) : Walk σ Unit := fun ⟨context, trace⟩ =>
  .ok () ⟨context, trace.push e⟩

/-- Records a violation and stops. -/
def raise (v : Violation) : Walk σ α := do
  emit (.violation v)
  throw (.violation v)

/-- Runs an action of the transformer. -/
def lift (x : TransformM σ α) : Walk σ α := fun ⟨context, trace⟩ =>
  match x context with
  | .ok a context => .ok a ⟨context, trace⟩
  | .error e context => .error (.fault e) ⟨context, trace⟩

/-- Runs an action on the store. -/
def onStore (x : StoreM α) : Walk σ α :=
  lift (TransformM.onStore x)

/-- Reads from the store. -/
def inspect (f : Store → α) : Walk σ α := fun w =>
  let a := f w.context.store
  .ok a w

end Walk

end GoTree
