import GoTree.Proofs.Unfolding

/-!
# Traversal of trees

The traversal of `GoTree.Transform.Walk`, on trees instead of stores: no handles, no updates, no
footprints. A **tree transformer** is a function `F` from a state and a tree to a state, a tree and
a flag. To traverse a tree is to apply `F`; if the flag is set, each child of the answer is replaced
from left to right by what its own traversal yields:

* a node takes a node of the same kind,
* lists and items are seen through to their children,
* a statement in a statement list takes a statement, or an expanded block, whose statements then
  stand in its place.

Nothing makes the answers smaller, so the recursion need not end. Like that of `Transformer.walk`
it is bounded by a depth, and it yields `none` where the bound is too small. The bound does nothing
else: once there is a result, a larger bound gives the same one (`traverse_mono`).
-/

namespace GoTree

namespace Tree

/-- What an answer contributes to a statement list in which it stands for an item: itself as an
item, or the items of an expanded block. -/
def spliced (blank : Id .stmt) : Tree → Option (List Tree)
  | mk (.node (.stored .stmt) b) us =>
      some [mk (.item .stmts blank) [mk (.node (.stored .stmt) b) us]]
  | mk (.node .expandedBlock _) [mk (.list .stmts) us] => some us
  | _ => none

section Traverse

variable {τ : Type}

/-- Replaces trees from left to right, each by the trees that `f` yields for it. -/
def replaceEach (f : τ → Tree → Option (τ × List Tree)) : τ → List Tree → Option (τ × List Tree)
  | q, [] => some (q, [])
  | q, T :: Ts => do
      let (q, us) ← f q T
      let (q, vs) ← replaceEach f q Ts
      return (q, us ++ vs)

variable (F : τ → Tree → τ × Tree × Bool) (walk : τ → List Tree → Option (τ × List Tree))

/-! ### One level

In this section `walk` traverses the children of a tree one level further down. -/

/-- Applies `F` and, if the flag is set, traverses the children of the answer. -/
def visit (q : τ) (T : Tree) : Option (τ × Tree) :=
  match F q T with
  | (q, T, false) => some (q, T)
  | (q, mk label us, true) => do
      let (q, us) ← walk q us
      return (q, mk label us)

/-- An item of a list. -/
def replaceItem (q : τ) : Tree → Option (τ × List Tree)
  | mk label us => do
      let (q, us) ← walk q us
      return (q, [mk label us])

/-- An item of a statement list. -/
def replaceStmt (q : τ) : Tree → Option (τ × List Tree)
  | mk (.item .stmts blank) [T] => do
      let (q, answer) ← visit F walk q T
      let us ← answer.spliced blank
      return (q, us)
  | _ => none

/-- A child of a node or of an item. -/
def replaceSlot (q : τ) : Tree → Option (τ × List Tree)
  | mk (.node k b) us => do
      let (q, answer) ← visit F walk q (mk (.node k b) us)
      if answer.kind? = some k then return (q, [answer]) else none
  | mk (.list .stmts) us => do
      let (q, us) ← replaceEach (replaceStmt F walk) q us
      return (q, [mk (.list .stmts) us])
  | mk label us => do
      let (q, us) ← replaceEach (replaceItem walk) q us
      return (q, [mk label us])

/-! ### The whole traversal -/

/-- Traverses the children of a tree, through at most `depth` levels. -/
def traverseSlots : (depth : Nat) → τ → List Tree → Option (τ × List Tree)
  | 0, _, _ => none
  | depth + 1, q, Ts => replaceEach (replaceSlot F (traverseSlots depth)) q Ts

/-- Traverses a tree and yields the tree that stands in its place. -/
def traverse (depth : Nat) : τ → Tree → Option (τ × Tree) :=
  visit F (traverseSlots F depth)

/-! ### Equations -/

variable {F walk} {q q₁ q₂ : τ} {T T' : Tree} {Ts us us' vs : List Tree} {label : Label}

theorem replaceEach_cons {f : τ → Tree → Option (τ × List Tree)} (h : f q T = some (q₁, us))
    (hs : replaceEach f q₁ Ts = some (q₂, vs)) :
    replaceEach f q (T :: Ts) = some (q₂, us ++ vs) := by
  rw [replaceEach, h]
  simp only [Option.bind_eq_bind, Option.bind_some, hs]
  rfl

theorem visit_of_stay (h : F q T = (q₁, T', false)) : visit F walk q T = some (q₁, T') := by
  rw [visit, h]

theorem visit_of_descend (h : F q T = (q₁, mk label us, true))
    (hs : walk q₁ us = some (q₂, us')) : visit F walk q T = some (q₂, mk label us') := by
  rw [visit, h]
  simp only [hs]
  rfl

theorem replaceItem_eq (h : walk q us = some (q₁, us')) :
    replaceItem walk q (mk label us) = some (q₁, [mk label us']) := by
  rw [replaceItem, h]
  rfl

theorem replaceStmt_eq {b : Id .stmt} (h : visit F walk q T = some (q₁, T'))
    (hu : T'.spliced b = some us) :
    replaceStmt F walk q (mk (.item .stmts b) [T]) = some (q₁, us) := by
  rw [replaceStmt, h]
  simp only [Option.bind_eq_bind, Option.bind_some, hu]
  rfl

theorem replaceSlot_node {k : Kind} {b : k.Body}
    (h : visit F walk q (mk (.node k b) us) = some (q₁, T')) (hk : T'.kind? = some k) :
    replaceSlot F walk q (mk (.node k b) us) = some (q₁, [T']) := by
  rw [replaceSlot, h]
  simp only [Option.bind_eq_bind, Option.bind_some, hk, if_true]
  rfl

theorem replaceSlot_stmts (h : replaceEach (replaceStmt F walk) q us = some (q₁, us')) :
    replaceSlot F walk q (mk (.list .stmts) us) = some (q₁, [mk (.list .stmts) us']) := by
  rw [replaceSlot, h]
  rfl

theorem replaceSlot_list {p : Pool} (hp : p ≠ .stmts)
    (h : replaceEach (replaceItem walk) q us = some (q₁, us')) :
    replaceSlot F walk q (mk (.list p) us) = some (q₁, [mk (.list p) us']) := by
  rw [replaceSlot, h]
  · rfl
  · simp
  · simpa using hp

/-! ### The bound -/

/-- Where `f` yields a result, `g` yields the same. -/
def Below {α β : Type} (f g : τ → α → Option β) : Prop :=
  ∀ q x r, f q x = some r → g q x = some r

theorem Below.replaceEach {f g : τ → Tree → Option (τ × List Tree)} (h : Below f g) :
    Below (replaceEach f) (replaceEach g) := by
  intro q Ts r hr
  induction Ts generalizing q r with
  | nil => exact hr
  | cons T Ts ih =>
    obtain ⟨⟨q₁, us⟩, hf, hr⟩ := Option.bind_eq_some_iff.mp hr
    obtain ⟨⟨q₂, vs⟩, hs, hr⟩ := Option.bind_eq_some_iff.mp hr
    cases hr
    exact replaceEach_cons (h q T _ hf) (ih q₁ _ hs)

variable {walk' : τ → List Tree → Option (τ × List Tree)}

theorem Below.visit (h : Below walk walk') : Below (visit F walk) (visit F walk') := by
  intro q T r hr
  rcases hF : F q T with ⟨q₁, ⟨label, us⟩, _ | _⟩
  · rw [visit_of_stay hF] at hr ⊢
    exact hr
  · rw [Tree.visit, hF] at hr
    obtain ⟨⟨q₂, us'⟩, hw, hr⟩ := Option.bind_eq_some_iff.mp hr
    cases hr
    exact visit_of_descend hF (h q₁ us _ hw)

private theorem Below.replaceItem (h : Below walk walk') :
    Below (replaceItem walk) (replaceItem walk') := by
  rintro q ⟨label, us⟩ r hr
  obtain ⟨⟨q₁, us'⟩, hw, hr⟩ := Option.bind_eq_some_iff.mp hr
  cases hr
  exact replaceItem_eq (h q us _ hw)

private theorem Below.replaceStmt (h : Below walk walk') :
    Below (replaceStmt F walk) (replaceStmt F walk') := by
  intro q T r hr
  unfold Tree.replaceStmt at hr
  split at hr
  · obtain ⟨⟨q₁, T'⟩, hv, hr⟩ := Option.bind_eq_some_iff.mp hr
    obtain ⟨us, hu, hr⟩ := Option.bind_eq_some_iff.mp hr
    cases hr
    exact replaceStmt_eq (h.visit q _ _ hv) hu
  · cases hr

private theorem Below.replaceSlot (h : Below walk walk') :
    Below (replaceSlot F walk) (replaceSlot F walk') := by
  intro q T r hr
  unfold Tree.replaceSlot at hr ⊢
  split at hr
  · obtain ⟨⟨q₁, T'⟩, hv, hr⟩ := Option.bind_eq_some_iff.mp hr
    exact Option.bind_eq_some_iff.mpr ⟨_, h.visit q _ _ hv, hr⟩
  · obtain ⟨⟨q₁, us'⟩, hw, hr⟩ := Option.bind_eq_some_iff.mp hr
    exact Option.bind_eq_some_iff.mpr ⟨_, h.replaceStmt.replaceEach q _ _ hw, hr⟩
  · obtain ⟨⟨q₁, us'⟩, hw, hr⟩ := Option.bind_eq_some_iff.mp hr
    exact Option.bind_eq_some_iff.mpr ⟨_, h.replaceItem.replaceEach q _ _ hw, hr⟩

theorem below_traverseSlots {d e : Nat} (h : d ≤ e) :
    Below (traverseSlots F d) (traverseSlots F e) := by
  induction d generalizing e with
  | zero =>
    intro q Ts r hr
    cases hr
  | succ d ih =>
    obtain ⟨e, rfl⟩ : ∃ e', e = e' + 1 := ⟨e - 1, by omega⟩
    exact (ih (Nat.le_of_succ_le_succ h)).replaceSlot.replaceEach

/-- A larger bound gives the same result. -/
theorem traverse_mono {d e : Nat} (h : d ≤ e) {r : τ × Tree} (hr : traverse F d q T = some r) :
    traverse F e q T = some r :=
  (below_traverseSlots h).visit q T r hr

end Traverse

end Tree

end GoTree
