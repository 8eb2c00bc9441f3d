import GoTree.Builder

/-!
# The template

The tree that a profiling run traverses: a block in which declarations of two names alternate with
calls.
-/

namespace GoTree.Profile

/-- Statement `i` of the template: `a, b := 0, 1` where `i` is even, else `f(x)`. -/
def templateStmt (i : Nat) : BuildM (Id .stmt) :=
  if i % 2 = 0 then do
    let zero ← BuildM.int "0"
    let one ← BuildM.int "1"
    BuildM.shortVarDecl ["a", "b"] [zero, one]
  else do
    let f ← BuildM.name "f"
    let x ← BuildM.name "x"
    BuildM.exprStmt (← BuildM.call f [x])

/-- Adds `n` statements of the template, from statement `i` on. -/
def templateStmts : (n i : Nat) → Array (Id .stmt) → BuildM (Array (Id .stmt))
  | 0, _, stmts => pure stmts
  | n + 1, i, stmts => do
      let stmt ← templateStmt i
      templateStmts n (i + 1) (stmts.push stmt)

/-- The template with `items` statements. -/
def template (items : Nat) : BuildM Node := do
  let stmts ← templateStmts items 0 #[]
  return .block ⟨← BuildM.onStore (StoreM.list .stmts stmts)⟩

end GoTree.Profile
