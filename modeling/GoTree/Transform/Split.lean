import GoTree.Node

/-!
# Splitting declarations

`splitDecl` answers a short variable declaration of several names, `a, b := x, y`, with one
declaration for each name, `a := x` and `b := y`, as an expanded block. It applies where names and
values are equally many. Nothing below a simple statement is traversed.
-/

namespace GoTree

/-- The declaration of one name with its value, as a new statement. -/
def singleDecl (pair : IdentName × Id .expr) : StoreM (Id .stmt) := do
  let names ← StoreM.list .identNames #[pair.1]
  let values ← StoreM.list .exprs #[pair.2]
  let simple ← StoreM.alloc .simpleStmt (.shortVarDecl names values)
  StoreM.alloc .stmt (.simple simple)

/-- The declarations of single names that a declaration of several is split into. -/
def splitPairs (names : Segment .identNames) (values : Segment .exprs) : StoreM Node := do
  let names ← StoreM.items names
  let values ← StoreM.items values
  let singles ← (names.toList.zip values.toList).mapM singleDecl
  Node.expand singles.toArray

/-- The answer to a node: the split declaration, or the node itself. -/
def splitDecl (node : Node) : StoreM (Node × Bool) := do
  match node.stmt? with
  | none => return (node, true)
  | some id =>
    match (← StoreM.load id : Stmt) with
    | .simple simple =>
      match (← StoreM.load simple : SimpleStmt) with
      | .shortVarDecl names values =>
        if names.length < 2 || names.length != values.length then return (node, false)
        else return (← splitPairs names values, false)
      | _ => return (node, false)
    | _ => return (node, true)

end GoTree
