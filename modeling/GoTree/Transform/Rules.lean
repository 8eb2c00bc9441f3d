import GoTree.Transform.Split
import GoTree.Transform.Walk

/-!
# Transformers given by rules

A list of `Rule`s makes a transformer. At each node the first rule whose condition holds is taken:
its effects are carried out in order, then its reply gives the answer. Where no rule applies, the
node is kept.
-/

namespace GoTree

/-! ### Productions and symbols -/

/-- The name of the production an expression was built by. -/
def Expr.production : Expr → String
  | .ident _ => "Ident"
  | .basicLit _ => "BasicLit"
  | .funcLit .. => "FuncLit"
  | .compositeLit .. => "CompositeLit"
  | .index .. => "IndexOrInstantiate"
  | .paren _ => "Paren"
  | .selector .. => "Selector"
  | .slice .. => "Slice"
  | .typeAssert .. => "TypeAssert"
  | .call .. => "Call"
  | .unary .. => "Unary"
  | .binary .. => "Binary"
  | .methodExpr .. => "MethodExpr"
  | .bad => "Bad"

/-- The name of the production a type was built by. -/
def TypeExpr.production : TypeExpr → String
  | .named .. => "Named"
  | .pointer _ => "Pointer"
  | .array .. => "Array"
  | .slice _ => "Slice"
  | .map .. => "Map"
  | .chan .. => "Chan"
  | .struct _ => "Struct"
  | .interface _ => "Interface"
  | .func _ => "Func"
  | .paren _ => "Paren"
  | .bad => "Bad"

/-- The name of the production a statement was built by. -/
def Stmt.production : Stmt → String
  | .simple _ => "Simple"
  | .decl _ => "Decl"
  | .labeled .. => "Labeled"
  | .goStmt _ => "Go"
  | .deferStmt _ => "Defer"
  | .returnStmt _ => "Return"
  | .branch _ => "Branch"
  | .block _ => "Block"
  | .ifStmt .. => "If"
  | .forStmt .. => "For"
  | .switchStmt .. => "Switch"
  | .typeSwitch .. => "TypeSwitch"
  | .select _ => "Select"
  | .bad => "Bad"

/-- The name of the production a simple statement was built by. -/
def SimpleStmt.production : SimpleStmt → String
  | .empty => "Empty"
  | .expr _ => "Expr"
  | .send .. => "Send"
  | .incDec .. => "IncDec"
  | .assign .. => "Assign"
  | .shortVarDecl .. => "ShortVarDecl"

/-- The name of the production a declaration was built by. -/
def Decl.production : Decl → String
  | .gen _ => "Gen"
  | .bad => "Bad"

/-- The name of the production a clause was built by. -/
def SwitchClause.production : SwitchClause → String
  | .exprCase .. => "ExprCase"
  | .typeCase .. => "TypeCase"

/-- The name of the production a specification was built by. -/
def Spec.production : Spec → String
  | .importSpec _ => "Import"
  | .valueSpec _ => "Value"
  | .typeSpec _ => "Type"

namespace Node

/-- The name of the production of a node, for the kinds that have several productions. An id that
is not allocated has none. -/
def production? (s : Store) : Node → Option String
  | ⟨.stored .expr, id⟩ => (s.get? id).map Expr.production
  | ⟨.stored .type, id⟩ => (s.get? id).map TypeExpr.production
  | ⟨.stored .stmt, id⟩ => (s.get? id).map Stmt.production
  | ⟨.stored .simpleStmt, id⟩ => (s.get? id).map SimpleStmt.production
  | ⟨.stored .decl, id⟩ => (s.get? id).map Decl.production
  | ⟨.stored .switchClause, id⟩ => (s.get? id).map SwitchClause.production
  | ⟨.spec, spec⟩ => some spec.production
  | _ => none

/-- The symbol that a leaf holds: an identifier, a literal or a comment, be it a node of its own or
an expression. -/
def symbol? (s : Store) : Node → Option Symbol
  | ⟨.ident, name⟩ => some name.sym
  | ⟨.basicLit, lit⟩ => some lit.value
  | ⟨.stored .comment, id⟩ => (s.get? id).map Comment.text
  | ⟨.stored .expr, id⟩ =>
    match s.get? id with
    | some (Expr.ident name) => some name.sym
    | some (Expr.basicLit lit) => some lit.value
    | _ => none
  | _ => none

end Node

/-! ### Rules -/

/-- When a rule applies. A test that is absent always holds. -/
structure Condition where
  /-- The name of the kind of the node. -/
  kind : Option String := none
  /-- The node itself. -/
  node : Option Node := none
  /-- The number of nodes seen before. -/
  visit : Option Nat := none
  /-- How often the rule may be taken. -/
  limit : Option Nat := none
  /-- The production of the node. -/
  production : Option String := none
  /-- The symbol of a leaf. -/
  symbol : Option Symbol := none

/-- Whether a condition holds at a node, after `visits` nodes, for a rule taken `taken` times. -/
def Condition.holds (c : Condition) (s : Store) (visits taken : Nat) (node : Node) : Bool :=
  c.kind.all (· == node.kind.name)
    && c.node.all (· == node)
    && c.visit.all (· == visits)
    && c.limit.all (taken < ·)
    && c.production.all (some · == node.production? s)
    && c.symbol.all (some · == node.symbol? s)

/-- What a rule answers with. -/
inductive Reply where
  /-- The node itself. -/
  | keep
  /-- Another node. -/
  | replace (node : Node)
  /-- An expanded block of these statements. -/
  | expand (stmts : Array (Id .stmt))
  /-- What `splitDecl` makes of the node. -/
  | split

/-- A rule of a transformer. -/
structure Rule where
  condition : Condition
  effects : List (StoreM Unit) := []
  reply : Reply := .keep
  /-- Whether to traverse the children of the answer; if absent, the reply decides. -/
  descend : Option Bool := none

/-- The node a reply stands for, and whether to traverse its children unless the rule says. -/
def Reply.answer (node : Node) : Reply → StoreM (Node × Bool)
  | keep => return (node, true)
  | replace other => return (other, true)
  | expand stmts => return (← Node.expand stmts, true)
  | split => splitDecl node

/-- The answer of a rule at a node. -/
def Rule.answer (r : Rule) (node : Node) : StoreM (Node × Bool) := do
  r.effects.forM id
  let (result, descend) ← r.reply.answer node
  return (result, r.descend.getD descend)

/-- Rules, with what else a transformer made of them does. -/
structure RuleSet where
  rules : List Rule := []
  /-- Whether to traverse the children of a node to which no rule applies. -/
  descend : Bool := true
  /-- A description of each node, noted when the node is seen. -/
  describe : Option (Store → Node → Except Fault String) := none

/-- The state of a transformer made of rules. -/
structure RuleState where
  /-- How many nodes have been seen. -/
  visits : Nat := 0
  /-- For each rule how often it has been taken. -/
  taken : List Nat := []
  /-- The descriptions noted so far. -/
  notes : Array String := #[]

namespace RuleSet

/-- The state before the first node. -/
def initial (rs : RuleSet) : RuleState :=
  { taken := rs.rules.map fun _ => 0 }

/-- The first rule that applies, with its position. -/
def choose (rs : RuleSet) (s : Store) (state : RuleState) (node : Node) : Option (Rule × Nat) :=
  rs.rules.zipIdx.find? fun (r, i) =>
    r.condition.holds s state.visits (state.taken.getD i 0) node

/-- Notes the description of a node. -/
def note (rs : RuleSet) (node : Node) : TransformM RuleState Unit := do
  match rs.describe with
  | none => return
  | some describe =>
    let text ← TransformM.onStore (StoreM.read (describe · node))
    modify fun ⟨store, state⟩ => ⟨store, { state with notes := state.notes.push text }⟩

/-- Answers a node by the first rule that applies. -/
def replace (rs : RuleSet) (node : Node) : TransformM RuleState (Node × Bool) := do
  rs.note node
  let ⟨store, state⟩ ← get
  match rs.choose store state node with
  | none =>
    set (Context.mk store { state with visits := state.visits + 1 })
    return (node, rs.descend)
  | some (rule, i) =>
    let taken := state.taken.modify i (· + 1)
    set (Context.mk store { state with visits := state.visits + 1, taken })
    TransformM.onStore (rule.answer node)

/-- The transformer of a set of rules. -/
def transformer (rs : RuleSet) : Transformer RuleState where
  replace := rs.replace

end RuleSet

end GoTree
