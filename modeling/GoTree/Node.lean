import GoTree.Store.Action

/-!
# Nodes

A `Node` is what a traversal shows to its caller: a `Kind` together with a value of that kind.
Nodes of a **stored** kind are ids; the small kinds (field lists, identifiers, literals, blocks,
specifications, packages) are values that live inside the node that holds them.

An **expanded block** is never part of a tree. It is an answer: the statements that are to stand in
the place of one statement.
-/

namespace GoTree

/-- The kinds of nodes. -/
inductive Kind where
  /-- A node in the table of a category. -/
  | stored (c : Category)
  | fieldList
  | ident
  | basicLit
  | block
  | expandedBlock
  | spec
  | package
  deriving DecidableEq

namespace Kind

/-- The values of a kind. -/
abbrev Value : Kind → Type
  | stored c => Id c
  | fieldList => FieldList
  | ident => IdentName
  | basicLit => BasicLit
  | block => Block
  | expandedBlock => Block
  | spec => Spec
  | package => Package

instance : (k : Kind) → DecidableEq k.Value
  | stored c => inferInstanceAs (DecidableEq (Id c))
  | fieldList => inferInstanceAs (DecidableEq FieldList)
  | ident => inferInstanceAs (DecidableEq IdentName)
  | basicLit => inferInstanceAs (DecidableEq BasicLit)
  | block => inferInstanceAs (DecidableEq Block)
  | expandedBlock => inferInstanceAs (DecidableEq Block)
  | spec => inferInstanceAs (DecidableEq Spec)
  | package => inferInstanceAs (DecidableEq Package)

end Kind

/-- The name of a category in reports. -/
def Category.name : Category → String
  | .decl => "declaration"
  | .stmt => "statement"
  | .simpleStmt => "simple statement"
  | .expr => "expression"
  | .type => "type"
  | .signature => "signature"
  | .func => "function declaration"
  | .field => "field"
  | .switchClause => "switch clause"
  | .commClause => "comm clause"
  | .typeParams => "type parameter list"
  | .typeParamDecl => "type parameter declaration"
  | .comment => "comment"
  | .commentGroup => "comment group"
  | .file => "file"

/-- The name of a kind in reports. -/
def Kind.name : Kind → String
  | .stored c => c.name
  | .fieldList => "field list"
  | .ident => "identifier"
  | .basicLit => "basic literal"
  | .block => "block"
  | .expandedBlock => "expanded block"
  | .spec => "spec"
  | .package => "package"

/-- A kind and a value of it. -/
structure Node where
  kind : Kind
  value : kind.Value

namespace Node

/-- The node of an id. -/
@[match_pattern]
abbrev stored {c : Category} (id : Id c) : Node :=
  ⟨.stored c, id⟩

/-- A block as a node. -/
@[match_pattern]
abbrev block (b : Block) : Node :=
  ⟨.block, b⟩

/-- The statements of a block, to stand in the place of one statement. -/
@[match_pattern]
abbrev expandedBlock (b : Block) : Node :=
  ⟨.expandedBlock, b⟩

/-- An identifier as a node. -/
@[match_pattern]
abbrev ident (name : IdentName) : Node :=
  ⟨.ident, name⟩

instance : DecidableEq Node := fun ⟨k, v⟩ ⟨l, w⟩ =>
  if hk : k = l then
    if hv : hk ▸ v = w then isTrue (by subst hk; subst hv; rfl)
    else isFalse (by intro h; cases h; exact hv rfl)
  else isFalse (by intro h; cases h; exact hk rfl)

/-- The value of a node, if the node is of kind `k`. -/
def as? (n : Node) (k : Kind) : Option k.Value :=
  if h : n.kind = k then some (h ▸ n.value) else none

/-- Whether a node is an expanded block. -/
def isExpandedBlock (n : Node) : Bool :=
  n.kind == .expandedBlock

/-- The id of an expression. -/
def expr? (n : Node) : Option (Id .expr) :=
  n.as? (.stored .expr)

/-- The id of a statement. -/
def stmt? (n : Node) : Option (Id .stmt) :=
  n.as? (.stored .stmt)

/-- The id of a simple statement. -/
def simpleStmt? (n : Node) : Option (Id .simpleStmt) :=
  n.as? (.stored .simpleStmt)

/-- The identifier of an identifier node. -/
def ident? (n : Node) : Option IdentName :=
  n.as? .ident

@[simp]
theorem as?_mk (k : Kind) (v : k.Value) : as? ⟨k, v⟩ k = some v := by
  simp [as?]

/-- A node of kind `k` is that kind with its value. -/
theorem as?_eq_some_iff {n : Node} {k : Kind} {v : k.Value} : n.as? k = some v ↔ n = ⟨k, v⟩ := by
  obtain ⟨l, w⟩ := n
  constructor
  · intro h
    unfold as? at h
    split at h
    · next hk =>
      cases hk
      cases h
      rfl
    · cases h
  · intro h
    cases h
    exact as?_mk k v

/-- A node has a value of kind `k` exactly when that is its kind. -/
theorem as?_eq_none_iff {n : Node} {k : Kind} : n.as? k = none ↔ n.kind ≠ k := by
  simp [as?]

/-- Pushes a list of statements and makes the expanded block of it. -/
def expand (stmts : Array (Id .stmt)) : StoreM Node := do
  return expandedBlock ⟨← StoreM.list .stmts stmts⟩

end Node

end GoTree
