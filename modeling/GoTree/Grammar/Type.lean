import GoTree.Grammar.Leaf
import GoTree.Grammar.Operator

/-!
# Types, fields and signatures

`TypeExpr` is the syntax of types. Fields and signatures belong here as well: struct types hold
fields, and function types and the methods of interfaces hold signatures.
-/

namespace GoTree

/-- Parameters, results, a receiver or the fields of a struct. -/
structure FieldList where
  fields : Segment .fields := .empty
  deriving DecidableEq

/-- One entry of a field list: `names ...T`, with a tag in struct types. An entry without names is
an unnamed parameter or an embedded field. -/
structure Field where
  doc : Option (Id .commentGroup)
  names : Segment .identNames
  variadic : Bool
  typ : Id .type
  tag : Option BasicLit
  comment : Option (Id .commentGroup)
  deriving DecidableEq

/-- The results of a signature. -/
inductive Results where
  /-- Results in parentheses. -/
  | params (list : FieldList)
  /-- One unnamed result. -/
  | type (typ : Id .type)
  deriving DecidableEq

/-- Parameters and results of a function. -/
structure Signature where
  params : FieldList
  results : Option Results
  deriving DecidableEq

/-- The length of an array type. -/
inductive ArrayLen where
  | expr (x : Id .expr)
  /-- The length is that of the literal: `[...]T`. -/
  | ellipsis
  deriving DecidableEq

/-- A type, or with `tilde` all types with that underlying type. -/
inductive TypeTerm where
  | tilde (typ : Id .type)
  | type (typ : Id .type)
  deriving DecidableEq

/-- A union of type terms. -/
structure TypeElem where
  terms : Segment .typeTerms
  deriving DecidableEq

/-- A member of an interface type. -/
inductive InterfaceElem where
  | method (name : IdentName) (sig : Id .signature)
  | typeElem (elem : TypeElem)
  deriving DecidableEq

/-- The syntax of types. -/
inductive TypeExpr where
  | named (pkg : Option IdentName) (name : IdentName) (args : Segment .types)
  | pointer (elem : Id .type)
  | array (len : ArrayLen) (elem : Id .type)
  | slice (elem : Id .type)
  | map (key val : Id .type)
  | chan (dir : ChanDir) (elem : Id .type)
  | struct (fields : FieldList)
  | interface (elems : Segment .interfaceElems)
  | func (sig : Id .signature)
  | paren (typ : Id .type)
  | bad
  deriving DecidableEq

/-- What a type parameter ranges over. -/
inductive TypeConstraint where
  | any
  | typeElem (elem : TypeElem)
  | interface (typ : Id .type)
  deriving DecidableEq

/-- A group of type parameters with one constraint. -/
structure TypeParamDecl where
  names : Segment .identNames
  constraint : TypeConstraint
  deriving DecidableEq

/-- The type parameters of a declaration. -/
structure TypeParams where
  params : Segment .typeParamDecls
  deriving DecidableEq

end GoTree
