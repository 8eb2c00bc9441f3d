import GoTree.Grammar.Stmt

/-!
# Declarations, files and packages
-/

namespace GoTree

/-- One imported package. -/
structure ImportSpec where
  doc : Option (Id .commentGroup)
  name : Option IdentName
  path : BasicLit
  comment : Option (Id .commentGroup)
  deriving DecidableEq

/-- Constants or variables declared together. -/
structure ValueSpec where
  doc : Option (Id .commentGroup)
  names : Segment .identNames
  typ : Option (Id .type)
  values : Segment .exprs
  comment : Option (Id .commentGroup)
  deriving DecidableEq

/-- A defined type, or with `isAlias` another name for a type. -/
structure TypeSpec where
  doc : Option (Id .commentGroup)
  name : IdentName
  typeParams : Option (Id .typeParams)
  isAlias : Bool
  typ : Id .type
  comment : Option (Id .commentGroup)
  deriving DecidableEq

/-- One entry of a declaration. -/
inductive Spec where
  | importSpec (spec : ImportSpec)
  | valueSpec (spec : ValueSpec)
  | typeSpec (spec : TypeSpec)
  deriving DecidableEq

/-- What a declaration declares. -/
inductive DeclKind where
  | imports
  | consts
  | types
  | vars
  deriving DecidableEq

/-- The keyword of a declaration. -/
def DeclKind.text : DeclKind → String
  | .imports => "import"
  | .consts => "const"
  | .types => "type"
  | .vars => "var"

/-- A declaration of imports, constants, types or variables; `grouped` is the form in
parentheses. -/
structure GenDecl where
  doc : Option (Id .commentGroup)
  kind : DeclKind
  grouped : Bool
  specs : Segment .specs
  deriving DecidableEq

/-- A declaration other than a function. -/
inductive Decl where
  | gen (decl : GenDecl)
  | bad
  deriving DecidableEq

/-- A function, or with a receiver a method. -/
structure FuncDecl where
  doc : Option (Id .commentGroup)
  recv : Option FieldList
  name : IdentName
  typeParams : Option (Id .typeParams)
  signature : Id .signature
  body : Option Block
  deriving DecidableEq

/-- A declaration at the top of a file. -/
inductive TopLevelDecl where
  | decl (d : Id .decl)
  | func (f : Id .func)
  deriving DecidableEq

/-- A source file. `comments` lists every comment group of the file; the groups are part of the
tree through the nodes they document. -/
structure SourceFile where
  doc : Option (Id .commentGroup)
  name : IdentName
  decls : Segment .topDecls
  comments : Segment .commentGroups
  deriving DecidableEq

/-- The files of a package. -/
structure Package where
  name : Symbol
  files : Segment .files
  deriving DecidableEq

end GoTree
