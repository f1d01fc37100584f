import AliasCatalog.Declaration
import AliasCatalog.Forest
import AliasCatalog.Naming.Allocator

/-!
# Namespace trees

The aliases of one kind form a tree with one node for each segment.  A node may hold a declaration
and have children at the same time (`androidx.ui` beside `androidx.ui.graphics`); it is then
ambiguous and kept as such.  Only two declarations on one node are an error.

A tree is made in three passes, so that it does not depend on the order of the declarations: every
name is validated, every path is inserted, and then the identifiers of each set of siblings are
allocated in text order.  Sets of siblings are visited from the root down, a node's later siblings
before the node's own children.
-/

namespace AliasCatalog.Namespace

open Naming

/-- One segment of the tree, with the declaration that ends there. -/
structure Entry where
  segment : Segment
  leaf : Option Declaration
  deriving DecidableEq, Repr

/-- The form under which an entry is looked up among its siblings. -/
def Entry.key (entry : Entry) : String :=
  entry.segment.key

/-- The text of a path of segments; empty for the root. -/
def pathText (path : List Segment) : String :=
  joinDots (path.map (·.text))

/-! ## Insertion, siblings in text order -/

/-- The path that leads to a new declaration, placed before `siblings`. -/
def branch (declaration : Declaration) : Segment → List Segment → Forest Entry → Forest Entry
  | segment, [], siblings => .cons ⟨segment, some declaration⟩ .nil siblings
  | segment, next :: rest, siblings =>
    .cons ⟨segment, none⟩ (branch declaration next rest .nil) siblings

/-- The forest with a declaration added at the end of a path; `none` when the node at the end holds
a declaration already. -/
def insert (declaration : Declaration) (segment : Segment) (rest : List Segment) :
    Forest Entry → Option (Forest Entry)
  | .nil => some (branch declaration segment rest .nil)
  | .cons entry children siblings =>
    if segment = entry.segment then
      match rest with
      | [] =>
        if entry.leaf.isSome then none
        else some (.cons { entry with leaf := some declaration } children siblings)
      | next :: more =>
        (insert declaration next more children).map fun grown => .cons entry grown siblings
    else if segment.text < entry.segment.text then
      some (branch declaration segment rest (.cons entry children siblings))
    else
      (insert declaration segment rest siblings).map fun grown => .cons entry children grown

/-! ## Allocation -/

/-- Allocates the identifiers of one set of siblings, in the order of the forest. -/
def checkSiblings (kind : Kind) (parent : List Segment) (siblings : Forest Entry) :
    Except NamingError Unit := do
  let segments := siblings.roots.map (·.segment.text)
  let _ ← (Allocator.start kind (pathText parent)).allocateAll segments
  return ()

/-- Allocates the identifiers of every set of siblings below the given ones, later siblings
first. -/
def checkBelow (kind : Kind) (parent : List Segment) : Forest Entry → Except NamingError Unit
  | .nil => .ok ()
  | .cons entry children siblings => do
    checkBelow kind parent siblings
    checkSiblings kind (parent ++ [entry.segment]) children
    checkBelow kind (parent ++ [entry.segment]) children

/-- Places a tree before the first sibling whose key is not smaller. -/
def placeByKey (entry : Entry) (children : Forest Entry) : Forest Entry → Forest Entry
  | .nil => .cons entry children .nil
  | .cons other below beside =>
    if entry.key ≤ other.key then .cons entry children (.cons other below beside)
    else .cons other below (placeByKey entry children beside)

/-- The same trees with all siblings in the order of their keys. -/
def sortByKey : Forest Entry → Forest Entry
  | .nil => .nil
  | .cons entry children siblings =>
    placeByKey entry (sortByKey children) (sortByKey siblings)

/-! ## The tree -/

/-- The namespace of one kind: siblings stand in the order of their keys. -/
structure Tree where
  kind : Kind
  forest : Forest Entry
  deriving DecidableEq, Repr

namespace Tree

/-- Reads the name of a declaration that has to be of the given kind. -/
def validate (kind : Kind) (declaration : Declaration) : Except NamingError DottedName :=
  if declaration.kind = kind then
    (DottedName.parse declaration.name).mapError fun defect =>
      .invalidName kind declaration.name (.malformed defect)
  else .error (.invalidName kind declaration.name (.declaredAs declaration.kind))

/-- Of a declaration of the kind the alias is read. -/
theorem validate_of_kind {kind : Kind} {declaration : Declaration} (same : declaration.kind = kind) :
    validate kind declaration = DottedName.parseAlias kind declaration.name :=
  if_pos same

/-- Adds one declaration under its validated name. -/
def insertNamed (kind : Kind) (forest : Forest Entry) (named : DottedName × Declaration) :
    Except NamingError (Forest Entry) :=
  match insert named.2 named.1.first named.1.rest forest with
  | some grown => .ok grown
  | none => .error (.duplicateAlias kind named.1.text)

/-- Builds the tree of declarations that all have to be of the given kind. -/
def ofDeclarations (kind : Kind) (declarations : List Declaration) : Except NamingError Tree := do
  let named ← declarations.mapM fun declaration => do
    let name ← validate kind declaration
    return (name, declaration)
  let forest ← named.foldlM (insertNamed kind) .nil
  checkSiblings kind [] forest
  checkBelow kind [] forest
  return ⟨kind, sortByKey forest⟩

/-- Builds the tree of one kind from all the declarations of a catalog. -/
def build (kind : Kind) (declarations : List Declaration) : Except NamingError Tree :=
  ofDeclarations kind (ofKind kind declarations)

end Tree

end AliasCatalog.Namespace
