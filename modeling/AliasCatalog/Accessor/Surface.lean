import AliasCatalog.Accessor.TypeName
import AliasCatalog.Accessor.Value
import AliasCatalog.Namespace.Fingerprint

/-!
# The accessor surface of a tree

Every group of a namespace tree is an accessor type, every declaration a value.  A surface is a tree
together with the names of its accessor types, which are given out in the order of the tree.
-/

namespace AliasCatalog.Accessor

open Naming Namespace

/-- The name of the self accessor of an ambiguous group. -/
def providerMethod : String := "asProvider"

/-- The name of a group's type before it is made unique: its capitalised identifiers and the
suffix of its kind. -/
def typeBase (kind : Kind) (node : Node) : String :=
  String.join (node.identifiers.map (·.capitalized)) ++ typeSuffix kind

/-- A node that is an accessor type: the root, or a node with children. -/
def isGroup (node : Node) : Bool :=
  node.isRoot || !node.children.isEmpty

/-- Gives type names to the groups among `nodes`, the root's being `rootType`; `taken` are the
folded names given before. -/
def nameGroups (kind : Kind) (rootType : String) (taken : List String) :
    List Node → List (List Segment × String)
  | [] => []
  | node :: rest =>
    if isGroup node then
      let base := if node.isRoot then rootType else typeBase kind node
      let (name, taken) := claimTypeName base taken
      (node.path, name) :: nameGroups kind rootType taken rest
    else nameGroups kind rootType taken rest

/-- A namespace tree with the names of its accessor types. -/
structure Surface where
  tree : Tree
  /-- The groups by path, each before the groups in it. -/
  typeNames : List (List Segment × String)
  deriving DecidableEq, Repr

namespace Surface

/-- The surface of a tree; `rootType` names the type of the root. -/
def ofTree (tree : Tree) (rootType : String) : Surface :=
  ⟨tree, nameGroups tree.kind rootType [] tree.nodes⟩

def kind (surface : Surface) : Kind :=
  surface.tree.kind

def typeName? (surface : Surface) (path : List Segment) : Option String :=
  surface.typeNames.lookup path

end Surface

/-- A declaration's value as one object of a surface.  The object is the node's: two values of
different nodes are different objects even when their contents are equal. -/
structure Provider where
  kind : Kind
  path : List Segment
  value : Value
  deriving DecidableEq, Repr

namespace Provider

/-- Are two providers one object? -/
def same (a b : Provider) : Bool :=
  a.kind == b.kind && a.path == b.path

/-- The value a node declares. -/
def ofNode? (node : Node) : Option Provider :=
  node.leaf.map fun declaration =>
    ⟨declaration.kind, node.path, adapt declaration.name declaration.payload⟩

end Provider

def describeNode? (node : Node) : Option String :=
  node.leaf.map fun declaration => describe declaration.name declaration.payload

/-- Why a lookup gives nothing. -/
inductive LookupError where
  /-- A segment has no match below the part of the name that has one. -/
  | notFound (kind : Kind) (segment resolved : String)
  /-- The name leads to a group without a declaration. -/
  | notADeclaration (kind : Kind) (path : String)
  /-- The name leads to a declaration without a group. -/
  | notAGroup (kind : Kind) (path : String)
  deriving DecidableEq, Repr

def LookupError.message : LookupError → String
  | notFound kind segment resolved =>
    let place := if resolved.isEmpty then "<root>" else s!"'{resolved}'"
    s!"No {kind.name} accessor for segment '{segment}' under {place}"
  | notADeclaration kind path => s!"'{path}' is a {kind.name} group, not a declaration"
  | notAGroup kind path => s!"'{path}' is a {kind.name} declaration, not a group"

/-- Resolves a dotted alias straight against the tree.  An ambiguous node resolves to its own
declaration; a malformed name misses at its first segment without a match. -/
def Surface.resolve (surface : Surface) (dotted : String) : Except LookupError Provider :=
  match surface.tree.find dotted with
  | .error missing => .error (.notFound surface.kind missing.segment missing.resolved)
  | .ok node =>
    match Provider.ofNode? node with
    | some provider => .ok provider
    | none => .error (.notADeclaration surface.kind dotted)

end AliasCatalog.Accessor
