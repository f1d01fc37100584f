import AliasCatalog.Accessor.Surface

/-!
# Views and accessors

A view is a group of a surface.  From the root's view one navigates by names, one segment at a time:
`get` asks for a child as it is, `group` for a child as a group, `value` for a child as a
declaration.  An ambiguous child answers both.
-/

namespace AliasCatalog.Accessor

open Naming Namespace

/-- A group node of a surface. -/
structure View where
  surface : Surface
  node : Node
  deriving DecidableEq, Repr

/-- Are two views one group of one kind? -/
def View.same (a b : View) : Bool :=
  a.surface.kind == b.surface.kind && a.node.path == b.node.path

/-- What the accessor of a child yields. -/
inductive Child where
  | leaf (provider : Provider)
  | group (view : View)
  | ambiguous (provider : Provider) (view : View)
  deriving DecidableEq, Repr

namespace Child

/-- The declaration, for leaves and ambiguous nodes. -/
def provider? : Child → Option Provider
  | leaf provider => some provider
  | ambiguous provider _ => some provider
  | group _ => none

/-- The nested group, for groups and ambiguous nodes. -/
def view? : Child → Option View
  | group view => some view
  | ambiguous _ view => some view
  | leaf _ => none

def shape : Child → Shape
  | leaf _ => .leaf
  | group _ => .group
  | ambiguous _ _ => .ambiguous

/-- Do two accessors yield the same objects? -/
def same : Child → Child → Bool
  | leaf a, leaf b => a.same b
  | group a, group b => a.same b
  | ambiguous a v, ambiguous b w => a.same b && v.same w
  | _, _ => false

def ofNode (surface : Surface) (node : Node) : Child :=
  match Provider.ofNode? node with
  | none => .group ⟨surface, node⟩
  | some provider =>
    if node.children.isEmpty then .leaf provider else .ambiguous provider ⟨surface, node⟩

end Child

def Surface.root (surface : Surface) : View :=
  ⟨surface, surface.tree.root⟩

/-- One child of a view. -/
structure Member where
  identifier : Identifier
  /-- The dotted name of the child. -/
  name : String
  /-- The description of the child's declaration, if it has one. -/
  description : Option String
  child : Child
  deriving DecidableEq, Repr

def Member.method (member : Member) : String :=
  member.identifier.method

namespace View

def kind (view : View) : Kind :=
  view.surface.kind

/-- The dotted path of the group; empty at the root. -/
def path (view : View) : String :=
  view.node.name

def isRoot (view : View) : Bool :=
  view.node.isRoot

def typeName (view : View) : String :=
  (view.surface.typeName? view.node.path).getD ""

/-- The group's own declaration, when it is ambiguous. -/
def provider? (view : View) : Option Provider :=
  Provider.ofNode? view.node

/-- The description of the group's own declaration, when it is ambiguous. -/
def providerDescription? (view : View) : Option String :=
  describeNode? view.node

def size (view : View) : Nat :=
  view.node.members.length

/-- The accessor of a child, by identifier or raw segment. -/
def get? (view : View) (name : String) : Option Child :=
  (view.node.child? name).map (Child.ofNode view.surface)

/-- The path of a child, with its name as typed. -/
def childPath (view : View) (name : String) : String :=
  if view.isRoot then name else view.path ++ "." ++ name

/-- A child as a group. -/
def group (view : View) (name : String) : Except LookupError View :=
  match view.get? name with
  | none => .error (.notFound view.kind name view.path)
  | some child =>
    match child.view? with
    | some nested => .ok nested
    | none => .error (.notAGroup view.kind (view.childPath name))

/-- A child as a declaration. -/
def value (view : View) (name : String) : Except LookupError Provider :=
  match view.get? name with
  | none => .error (.notFound view.kind name view.path)
  | some child =>
    match child.provider? with
    | some provider => .ok provider
    | none => .error (.notADeclaration view.kind (view.childPath name))

/-- The children in the order of their keys. -/
def members (view : View) : List Member :=
  view.node.members.filterMap fun node =>
    node.identifier?.map fun identifier =>
      ⟨identifier, node.name, describeNode? node, Child.ofNode view.surface node⟩

end View

end AliasCatalog.Accessor
