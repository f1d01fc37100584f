import AliasCatalog.Namespace.Tree

/-!
# Nodes and lookup

A node of a namespace tree is known by its path of segments.  It carries what stands at that path:
the declaration, if there is one, and the forest below.

A child is found by any spelling that has the child's key, so `activity-compose`,
`activityCompose` and `ACTIVITY_COMPOSE` all find the same node.
-/

namespace AliasCatalog.Namespace

open Naming

/-- How a node surfaces through accessors. -/
inductive Shape where
  /-- No declaration. -/
  | group
  /-- A declaration and no children. -/
  | leaf
  /-- A declaration and children. -/
  | ambiguous
  deriving DecidableEq, Repr

def Shape.name : Shape → String
  | group => "group"
  | leaf => "leaf"
  | ambiguous => "ambiguous"

/-- A place in a namespace tree. -/
structure Node where
  /-- The segments from the root down to the node; none at the root. -/
  path : List Segment
  leaf : Option Declaration
  children : Forest Entry
  deriving DecidableEq, Repr

/-- A segment that found no child, with the part of the name before it as typed. -/
structure MissingSegment where
  segment : String
  resolved : String
  deriving DecidableEq, Repr

namespace Node

/-- The dotted name of a node; empty at the root. -/
def name (node : Node) : String :=
  pathText node.path

/-- The identifiers from the root down to the node. -/
def identifiers (node : Node) : List Identifier :=
  node.path.map (·.identifier)

/-- The node's own identifier; the root has none. -/
def identifier? (node : Node) : Option Identifier :=
  node.identifiers.getLast?

def isRoot (node : Node) : Bool :=
  node.path.isEmpty

/-- The shape of a node is decided by its declaration and its children. -/
def shape (node : Node) : Shape :=
  if node.leaf.isNone then .group
  else if node.children.isEmpty then .leaf
  else .ambiguous

/-- The node of a tree below a path. -/
def below (path : List Segment) (entry : Entry) (children : Forest Entry) : Node :=
  ⟨path ++ [entry.segment], entry.leaf, children⟩

/-- The children of a node, in the order of their keys. -/
def members (node : Node) : List Node :=
  node.children.trees.map fun (entry, children) => below node.path entry children

/-- The child found by an identifier or a raw segment, in any ASCII case. -/
def child? (node : Node) (name : String) : Option Node := do
  let key ← key? name
  let (entry, children) ← node.children.trees.find? (·.1.key == key)
  return below node.path entry children

/-- Walks down from a node, one name after the other; `resolved` are the names behind it. -/
def descend (node : Node) (resolved : List String) : List String → Except MissingSegment Node
  | [] => .ok node
  | name :: rest =>
    match node.child? name with
    | some child => child.descend (resolved ++ [name]) rest
    | none => .error ⟨name, joinDots resolved⟩

end Node

/-- The nodes of a forest that lies below a path, each before its children. -/
def preorder (path : List Segment) : Forest Entry → List Node
  | .nil => []
  | .cons entry children siblings =>
    .below path entry children
      :: (preorder (path ++ [entry.segment]) children ++ preorder path siblings)

namespace Tree

/-- The root, which holds no declaration. -/
def root (tree : Tree) : Node :=
  ⟨[], none, tree.forest⟩

/-- All nodes, each before its children, siblings in the order of their keys. -/
def nodes (tree : Tree) : List Node :=
  tree.root :: preorder [] tree.forest

def nodeCount (tree : Tree) : Nat :=
  tree.forest.size + 1

/-- The declarations, in the order of their nodes. -/
def declarations (tree : Tree) : List Declaration :=
  tree.forest.toList.filterMap (·.leaf)

def leafCount (tree : Tree) : Nat :=
  tree.declarations.length

def isEmpty (tree : Tree) : Bool :=
  tree.leafCount == 0

/-- The number of segments of the longest path. -/
def depth (tree : Tree) : Nat :=
  (tree.nodes.map (·.path.length)).foldl max 0

/-- The nodes with a declaration and children. -/
def ambiguousNodes (tree : Tree) : List Node :=
  tree.nodes.filter (·.shape == .ambiguous)

/-- The node at a path of raw segments. -/
def node? (tree : Tree) (path : List Segment) : Option Node :=
  tree.nodes.find? (·.path == path)

/-- The parent of a node; the root has none. -/
def parent? (tree : Tree) (node : Node) : Option Node :=
  if node.isRoot then none else tree.node? node.path.dropLast

/-- Walks a dotted text from the root. -/
def find (tree : Tree) (dotted : String) : Except MissingSegment Node :=
  tree.root.descend [] (splitDots dotted)

end Tree

/-- A listing of a forest has one node for each of the forest's. -/
@[simp] theorem length_preorder (path : List Segment) (forest : Forest Entry) :
    (preorder path forest).length = forest.size := by
  induction forest generalizing path with
  | nil => rfl
  | cons entry children siblings below beside =>
    simp [preorder, Forest.size, below, beside]

/-- The listing of a tree is complete in number. -/
theorem Tree.length_nodes (tree : Tree) : tree.nodes.length = tree.nodeCount := by
  simp [Tree.nodes, Tree.nodeCount]

end AliasCatalog.Namespace
