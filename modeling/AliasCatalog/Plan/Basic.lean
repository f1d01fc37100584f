import AliasCatalog.Catalog.Basic

/-!
# Naming plans

The plan of a catalog lists its whole accessor surface: for every group its type and getter, the
declarations it exposes directly, its nested groups, and for an ambiguous group the accessor of its
own declaration.  It is what a writer of source code would start from.
-/

namespace AliasCatalog

open Accessor Namespace Naming Text

structure LeafPlan where
  /-- The alias of the declaration. -/
  name : String
  method : String
  /-- The lines of documentation: what the accessor yields, and where that was declared. -/
  docs : List String
  deriving DecidableEq, Repr

/-- The accessor type of a group, without the groups in it. -/
structure GroupPlan where
  path : String
  typeName : String
  /-- The getter on the group around it; none at a kind's root. -/
  method : Option String
  /-- The accessor of the group's own declaration, when it is ambiguous. -/
  provider : Option LeafPlan
  leaves : List LeafPlan
  deriving DecidableEq, Repr

structure KindPlan where
  kind : Kind
  /-- The getter on the catalog's type; libraries live on that type itself. -/
  accessor : Option String
  fingerprint : String
  root : GroupPlan
  groups : Forest GroupPlan
  deriving DecidableEq, Repr

structure CatalogPlan where
  name : String
  source : String
  typeName : String
  kinds : List KindPlan
  deriving DecidableEq, Repr

/-- What a declaration of a kind is called in documentation. -/
def Kind.noun : Kind → String
  | library => "dependency"
  | version => "version"
  | bundle => "bundle"
  | plugin => "plugin"

/-- The getter of a kind on the catalog's type. -/
def Kind.getter? : Kind → Option String
  | library => none
  | kind => some ("get" ++ capitalize kind.plural)

namespace Plan

/-- The last line of documentation of every accessor of a kind. -/
def footer (kind : Kind) (source : String) : String :=
  s!"This {kind.noun} was declared in catalog {source}"

def leaf (footer method : String) (node : Node) : LeafPlan :=
  ⟨node.name, method, (describeNode? node).toList ++ [footer]⟩

/-- The getter of a node on the group around it. -/
def method (node : Node) : String :=
  (node.identifier?.map (·.method)).getD ""

def group (surface : Surface) (footer : String) (method : Option String) (node : Node) :
    GroupPlan where
  path := node.name
  typeName := (surface.typeName? node.path).getD ""
  method := method
  provider := if node.leaf.isSome then some (leaf footer providerMethod node) else none
  leaves := (node.members.filter (·.shape == .leaf)).map fun member =>
    leaf footer (Plan.method member) member

/-- The accessor types of the groups among the trees below a path. -/
def groups (surface : Surface) (footer : String) (path : List Segment) :
    Forest Entry → Forest GroupPlan
  | .nil => .nil
  | .cons entry children siblings =>
    let node := Node.below path entry children
    if node.shape == .leaf then groups surface footer path siblings
    else
      .cons (group surface footer (some (Plan.method node)) node)
        (groups surface footer (path ++ [entry.segment]) children)
        (groups surface footer path siblings)

def kind (surface : Surface) (source : String) : KindPlan :=
  let footer := Plan.footer surface.kind source
  ⟨surface.kind, surface.kind.getter?, surface.tree.fingerprint.hash,
    group surface footer none surface.tree.root, groups surface footer [] surface.tree.forest⟩

end Plan

/-- The whole accessor surface of a catalog. -/
def Catalog.plan (catalog : Catalog) : CatalogPlan where
  name := catalog.options.name
  source := catalog.options.source
  typeName := (catalog.root .library).typeName
  kinds := Kind.all.map fun kind => Plan.kind (catalog.surface kind) catalog.options.source

end AliasCatalog
