import AliasCatalog.Catalog.Basic
import AliasCatalog.Declaration.Json
import AliasCatalog.Plan.Basic

/-!
# Catalog data as JSON

The written forms of accessor values, fingerprints and plans, and the reading of catalog options and
fingerprints.  A field without a value is left out.
-/

namespace AliasCatalog

open Json Accessor

/-! ## Accessor values -/

/-- A value as JSON: a version is its text, the others are objects. -/
def Accessor.Value.toJson : Accessor.Value → Json.Value
  | .library d =>
    .object ([("alias", .string d.name), ("group", .string d.group),
      ("artifact", .string d.artifact)]
      ++ optionalMember "version" d.version ++ optionalMember "version_ref" d.versionRef)
  | .version text => .string text
  | .bundle b => .object [("alias", .string b.name), ("members", .texts b.members)]
  | .plugin p =>
    .object ([("alias", .string p.name), ("id", .string p.id)]
      ++ optionalMember "version" p.version)

/-! ## Fingerprints -/

namespace Namespace.Fingerprint

def toJson (fingerprint : Fingerprint) : Json.Value :=
  .object [("kind", .string fingerprint.kind.name), ("nodes", .nat fingerprint.nodes),
    ("declarations", .nat fingerprint.declarations), ("hash", .string fingerprint.hash)]

/-- The kind of a fingerprint: its name, or an object with the name as its one key and null as its
value. -/
def kindOfJson? : Json.Value → Option Kind
  | .string name => Kind.all.find? (·.name == name)
  | .object [(name, .null)] => Kind.all.find? (·.name == name)
  | _ => none

/-- Reads a fingerprint: an object, or an array of the fields in order.  The counts have to fit in 64
bits. -/
def ofJson? (value : Json.Value) : Option Fingerprint := do
  let members ← recordMembers ["kind", "nodes", "declarations", "hash"] value
  let tag ← member "kind" members
  let kind ← tag.bind kindOfJson?
  let nodes ← requiredNat "nodes" members
  let declarations ← requiredNat "declarations" members
  let hash ← requiredText "hash" members
  return ⟨kind, nodes, declarations, hash⟩

end Namespace.Fingerprint

/-! ## Options -/

/-- The text under a key, or a default where the key is absent. -/
def Json.textOr (key default : String) (members : List (String × Json.Value)) : Option String :=
  match member key members with
  | some none => some default
  | some (some (.string text)) => some text
  | _ => none

/-- Reads catalog options from their members; an absent field has its default. -/
def Options.ofMembers? (members : List (String × Json.Value)) : Option Options := do
  let defaults : Options := {}
  let name ← textOr "name" defaults.name members
  let source ← textOr "source" defaults.source members
  return ⟨name, source⟩

/-- Reads catalog options: an object, or an array of the fields in order. -/
def Options.ofJson? (value : Json.Value) : Option Options := do
  let members ← recordMembers ["name", "source"] value
  ofMembers? members

/-! ## Plans -/

def LeafPlan.toJson (leaf : LeafPlan) : Json.Value :=
  .object [("alias", .string leaf.name), ("method", .string leaf.method),
    ("docs", .texts leaf.docs)]

/-- A group as an object, with the groups in it given as JSON already. -/
def GroupPlan.toJson (group : GroupPlan) (inner : List Json.Value) : Json.Value :=
  .object ([("path", .string group.path), ("type_name", .string group.typeName)]
    ++ optionalMember "method" group.method
    ++ (group.provider.map fun leaf => ("provider", leaf.toJson)).toList
    ++ [("leaves", .array (group.leaves.map (·.toJson))), ("groups", .array inner)])

def Plan.groupsToJson : Forest GroupPlan → List Json.Value
  | .nil => []
  | .cons group inner beside => group.toJson (groupsToJson inner) :: groupsToJson beside

def KindPlan.toJson (plan : KindPlan) : Json.Value :=
  .object ([("kind", .string plan.kind.name)] ++ optionalMember "accessor" plan.accessor
    ++ [("fingerprint", .string plan.fingerprint),
      ("root", plan.root.toJson (Plan.groupsToJson plan.groups))])

def CatalogPlan.toJson (plan : CatalogPlan) : Json.Value :=
  .object [("name", .string plan.name), ("source", .string plan.source),
    ("type_name", .string plan.typeName), ("kinds", .array (plan.kinds.map (·.toJson)))]

end AliasCatalog
