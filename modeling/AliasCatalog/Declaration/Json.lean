import AliasCatalog.Declaration
import AliasCatalog.Json.Reader
import AliasCatalog.Json.Writer

/-!
# Declarations as JSON

A declaration is an object with its `name`, its `kind` and the fields of that kind's payload side by
side.  Fields without a value are left out when written; when read, the order of the members does
not matter, unknown members are ignored, and a known member may not be repeated.
-/

namespace AliasCatalog

open Json

/-! ## Writing -/

def Payload.members : Payload → List (String × Value)
  | library coordinate =>
    [("group", .string coordinate.group), ("artifact", .string coordinate.artifact)]
      ++ optionalMember "version_ref" coordinate.versionRef
      ++ optionalMember "version" coordinate.version
  | version constraint =>
    optionalMember "required" constraint.required ++ optionalMember "strictly" constraint.strictly
      ++ optionalMember "prefer" constraint.prefer
      ++ (if constraint.reject.isEmpty then [] else [("reject", .texts constraint.reject)])
  | bundle members => [("members", .texts members)]
  | plugin spec => ("id", .string spec.id) :: optionalMember "version" spec.version

def Declaration.toJson (declaration : Declaration) : Value :=
  .object (("name", .string declaration.name) :: ("kind", .string declaration.kind.name)
    :: declaration.payload.members)

def declarationsToJson (declarations : List Declaration) : Value :=
  .array (declarations.map (·.toJson))

/-! ## Reading -/

/-- The kind named by a tag: a name in lowercase and singular, or the position of the kind. -/
def Kind.ofTag? : Value → Option Kind
  | .string tag => Kind.all.find? (·.name == tag)
  | .number (.integer (.ofNat position)) => Kind.all[position]?
  | _ => none

def VersionConstraint.ofMembers? (members : List (String × Value)) : Option VersionConstraint := do
  let required ← optionalText "required" members
  let strictly ← optionalText "strictly" members
  let prefer ← optionalText "prefer" members
  let reject ← textList "reject" (some []) members
  return ⟨required, strictly, prefer, reject⟩

/-- Reads a version constraint: an object, or an array of the fields in order. -/
def VersionConstraint.ofJson? (value : Value) : Option VersionConstraint := do
  let members ← recordMembers ["required", "strictly", "prefer", "reject"] value
  ofMembers? members

/-- Reads the payload of a kind from the members of a declaration. -/
def Payload.ofMembers? (kind : Kind) (members : List (String × Value)) : Option Payload :=
  match kind with
  | .library => do
    let group ← requiredText "group" members
    let artifact ← requiredText "artifact" members
    let versionRef ← optionalText "version_ref" members
    let version ← optionalText "version" members
    return .library ⟨group, artifact, versionRef, version⟩
  | .version => do
    let constraint ← VersionConstraint.ofMembers? members
    return .version constraint
  | .bundle => do
    let bundled ← textList "members" none members
    return .bundle bundled
  | .plugin => do
    let id ← requiredText "id" members
    let version ← optionalText "version" members
    return .plugin ⟨id, version⟩

def Declaration.ofJson? : Value → Option Declaration
  | .object members => do
    let name ← requiredText "name" members
    let tag ← member "kind" members
    let kind ← tag.bind Kind.ofTag?
    let payload ← Payload.ofMembers? kind members
    return ⟨name, payload⟩
  | _ => none

def declarationsOfJson? : Value → Option (List Declaration)
  | .array items => items.mapM Declaration.ofJson?
  | _ => none

def parseDeclarations? (text : String) : Option (List Declaration) :=
  (parse? text).bind declarationsOfJson?

end AliasCatalog
