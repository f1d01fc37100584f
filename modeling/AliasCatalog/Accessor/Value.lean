import AliasCatalog.Declaration
import AliasCatalog.Naming.DottedName

/-!
# Values behind accessors

What a consumer of the catalog sees of a declaration: a dependency, a version text, a bundle or a
plugin, each under its alias, together with a line that describes the accessor.
-/

namespace AliasCatalog.Accessor

open Naming

/-- A library ready to be added as a dependency, under its alias. -/
structure Dependency where
  name : String
  group : String
  artifact : String
  version : Option String
  /-- The version alias the library points at, not followed here. -/
  versionRef : Option String
  deriving DecidableEq, Repr

/-- A bundle of library aliases, under its own. -/
structure Bundle where
  name : String
  members : List String
  deriving DecidableEq, Repr

/-- A plugin ready to be applied, under its alias. -/
structure Plugin where
  name : String
  id : String
  version : Option String
  deriving DecidableEq, Repr

/-- The value of a declaration, by kind. -/
inductive Value where
  | library (dependency : Dependency)
  | version (text : String)
  | bundle (bundle : Bundle)
  | plugin (plugin : Plugin)
  deriving DecidableEq, Repr

/-- A text followed by a colon and the version, if there is one. -/
def withVersion (text : String) : Option String → String
  | some version => text ++ ":" ++ version
  | none => text

/-- The module of a dependency, without a version. -/
def Dependency.module (dependency : Dependency) : String :=
  dependency.group ++ ":" ++ dependency.artifact

def Dependency.text (dependency : Dependency) : String :=
  withVersion dependency.module dependency.version

def Plugin.text (plugin : Plugin) : String :=
  withVersion plugin.id plugin.version

def Bundle.text (bundle : Bundle) : String :=
  "[" ++ ", ".intercalate bundle.members ++ "]"

namespace Value

def kind : Value → Kind
  | library _ => .library
  | version _ => .version
  | bundle _ => .bundle
  | plugin _ => .plugin

def text : Value → String
  | library d => d.text
  | version v => v
  | bundle b => b.text
  | plugin p => p.text

end Value

/-- The one version a constraint stands for.  A constraint that rejects versions, states none, or
states different ones stands for no single version and gives the empty text. -/
def displayVersion (constraint : VersionConstraint) : String :=
  if constraint.reject.isEmpty then
    match [constraint.strictly, constraint.required, constraint.prefer].filterMap id with
    | [] => ""
    | stated :: others => if others.all (· == stated) then stated else ""
  else ""

/-- The value of a payload declared under an alias. -/
def adapt (name : String) : Payload → Value
  | .library ⟨group, artifact, versionRef, version⟩ =>
    .library ⟨name, group, artifact, version, versionRef⟩
  | .version constraint => .version (displayVersion constraint)
  | .bundle members => .bundle ⟨name, members⟩
  | .plugin ⟨id, version⟩ => .plugin ⟨name, id, version⟩

/-- The part of an alias after its last dot. -/
def lastPart (name : String) : String :=
  (splitDots name).getLast (splitDots_ne_nil name)

/-- The line that describes the accessor of a payload declared under an alias. -/
def describe (name : String) : Payload → String
  | .library coordinate =>
    s!"Creates a dependency provider for {lastPart name} "
      ++ s!"({coordinate.group}:{coordinate.artifact})"
  | .version constraint =>
    s!"Returns the version associated to this alias: {name} ({displayVersion constraint})"
  | .bundle members =>
    s!"Creates a dependency bundle provider for {name} which is an aggregate for the following "
      ++ "dependencies: " ++ ", ".intercalate members
  | .plugin spec => s!"Creates a plugin provider for {name} to the plugin id '{spec.id}'"

/-- The end of the names of a kind's accessor types. -/
def typeSuffix : Kind → String
  | .library => "LibraryAccessors"
  | .version => "VersionAccessors"
  | .bundle => "BundleAccessors"
  | .plugin => "PluginAccessors"

end AliasCatalog.Accessor
