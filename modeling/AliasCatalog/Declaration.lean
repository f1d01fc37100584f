import AliasCatalog.Kind

/-!
# Declarations

A declaration is one catalog entry: a dotted alias with a payload.  The kind of a declaration is the
variant of its payload, so a library alias can never carry a plugin's payload.  Names are plain text
here; they are validated when a namespace is built.
-/

namespace AliasCatalog

structure Coordinate where
  group : String
  artifact : String
  /-- The version alias the library points at. -/
  versionRef : Option String
  /-- The version given inline. -/
  version : Option String
  deriving DecidableEq, Repr

/-- A version constraint as declared; nothing interprets ranges. -/
structure VersionConstraint where
  required : Option String
  strictly : Option String
  prefer : Option String
  reject : List String
  deriving DecidableEq, Repr

structure PluginSpec where
  id : String
  version : Option String
  deriving DecidableEq, Repr

/-- What a declaration says, by kind. -/
inductive Payload where
  | library (coordinate : Coordinate)
  | version (constraint : VersionConstraint)
  /-- A bundle lists the library aliases it gathers. -/
  | bundle (members : List String)
  | plugin (spec : PluginSpec)
  deriving DecidableEq, Repr

/-- The kind of a payload is its variant. -/
def Payload.kind : Payload → Kind
  | library _ => .library
  | version _ => .version
  | bundle _ => .bundle
  | plugin _ => .plugin

structure Declaration where
  /-- The dotted alias as written. -/
  name : String
  payload : Payload
  deriving DecidableEq, Repr

namespace Declaration

def kind (declaration : Declaration) : Kind :=
  declaration.payload.kind

/-- A library without a version. -/
def library (name group artifact : String) : Declaration :=
  ⟨name, .library ⟨group, artifact, none, none⟩⟩

/-- A version that requires exactly one value. -/
def version (name required : String) : Declaration :=
  ⟨name, .version ⟨some required, none, none, []⟩⟩

def bundle (name : String) (members : List String) : Declaration :=
  ⟨name, .bundle members⟩

def plugin (name id : String) : Declaration :=
  ⟨name, .plugin ⟨id, none⟩⟩

end Declaration

/-- The declarations of one kind, in their order. -/
def ofKind (kind : Kind) (declarations : List Declaration) : List Declaration :=
  declarations.filter (·.kind == kind)

end AliasCatalog
