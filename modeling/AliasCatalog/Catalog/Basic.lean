import AliasCatalog.Accessor.View

/-!
# Catalogs

A catalog has one accessor surface for each kind of declaration.  The four trees are built from one
list of declarations and never refer to each other.  The catalog shows libraries on its own type and
the other kinds behind the getters `versions`, `bundles` and `plugins`, so no library alias may start
with one of these three names.
-/

namespace AliasCatalog

open Accessor Namespace Naming Text

/-- How a catalog is named and where its declarations come from. -/
structure Options where
  /-- The name of the catalog (`libs` makes the root type `LibrariesForLibs`). -/
  name : String := "libs"
  /-- The label of the source, quoted in the documentation of accessors. -/
  source : String := "libs.versions.toml"
  deriving DecidableEq, Repr

/-- Why a catalog cannot be built. -/
inductive BuildError where
  | invalidCatalogName (name : String) (defect : SegmentDefect)
  | naming (error : NamingError)
  deriving DecidableEq, Repr

/-- What is said of a name that is no segment. -/
def catalogNameReason : SegmentDefect → String
  | .empty => "name is empty"
  | .badCharacter c => s!"contains '{c}' (allowed: letters, digits, '-', '_')"
  | .blank => "name has no letters or digits"

def BuildError.message : BuildError → String
  | invalidCatalogName name defect =>
    s!"Invalid catalog name '{name}': {catalogNameReason defect}"
  | naming error => error.message

structure Catalog where
  options : Options
  libraries : Surface
  versions : Surface
  bundles : Surface
  plugins : Surface
  deriving DecidableEq, Repr

namespace Catalog

/-- The name of the catalog's own type.  A catalog's name follows the grammar of a segment. -/
def rootType (name : String) : Except BuildError String :=
  match Segment.parse name with
  | .ok segment => .ok ("LibrariesFor" ++ segment.identifier.capitalized)
  | .error defect => .error (.invalidCatalogName name defect)

/-- The kind whose getter has the given key. -/
def reservedFor? (key : String) : Option Kind :=
  [Kind.bundle, .plugin, .version].find? (·.plural == key)

/-- Refuses a library alias that is malformed or starts with the getter of another kind. -/
def checkRoot (library : Declaration) : Except NamingError Unit := do
  let name ← Tree.validate .library library
  match reservedFor? name.first.key with
  | some owner => .error (.invalidName .library library.name (.reserved name.first.text owner))
  | none => .ok ()

def buildSurface (kind : Kind) (rootType : String) (declarations : List Declaration) :
    Except BuildError Surface :=
  match Tree.build kind declarations with
  | .ok tree => .ok (.ofTree tree rootType)
  | .error error => .error (.naming error)

/-- Builds a catalog.  The catalog's name is examined first, then the library aliases in their
order, then each kind's tree; the first error ends the build. -/
def build (options : Options) (declarations : List Declaration) : Except BuildError Catalog := do
  let libraryType ← rootType options.name
  ((ofKind .library declarations).forM checkRoot).mapError .naming
  let libraries ← buildSurface .library libraryType declarations
  let versions ← buildSurface .version (typeSuffix .version) declarations
  let bundles ← buildSurface .bundle (typeSuffix .bundle) declarations
  let plugins ← buildSurface .plugin (typeSuffix .plugin) declarations
  return ⟨options, libraries, versions, bundles, plugins⟩

def surface (catalog : Catalog) : Kind → Surface
  | .library => catalog.libraries
  | .version => catalog.versions
  | .bundle => catalog.bundles
  | .plugin => catalog.plugins

def root (catalog : Catalog) (kind : Kind) : View :=
  (catalog.surface kind).root

def tree (catalog : Catalog) (kind : Kind) : Tree :=
  (catalog.surface kind).tree

/-- Resolves a dotted alias of a kind, without going through views. -/
def resolve (catalog : Catalog) (kind : Kind) (dotted : String) : Except LookupError Provider :=
  (catalog.surface kind).resolve dotted

/-- The fingerprints of the four trees, in the order of the kinds. -/
def fingerprints (catalog : Catalog) : List Fingerprint :=
  Kind.all.map fun kind => (catalog.tree kind).fingerprint

end Catalog

end AliasCatalog
