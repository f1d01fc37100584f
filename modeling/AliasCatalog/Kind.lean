import AliasCatalog.Text.Case

/-!
# Kinds of declarations

A catalog holds four independent namespaces, one for each kind of declaration.
-/

namespace AliasCatalog

open Text

inductive Kind where
  | library
  | version
  | bundle
  | plugin
  deriving DecidableEq, Repr

namespace Kind

/-- All kinds, in the order in which a catalog treats them. -/
def all : List Kind :=
  [library, version, bundle, plugin]

def name : Kind → String
  | library => "library"
  | version => "version"
  | bundle => "bundle"
  | plugin => "plugin"

def plural : Kind → String
  | library => "libraries"
  | version => "versions"
  | bundle => "bundles"
  | plugin => "plugins"

instance : ToString Kind := ⟨name⟩

/-- Reads the name of a kind, singular or plural, in any ASCII case. -/
def ofName? (text : String) : Option Kind :=
  all.find? fun kind => foldCase text == kind.name || foldCase text == kind.plural

/-- What is said of a text that names no kind. -/
def unknownMessage (text : String) : String :=
  s!"Unknown declaration kind '{text}' (expected library, version, bundle or plugin)"

/-- Every kind is one of `all`. -/
theorem mem_all (kind : Kind) : kind ∈ all := by
  cases kind <;> decide

end Kind

end AliasCatalog
