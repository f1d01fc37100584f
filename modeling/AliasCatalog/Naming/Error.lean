import AliasCatalog.Kind
import AliasCatalog.Naming.DottedName

/-!
# Naming errors

Why a set of aliases of one kind makes no namespace.  Each error is a cause; its wording is
`NamingError.message`.
-/

namespace AliasCatalog.Naming

/-- Why a single alias is refused. -/
inductive InvalidReason where
  /-- The alias is no dotted name. -/
  | malformed (defect : NameDefect)
  /-- The segment to be named has no word. -/
  | wordless
  /-- The declaration belongs to another kind. -/
  | declaredAs (kind : Kind)
  /-- The first segment of a library alias is the accessor of another kind. -/
  | reserved (segment : String) (owner : Kind)
  deriving DecidableEq, Repr

def InvalidReason.message : InvalidReason → String
  | malformed defect => defect.message
  | wordless => "segment has no letters or digits"
  | declaredAs kind => s!"declared as a {kind.name}"
  | reserved segment owner =>
    s!"'{segment}' is reserved for the catalog's {owner.plural} accessors"

/-- Why aliases of one kind make no namespace. -/
inductive NamingError where
  /-- An alias that cannot stand in the namespace. -/
  | invalidName (kind : Kind) (name : String) (reason : InvalidReason)
  /-- Two declarations with one dotted name. -/
  | duplicateAlias (kind : Kind) (name : String)
  /-- Two sibling segments with one key; `parent` is their parent's path, empty for the root. -/
  | collision (kind : Kind) (parent first second : String) (identifier : Identifier)
  deriving DecidableEq, Repr

namespace NamingError

def kind : NamingError → Kind
  | invalidName kind _ _ => kind
  | duplicateAlias kind _ => kind
  | collision kind _ _ _ _ => kind

def message : NamingError → String
  | invalidName kind name reason => s!"Invalid {kind.name} alias '{name}': {reason.message}"
  | duplicateAlias kind name =>
    s!"Duplicate {kind.name} alias '{name}': two declarations share this dotted name"
  | collision kind parent first second identifier =>
    let place := if parent.isEmpty then "<root>" else parent
    s!"Naming collision in {kind.name} namespace '{place}': segments '{first}' and '{second}' "
      ++ s!"both map to identifier '{identifier.text}'"

end NamingError

/-- Reads the alias of a declaration of some kind. -/
def DottedName.parseAlias (kind : Kind) (text : String) : Except NamingError DottedName :=
  (parse text).mapError fun defect => .invalidName kind text (.malformed defect)

end AliasCatalog.Naming
