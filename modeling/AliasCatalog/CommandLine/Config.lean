import AliasCatalog.Catalog.Json
import AliasCatalog.CommandLine.Files
import AliasCatalog.Toml.Document

/-!
# Input files

The program reads its options from a TOML file and the declarations from a JSON file.  Without an
explicit path the options come from `vercat.toml` where that is a file, and are the default ones
otherwise.
-/

namespace AliasCatalog.CommandLine

/-- What a file is read for. -/
inductive FileRole where
  | config
  | declarations
  deriving DecidableEq, Repr

def FileRole.noun : FileRole → String
  | config => "config file"
  | declarations => "declarations"

/-- Why an input file cannot be used. -/
inductive LoadError where
  /-- It cannot be read as text. -/
  | unreadable (role : FileRole) (path : String)
  /-- Its text is not of the expected form. -/
  | malformed (role : FileRole) (path : String)
  deriving DecidableEq, Repr

def LoadError.message : LoadError → String
  | unreadable role path => s!"Failed to read {role.noun}: {path}"
  | malformed role path => s!"Failed to parse {role.noun}: {path}"

/-- Reads a file with a given reader of texts. -/
def load {α : Type} (source : FileSource) (role : FileRole) (read : String → Option α)
    (path : String) : Except LoadError α :=
  match source.text? path with
  | none => .error (.unreadable role path)
  | some text =>
    match read text with
    | some result => .ok result
    | none => .error (.malformed role path)

def loadDeclarations (source : FileSource) (path : String) :
    Except LoadError (List Declaration) :=
  load source .declarations parseDeclarations? path

/-! ## Options -/

/-- The text under a key, or a default where the key is absent. -/
def textOr (key default : String) (entries : Toml.Entries) : Option String :=
  match entries.lookup key with
  | none => some default
  | some (.string text) => some text
  | some _ => none

/-- The options in a table of fields. -/
def optionsOfEntries? (entries : Toml.Entries) : Option Options := do
  let defaults : Options := {}
  let name ← textOr "name" defaults.name entries
  let source ← textOr "source" defaults.source entries
  return ⟨name, source⟩

/-- The options in the entries of a document: in the table `catalog`, or in an array of that name
that starts with the fields in order.  A date or a time counts as a table without these fields. -/
def optionsOfDocument? (document : Toml.Entries) : Option Options :=
  match document.lookup "catalog" with
  | none => some {}
  | some (.table _ entries) => optionsOfEntries? entries
  | some (.array items) => optionsOfEntries? (["name", "source"].zip items)
  | some (.moment _) => some {}
  | some _ => none

def parseOptions? (text : String) : Option Options :=
  (Toml.parse? text).bind optionsOfDocument?

/-- Where options are looked for without an explicit path. -/
def defaultConfigFile : String := "vercat.toml"

/-- The options of a run. -/
def discoverOptions (source : FileSource) (explicit : Option String) :
    Except LoadError Options :=
  match explicit with
  | some path => load source .config parseOptions? path
  | none =>
    if (source defaultConfigFile).isSome then
      load source .config parseOptions? defaultConfigFile
    else .ok {}

/-- Options with the name given on the command line, if one is. -/
def withName (options : Options) : Option String → Options
  | some name => { options with name := name }
  | none => options

end AliasCatalog.CommandLine
