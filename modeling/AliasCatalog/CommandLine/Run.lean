import AliasCatalog.CommandLine.Arguments
import AliasCatalog.CommandLine.Config
import AliasCatalog.Json.Writer
import AliasCatalog.Plan.Outline

/-!
# Running the program

A run reads the options, then the declarations, builds the catalog, and prints what its task asks
for.  The first failure ends the run with a report.
-/

namespace AliasCatalog

open Json Namespace Text

namespace Catalog

def renderPlan (catalog : Catalog) : CommandLine.Format → String
  | .json => catalog.plan.toJson.pretty 0
  | .outline => catalog.plan.outline

/-- One line for a fingerprint: kind, counts and hash. -/
def fingerprintLine (fingerprint : Fingerprint) : String :=
  s!"{padRight 8 fingerprint.kind.name} {padLeft 4 (toString fingerprint.nodes)} nodes "
    ++ s!"{padLeft 4 (toString fingerprint.declarations)} declarations {fingerprint.hash}"

def renderFingerprints (catalog : Catalog) : String :=
  "\n".intercalate (catalog.fingerprints.map fingerprintLine)

end Catalog

namespace CommandLine

/-- Why a run fails. -/
inductive Failure where
  | load (error : LoadError)
  | build (name : String) (error : BuildError)
  | lookup (error : Accessor.LookupError)
  deriving DecidableEq, Repr

namespace Failure

/-- What is said of a failure first. -/
def headline : Failure → String
  | load error => error.message
  | build name _ => s!"Failed to build catalog '{name}'"
  | lookup error => error.message

/-- The cause behind a failure, where the headline does not tell it. -/
def cause? : Failure → Option String
  | build _ error => some error.message
  | load _ | lookup _ => none

/-- A failure in one line: the headline and the cause. -/
def chain (failure : Failure) : String :=
  ": ".intercalate (failure.headline :: failure.cause?.toList)

/-- The text with each further line moved in. -/
def indentLines (text : String) : String :=
  "\n    ".intercalate ((text.toList.splitOn '\n').map String.ofList)

def report (failure : Failure) : String :=
  match failure.cause? with
  | some cause => s!"Error: {failure.headline}\n\nCaused by:\n    {indentLines cause}"
  | none => s!"Error: {failure.headline}"

end Failure

/-- Builds the catalog of a run. -/
def buildCatalog (options : Options) (declarations : List Declaration) : Except Failure Catalog :=
  (Catalog.build options declarations).mapError (.build options.name)

/-- What a task prints: whole lines. -/
def Task.output (catalog : Catalog) : Task → Except Failure String
  | plan .json => .ok (catalog.renderPlan .json ++ "\n")
  | plan .outline => .ok (catalog.renderPlan .outline)
  | resolve kind name =>
    match catalog.resolve kind name with
    | .ok provider => .ok (provider.value.text ++ "\n")
    | .error error => .error (.lookup error)
  | fingerprint => .ok (catalog.renderFingerprints ++ "\n")

def Invocation.run (invocation : Invocation) (source : FileSource) : Except Failure String := do
  let options ← (discoverOptions source invocation.config).mapError .load
  let options := withName options invocation.name
  let declarations ← (loadDeclarations source invocation.input).mapError .load
  let catalog ← buildCatalog options declarations
  invocation.task.output catalog

/-- What a run leaves behind. -/
structure Outcome where
  code : Nat
  output : String
  /-- Why the run failed, if its arguments made sense and it did. -/
  failure : Option Failure
  deriving DecidableEq, Repr

def helpText : String :=
  "Compile dotted version catalog aliases into accessor namespaces\n\n"
    ++ "Usage: [OPTIONS] plan --input FILE [--format json|outline]\n"
    ++ "       [OPTIONS] resolve --input FILE [--kind KIND] ALIAS\n"
    ++ "       [OPTIONS] fingerprint --input FILE\n\n"
    ++ "Options: --verbose, --debug, --config FILE, --name NAME, --help\n"

/-- A whole run: failures have the code 1, refused arguments the code 2. -/
def run (inherited : Option String) (arguments : List String) (source : FileSource) : Outcome :=
  match Invocation.parse inherited arguments with
  | .error .help => ⟨0, helpText, none⟩
  | .error .usage => ⟨2, "", none⟩
  | .ok invocation =>
    match invocation.run source with
    | .ok output => ⟨0, output, none⟩
    | .error failure => ⟨1, "", some failure⟩

end CommandLine

end AliasCatalog
