import AliasCatalog.CommandLine.Run

/-!
# The program

Reads the files that an invocation may need, and hands over to `CommandLine.run`.
-/

namespace AliasCatalog.CommandLine

/-- The contents of the files at the given paths, where they can be read. -/
def readFiles (paths : List String) : IO (List (String × ByteArray)) := do
  let mut files := []
  for path in paths do
    try
      files := (path, ← IO.FS.readBinFile path) :: files
    catch _ => pure ()
  return files

end AliasCatalog.CommandLine

open AliasCatalog CommandLine

/-- Runs the program on the arguments of the command line. -/
def main (arguments : List String) : IO UInt32 := do
  let inherited ← IO.getEnv "VERCAT_CATALOG_NAME"
  let files ←
    match Invocation.parse inherited arguments with
    | .ok invocation => readFiles [invocation.config.getD defaultConfigFile, invocation.input]
    | .error .help => pure []
    | .error .usage => IO.eprint helpText; pure []
  let outcome := CommandLine.run inherited arguments fun path => files.lookup path
  IO.print outcome.output
  if let some failure := outcome.failure then IO.eprintln failure.report
  return outcome.code.toUInt32
