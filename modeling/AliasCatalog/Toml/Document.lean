import AliasCatalog.Toml.Scalar

/-!
# TOML documents

A document is read line by line: headers, keys with values, comments.  The lines are then laid into
tables; a key or a header that was used before in a conflicting way makes the whole document
unreadable.
-/

namespace AliasCatalog.Toml

open Text Text.Reader

/-- The number of arrays and inline tables that may be open at a time, and of parts of a key. -/
def maxDepth : Nat := 79

/-- A comment, without the end of its line. -/
def comment : Reader Unit := do
  char '#'
  let _ ← takeWhile isText

/-- The rest of a line after its content. -/
def lineEnd : Reader Unit := do
  blanks
  let _ ← optionally comment
  newline <|> eof

/-! ## Keys and values -/

/-- A character of a key without quotes. -/
def isBareKeyChar (c : Char) : Bool :=
  c.isAlphanum || c == '_' || c == '-'

/-- One part of a key. -/
def keyPart : Reader String :=
  basicString <|> literalString <|> String.ofList <$> takeWhile1 isBareKeyChar

/-- A key: parts with dots and blanks between them. -/
def key : Reader (List String) := do
  let parts ← sepBy1 (blanks *> keyPart <* blanks) (char '.')
  if parts.length ≤ maxDepth then return parts else failure

def keyValue (value : Reader Value) : Reader (List String × Value) := do
  let path ← key
  char '='
  blanks
  let value ← value
  return (path, value)

/-- Blanks, line ends and comments between the items of an array. -/
def itemGap : Reader Unit := do
  let _ ← many ((do let _ ← takeWhile1 isBlank) <|> newline <|> comment)

def array (item : Reader Value) : Reader Value := do
  char '['
  let items ← optionally (sepBy1 (itemGap *> item <* itemGap) (char ','))
  if items.isSome then
    let _ ← optionally (char ',')
  itemGap
  char ']'
  return .array (items.getD [])

def inlineTable (item : Reader Value) : Reader Value := do
  char '\x7b'
  let pairs ← optionally (sepBy1 (keyValue item <* blanks) (char ','))
  blanks
  char '\x7d'
  match Entries.addAll [] (pairs.getD []) with
  | some entries => return .table .inline entries
  | none => failure

/-- A value in which at most `depth` arrays and inline tables are open at a time. -/
def value : (depth : Nat) → Reader Value
  | 0 => scalar
  | depth + 1 => scalar <|> array (value depth) <|> inlineTable (value depth)

/-! ## Lines -/

/-- The content of a line. -/
inductive Line where
  | blank
  | header (path : List String)
  | elementHeader (path : List String)
  | pair (path : List String) (value : Value)
  deriving Repr

def line : Reader Line := do
  blanks
  (do newline; return .blank)
    <|> (do comment; lineEnd; return .blank)
    <|> (do
      exactly "[["
      let path ← key
      exactly "]]"
      lineEnd
      return .elementHeader path)
    <|> (do
      char '['
      let path ← key
      char ']'
      lineEnd
      return .header path)
    <|> (do
      let (path, value) ← keyValue (value maxDepth)
      lineEnd
      return .pair path value)

/-- The lines of a document, which may start with a byte order mark. -/
def lines : Reader (List Line) := do
  let _ ← optionally (char '\ufeff')
  let lines ← many line
  blanks
  return lines

/-- A header with the pairs below it. -/
structure Section where
  header : Line
  pairs : List (List String × Value)
  deriving Repr

/-- The pairs before the first header, and the headers with theirs. -/
def sections : List Line → List (List String × Value) × List Section
  | [] => ([], [])
  | .blank :: rest => sections rest
  | .pair path value :: rest =>
    let (pairs, later) := sections rest
    ((path, value) :: pairs, later)
  | header :: rest =>
    let (pairs, later) := sections rest
    ([], ⟨header, pairs⟩ :: later)

/-- Lays a section into the document. -/
def addSection (entries : Entries) (part : Section) : Option Entries :=
  match part.header with
  | .header path => entries.addTable path part.pairs
  | .elementHeader path => entries.addElement path part.pairs
  | _ => none

def parse? (text : String) : Option Entries := do
  let lines ← lines.run? text
  let (pairs, later) := sections lines
  let entries ← Entries.addAll [] pairs
  later.foldlM addSection entries

end AliasCatalog.Toml
