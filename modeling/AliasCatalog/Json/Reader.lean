import AliasCatalog.Json.Value
import AliasCatalog.Text.Hex
import AliasCatalog.Text.Reader

/-!
# Reading JSON

The grammar is that of RFC 8259, with three limits: at most `maxDepth` arrays and objects may be open
at a time, a number has to be in the range of binary64, and an escaped surrogate has to be half of a
pair.
-/

namespace AliasCatalog.Json

open Text Text.Reader

/-- The number of arrays and objects that may be open at a time. -/
def maxDepth : Nat := 127

/-- A blank between tokens. -/
def isBlank (c : Char) : Bool :=
  c == ' ' || c == '\t' || c == '\n' || c == '\r'

/-- The blanks before a token. -/
def blanks : Reader Unit := do
  let _ ← takeWhile isBlank

/-! ## Strings -/

/-- A part of a string: a character as it stands, or an escaped code unit of UTF-16. -/
inductive Piece where
  | plain (c : Char)
  | unit (code : Nat)
  deriving DecidableEq, Repr

/-- A character that needs no escape. -/
def isPlain (c : Char) : Bool :=
  0x20 ≤ c.toNat && c != '"' && c != '\\'

/-- The character of a one-letter escape. -/
def shortEscape? : Char → Option Char
  | '"' => some '"'
  | '\\' => some '\\'
  | '/' => some '/'
  | 'b' => some '\x08'
  | 'f' => some '\x0c'
  | 'n' => some '\n'
  | 'r' => some '\r'
  | 't' => some '\t'
  | _ => none

/-- The part of a string after a backslash. -/
def escape : Reader Piece
  | 'u' :: a :: b :: c :: d :: rest => (ofHexDigits? [a, b, c, d]).map fun code => (.unit code, rest)
  | c :: rest => (shortEscape? c).map fun plain => (.plain plain, rest)
  | [] => none

/-- One part of a string. -/
def piece : Reader Piece
  | '\\' :: rest => escape rest
  | c :: rest => if isPlain c then some (.plain c, rest) else none
  | [] => none

/-- The characters of the parts; a surrogate has to be followed by its other half. -/
def joinPieces : List Piece → Option (List Char)
  | [] => some []
  | .plain c :: rest => (joinPieces rest).map (c :: ·)
  | [.unit code] =>
    if 0xD800 ≤ code ∧ code ≤ 0xDFFF then none else some [Char.ofNat code]
  | .unit code :: .plain c :: rest =>
    if 0xD800 ≤ code ∧ code ≤ 0xDFFF then none
    else (joinPieces rest).map fun others => Char.ofNat code :: c :: others
  | .unit high :: .unit low :: rest =>
    if 0xD800 ≤ high ∧ high ≤ 0xDBFF then
      if 0xDC00 ≤ low ∧ low ≤ 0xDFFF then
        (joinPieces rest).map
          (Char.ofNat (0x10000 + 0x400 * (high - 0xD800) + (low - 0xDC00)) :: ·)
      else none
    else if 0xDC00 ≤ high ∧ high ≤ 0xDFFF then none
    else (joinPieces (.unit low :: rest)).map (Char.ofNat high :: ·)

/-- A string in quotes. -/
def string : Reader String := do
  char '"'
  let pieces ← many piece
  char '"'
  match joinPieces pieces with
  | some chars => return String.ofList chars
  | none => failure

/-! ## Numbers -/

/-- One or more digits. -/
def digits : Reader (List Nat) := do
  let chars ← takeWhile1 Char.isDigit
  return chars.map fun c => c.toNat - '0'.toNat

/-- The digits before the point: a leading zero stands alone. -/
def wholeDigits : Reader (List Nat) := do
  let all ← digits
  match all with
  | 0 :: _ :: _ => failure
  | _ => return all

/-- The exponent of a number. -/
def exponent : Reader (Bool × List Nat) := do
  let _ ← satisfy fun c => c == 'e' || c == 'E'
  let sign ← optionally (satisfy fun c => c == '+' || c == '-')
  let digits ← digits
  return (sign == some '-', digits)

def number : Reader Number := do
  let sign ← optionally (char '-')
  let whole ← wholeDigits
  let point ← optionally (char '.')
  let fraction ← if point.isSome then some <$> digits else pure none
  let marked ← optionally (lookingAt fun c => c == 'e' || c == 'E')
  let exponent ← if marked.isSome then some <$> exponent else pure none
  match Literal.number? ⟨sign.isSome, whole, fraction, exponent⟩ with
  | some number => return number
  | none => failure

/-! ## Values -/

/-- A value that holds no others. -/
def scalar : Reader Value :=
  (do exactly "null"; return .null)
    <|> (do exactly "true"; return .bool true)
    <|> (do exactly "false"; return .bool false)
    <|> (.string <$> string)
    <|> (.number <$> number)

def array (item : Reader Value) : Reader Value := do
  char '['
  blanks
  let items ← optionally (sepBy1 (item <* blanks) (char ',' *> blanks))
  char ']'
  return .array (items.getD [])

def objectMember (item : Reader Value) : Reader (String × Value) := do
  let key ← string
  blanks
  char ':'
  blanks
  let value ← item
  return (key, value)

def object (item : Reader Value) : Reader Value := do
  char '\x7b'
  blanks
  let members ← optionally (sepBy1 (objectMember item <* blanks) (char ',' *> blanks))
  char '\x7d'
  return .object (members.getD [])

/-- A value in which at most `depth` arrays and objects are open at a time. -/
def value : (depth : Nat) → Reader Value
  | 0 => scalar
  | depth + 1 => scalar <|> array (value depth) <|> object (value depth)

def parse? (text : String) : Option Value :=
  (blanks *> value maxDepth <* blanks).run? text

end AliasCatalog.Json
