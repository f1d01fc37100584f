import AliasCatalog.Json.Number
import AliasCatalog.Text.Hex
import AliasCatalog.Text.Reader
import AliasCatalog.Toml.Value

/-!
# TOML scalars

Strings in their four forms, integers, floats, booleans, and dates and times, after the grammar of
TOML 1.0.  Integers have to fit in 64 bits, and a positive float may not round to infinity.
-/

namespace AliasCatalog.Toml

open Text Text.Reader

/-- A blank within a line. -/
def isBlank (c : Char) : Bool :=
  c == ' ' || c == '\t'

def blanks : Reader Unit := do
  let _ ← takeWhile isBlank

def newline : Reader Unit :=
  char '\n' <|> exactly "\r\n"

/-- A character that may stand in a comment or a literal string. -/
def isText (c : Char) : Bool :=
  c == '\t' || (0x20 ≤ c.toNat && c.toNat != 0x7f)

/-! ## Strings -/

/-- A character that may stand in a basic string as it is. -/
def isBasic (c : Char) : Bool :=
  isText c && c != '"' && c != '\\'

/-- A character given by a number of hexadecimal digits; it has to be a Unicode scalar value. -/
def scalarValue (count : Nat) : Reader Char := do
  let digits ← (List.replicate count ()).mapM fun _ => satisfy fun c => (hexValue? c).isSome
  match ofHexDigits? digits with
  | some code => if code.isValidChar then return Char.ofNat code else failure
  | none => failure

/-- An escape, after the backslash. -/
def escape : Reader Char := do
  let c ← satisfy fun _ => true
  match c with
  | 'b' => return '\x08'
  | 't' => return '\t'
  | 'n' => return '\n'
  | 'f' => return '\x0c'
  | 'r' => return '\r'
  | '"' => return '"'
  | '\\' => return '\\'
  | 'u' => scalarValue 4
  | 'U' => scalarValue 8
  | _ => failure

/-- A string in double quotes on one line. -/
def basicString : Reader String := do
  char '"'
  let chars ← many (satisfy isBasic <|> (char '\\' *> escape))
  char '"'
  return String.ofList chars

/-- A string in single quotes on one line. -/
def literalString : Reader String := do
  char '\''
  let chars ← takeWhile fun c => isText c && c != '\''
  char '\''
  return String.ofList chars

/-- One or two quotes within a string that three quotes end. -/
def innerQuotes (quote : Char) : Reader (List Char) := do
  let run ← takeWhile1 (· == quote)
  if run.length < 3 then return run else failure

/-- The quotes that end a string over several lines: three, and up to two that belong to it. -/
def closingQuotes (quote : Char) : Reader (List Char) := do
  let run ← takeWhile1 (· == quote)
  if 3 ≤ run.length ∧ run.length ≤ 5 then return run.drop 3 else failure

/-- A backslash at the end of a line, with the blanks and line ends after it. -/
def lineContinuation : Reader (List Char) := do
  char '\\'
  blanks
  newline
  let _ ← many (newline <|> (do let _ ← satisfy isBlank))
  return []

/-- A string over several lines with the given quote and pieces. -/
def multiline (quote : Char) (piece : Reader (List Char)) : Reader String := do
  exactly (String.ofList [quote, quote, quote])
  let _ ← optionally newline
  let pieces ← many ((do newline; return ['\n']) <|> innerQuotes quote <|> piece)
  let last ← closingQuotes quote
  return String.ofList (pieces.flatten ++ last)

/-- A string in any of the four forms. -/
def string : Reader String :=
  multiline '"'
      ((do let c ← satisfy isBasic; return [c]) <|> lineContinuation
        <|> (do char '\\'; let c ← escape; return [c]))
    <|> multiline '\'' (do let c ← satisfy fun c => isText c && c != '\''; return [c])
    <|> basicString <|> literalString

/-! ## Numbers -/

/-- Digits with single underscores between them. -/
def groupedDigits (isDigit : Char → Bool) : Reader (List Char) := do
  let first ← satisfy isDigit
  let rest ← many ((char '_' *> satisfy isDigit) <|> satisfy isDigit)
  return first :: rest

/-- A sign, if there is one: is it a minus. -/
def sign : Reader (Option Bool) :=
  optionally ((· == '-') <$> satisfy fun c => c == '+' || c == '-')

/-- The digits of a decimal integer: a leading zero stands alone. -/
def decimalDigits : Reader (List Char) :=
  (do let c ← satisfy (· == '0'); return [c]) <|> groupedDigits Char.isDigit

/-- The value of digits in a base. -/
def ofBase (base : Nat) (digits : List Char) : Nat :=
  digits.foldl (fun n c => base * n + (hexValue? c).getD 0) 0

/-- An integer in a base other than ten, which has no sign. -/
def basedInteger (mark : String) (base : Nat) : Reader Int := do
  exactly mark
  let digits ← groupedDigits fun c => (hexValue? c).any (· < base)
  return ofBase base digits

def decimalInteger : Reader Int := do
  let negative ← sign
  let digits ← decimalDigits
  return if negative == some true then -(ofBase 10 digits) else ofBase 10 digits

/-- An integer that fits in 64 bits with a sign. -/
def integer : Reader Int := do
  let value ← basedInteger "0x" 16 <|> basedInteger "0o" 8 <|> basedInteger "0b" 2
    <|> decimalInteger
  if -9223372036854775808 ≤ value ∧ value ≤ 9223372036854775807 then return value else failure

/-- The exponent of a float: is it negative, and its digits. -/
def exponent : Reader (Bool × List Char) := do
  let _ ← satisfy fun c => c == 'e' || c == 'E'
  let negative ← sign
  let digits ← groupedDigits Char.isDigit
  return (negative == some true, digits)

/-- Does `digits · 10 ^ power` round to infinity in binary64?  Numbers below one and numbers with
more than 400 places are told from their size alone. -/
def roundsToInfinity (digits : Nat) (power : Int) : Bool :=
  if digits = 0 then false
  else if power < 0 then
    if Nat.log2 digits < power.natAbs then false
    else Json.binary64Overflow * Nat.pow 10 power.natAbs ≤ digits
  else if 400 < power then true
  else Json.binary64Overflow ≤ digits * Nat.pow 10 power.toNat

/-- A float with a fraction or an exponent. -/
def pointFloat : Reader String := do
  let negative ← sign
  let whole ← decimalDigits
  let fraction ← optionally (char '.' *> groupedDigits Char.isDigit)
  let power ← optionally exponent
  if fraction.isNone && power.isNone then failure
  let fraction := fraction.getD []
  let (down, digits) := power.getD (false, [])
  let stated : Int := if down then -(ofBase 10 digits) else ofBase 10 digits
  if negative != some true
      && roundsToInfinity (ofBase 10 (whole ++ fraction)) (stated - fraction.length) then
    failure
  return String.ofList ((if negative == some true then ['-'] else []) ++ whole ++ '.' :: fraction
    ++ 'e' :: (if down then ['-'] else []) ++ digits)

/-- A float given by name. -/
def namedFloat : Reader String := do
  let _ ← sign
  (do exactly "inf"; return "inf") <|> (do exactly "nan"; return "nan")

/-! ## Dates and times -/

/-- A number of decimal digits, as a number in a range. -/
def fixedNumber (count low high : Nat) : Reader Nat := do
  let digits ← (List.replicate count ()).mapM fun _ => satisfy Char.isDigit
  let value := ofBase 10 digits
  if low ≤ value ∧ value ≤ high then return value else failure

/-- The number of days of a month. -/
def daysInMonth (year month : Nat) : Nat :=
  if month = 2 then
    if year % 4 = 0 ∧ (year % 100 ≠ 0 ∨ year % 400 = 0) then 29 else 28
  else if month = 4 ∨ month = 6 ∨ month = 9 ∨ month = 11 then 30
  else 31

def date : Reader Unit := do
  let year ← fixedNumber 4 0 9999
  char '-'
  let month ← fixedNumber 2 1 12
  char '-'
  let _ ← fixedNumber 2 1 (daysInMonth year month)

def time : Reader Unit := do
  let _ ← fixedNumber 2 0 23
  char ':'
  let _ ← fixedNumber 2 0 59
  char ':'
  let _ ← fixedNumber 2 0 60
  let _ ← optionally (char '.' *> takeWhile1 Char.isDigit)

/-- The distance of a time from universal time. -/
def offset : Reader Unit :=
  (do let _ ← satisfy fun c => c == 'Z' || c == 'z')
    <|> (do
      let _ ← satisfy fun c => c == '+' || c == '-'
      let _ ← fixedNumber 2 0 23
      char ':'
      let _ ← fixedNumber 2 0 59)

/-- A date with or without a time, or a time. -/
def moment : Reader Unit :=
  (do
    date
    let _ ← optionally do
      let _ ← satisfy fun c => c == 'T' || c == 't' || c == ' '
      time
      optionally offset)
    <|> time

/-! ## All scalars -/

/-- The value of a reader together with the text it took. -/
def taken (reader : Reader Unit) : Reader String :=
  fun text => do
    let (_, rest) ← reader text
    return (String.ofList (text.take (text.length - rest.length)), rest)

/-- A value that holds no others. -/
def scalar : Reader Value :=
  (.string <$> string) <|> (.moment <$> taken moment) <|> (.float <$> pointFloat)
    <|> (.integer <$> integer) <|> (.float <$> namedFloat)
    <|> (do exactly "true"; return .boolean true) <|> (do exactly "false"; return .boolean false)

end AliasCatalog.Toml
