/-!
# Readers

A reader takes characters from the front of a text and yields a value, or fails.  It backtracks: the
second of two alternatives starts where the first did.  Repetition ends when the repeated reader
fails, and at the latest after as many rounds as the text has characters.
-/

namespace AliasCatalog.Text

/-- A reader of an `α` from the front of a text. -/
abbrev Reader (α : Type) := StateT (List Char) Option α

namespace Reader

variable {α β : Type}

/-- The next character, if it satisfies `p`. -/
def satisfy (p : Char → Bool) : Reader Char
  | c :: rest => if p c then some (c, rest) else none
  | [] => none

/-- One given character. -/
def char (c : Char) : Reader Unit := do
  let _ ← satisfy (· == c)

/-- The characters of a given text, one after the other. -/
def exactly (text : String) : Reader Unit :=
  text.toList.forM char

/-- The longest run of characters that satisfy `p`, possibly empty. -/
def takeWhile (p : Char → Bool) : Reader (List Char) :=
  fun text => some (text.takeWhile p, text.dropWhile p)

/-- The longest run of characters that satisfy `p`, which must not be empty. -/
def takeWhile1 (p : Char → Bool) : Reader (List Char) := do
  let first ← satisfy p
  let rest ← takeWhile p
  return first :: rest

/-- Succeeds at the end of the text only. -/
def eof : Reader Unit
  | [] => some ((), [])
  | _ :: _ => none

/-- Yields `none` without moving where the reader fails. -/
def optionally (reader : Reader α) : Reader (Option α) :=
  (some <$> reader) <|> pure none

/-- Succeeds without moving where the text goes on with a character that satisfies `p`. -/
def lookingAt (p : Char → Bool) : Reader Unit
  | c :: rest => if p c then some ((), c :: rest) else none
  | [] => none

/-- Repeats a reader at most once for each character of `bound`; `done` are the values before, the
latest first. -/
def repeatWithin (reader : Reader α) (done : List α) :
    (bound text : List Char) → List α × List Char
  | [], text => (done.reverse, text)
  | _ :: bound, text =>
    match reader text with
    | some (value, rest) => repeatWithin reader (value :: done) bound rest
    | none => (done.reverse, text)

/-- Repeats a reader until it fails. -/
def many (reader : Reader α) : Reader (List α) :=
  fun text => some (repeatWithin reader [] text text)

/-- One or more items with a separator between each two. -/
def sepBy1 (item : Reader α) (separator : Reader β) : Reader (List α) := do
  let first ← item
  let rest ← many (separator *> item)
  return first :: rest

/-- Runs a reader on a whole text. -/
def run? (reader : Reader α) (text : String) : Option α :=
  ((reader <* eof).run text.toList).map (·.1)

end Reader

end AliasCatalog.Text
