import AliasCatalog.Json.Value
import AliasCatalog.Text.Hex

/-!
# Writing JSON

Values are written compactly, without any blank, or pretty, with two spaces for each level.  In a
string the quote, the backslash and the control characters are escaped and all else stands as it is.
-/

namespace AliasCatalog.Json

open Text

/-- A character as it is written in a string. -/
def escapeChar (c : Char) : List Char :=
  if c = '"' then ['\\', '"']
  else if c = '\\' then ['\\', '\\']
  else if c = '\x08' then ['\\', 'b']
  else if c = '\x0c' then ['\\', 'f']
  else if c = '\n' then ['\\', 'n']
  else if c = '\r' then ['\\', 'r']
  else if c = '\t' then ['\\', 't']
  else if c.toNat < 0x20 then
    ['\\', 'u', '0', '0', hexDigit (c.toNat / 16), hexDigit (c.toNat % 16)]
  else [c]

def quote (text : String) : String :=
  String.ofList ('"' :: text.toList.flatMap escapeChar ++ ['"'])

def Number.text : Number → String
  | integer value => toString value
  | decimal literal => literal

mutual

/-- A value without blanks. -/
def Value.compact : Value → String
  | .null => "null"
  | .bool true => "true"
  | .bool false => "false"
  | .number value => value.text
  | .string text => quote text
  | .array items => "[" ++ compactItems items ++ "]"
  | .object members => "\x7b" ++ compactMembers members ++ "\x7d"

/-- The items of an array with commas between them. -/
def compactItems : List Value → String
  | [] => ""
  | [item] => item.compact
  | item :: rest => item.compact ++ "," ++ compactItems rest

/-- The members of an object with commas between them. -/
def compactMembers : List (String × Value) → String
  | [] => ""
  | [(key, value)] => quote key ++ ":" ++ value.compact
  | (key, value) :: rest => quote key ++ ":" ++ value.compact ++ "," ++ compactMembers rest

end

/-- The start of a line at a level. -/
def newLine (level : Nat) : String :=
  "\n" ++ String.ofList (List.replicate (2 * level) ' ')

mutual

/-- A value on lines of its own, at a level of indentation. -/
def Value.pretty (level : Nat) : Value → String
  | .array (item :: rest) =>
    "[" ++ newLine (level + 1) ++ item.pretty (level + 1) ++ prettyItems (level + 1) rest
      ++ newLine level ++ "]"
  | .object ((key, value) :: rest) =>
    "\x7b" ++ newLine (level + 1) ++ quote key ++ ": " ++ value.pretty (level + 1)
      ++ prettyMembers (level + 1) rest ++ newLine level ++ "\x7d"
  | .array [] => "[]"
  | .object [] => "\x7b\x7d"
  | .string text => quote text
  | .number value => value.text
  | .bool true => "true"
  | .bool false => "false"
  | .null => "null"

/-- The items after the first, each on a line of its own. -/
def prettyItems (level : Nat) : List Value → String
  | [] => ""
  | item :: rest => "," ++ newLine level ++ item.pretty level ++ prettyItems level rest

/-- The members after the first, each on a line of its own. -/
def prettyMembers (level : Nat) : List (String × Value) → String
  | [] => ""
  | (key, value) :: rest =>
    "," ++ newLine level ++ quote key ++ ": " ++ value.pretty level ++ prettyMembers level rest

end

end AliasCatalog.Json
