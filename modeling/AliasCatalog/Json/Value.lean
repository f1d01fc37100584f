import AliasCatalog.Json.Number

/-!
# JSON values

Objects keep their members in order, repeated keys included, so that a reader of records can tell
whether a key it knows was given twice.
-/

namespace AliasCatalog.Json

inductive Value where
  | null
  | bool (value : Bool)
  | number (value : Number)
  | string (text : String)
  | array (items : List Value)
  | object (members : List (String × Value))
  deriving Repr

namespace Value

def nat (n : Nat) : Value :=
  .number (.integer n)

/-- A text, or null. -/
def text? : Option String → Value
  | some text => .string text
  | none => .null

def texts (items : List String) : Value :=
  .array (items.map .string)

end Value

/-- The members of a record: one with a text under each key that has one. -/
def optionalMember (key : String) : Option String → List (String × Value)
  | some text => [(key, .string text)]
  | none => []

/-- The value under a key that may occur at most once: the outer `none` stands for a repeated key,
the inner one for an absent key. -/
def member (key : String) (members : List (String × Value)) : Option (Option Value) :=
  match members.filter (·.1 == key) with
  | [] => some none
  | [(_, value)] => some (some value)
  | _ => none

/-- The text under a key that has to be there. -/
def requiredText (key : String) (members : List (String × Value)) : Option String :=
  match member key members with
  | some (some (.string text)) => some text
  | _ => none

/-- The text under a key that may be absent or null; the outer `none` stands for anything else. -/
def optionalText (key : String) (members : List (String × Value)) : Option (Option String) :=
  match member key members with
  | some none => some none
  | some (some .null) => some none
  | some (some (.string text)) => some (some text)
  | _ => none

/-- The texts of an array of texts. -/
def textItems : List Value → Option (List String)
  | [] => some []
  | .string text :: rest => (textItems rest).map (text :: ·)
  | _ :: _ => none

/-- The list of texts under a key; `absent` is what a missing key stands for. -/
def textList (key : String) (absent : Option (List String)) (members : List (String × Value)) :
    Option (List String) :=
  match member key members with
  | some none => absent
  | some (some (.array items)) => textItems items
  | _ => none

/-- The natural number under a key that has to be there. -/
def requiredNat (key : String) (members : List (String × Value)) : Option Nat :=
  match member key members with
  | some (some (.number (.integer (.ofNat n)))) => some n
  | _ => none

/-- The members of a record given as an object, or as an array of its first fields in order. -/
def recordMembers (keys : List String) : Value → Option (List (String × Value))
  | .object members => some members
  | .array items => if items.length ≤ keys.length then some (keys.zip items) else none
  | _ => none

end AliasCatalog.Json
