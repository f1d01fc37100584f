import AliasCatalog.Text.CaseTable

/-!
# Letter case

Two notions of case live side by side.  Words are capitalised with the full Unicode mapping, which
may turn one character into several (`ß` becomes `SS`).  Names are compared after folding the ASCII
letters only, so that no other character is ever identified with a letter of the alphabet.

On ASCII characters the full mapping agrees with the ASCII one: `uppercase_ascii`,
`lowercase_ascii`.
-/

namespace AliasCatalog.Text

namespace CaseRun

/-- The run contains the code point `code`. -/
def contains (run : CaseRun) (code : Nat) : Bool :=
  run.first ≤ code && code ≤ run.last && (code - run.first) % run.step == 0

/-- The other form of a character of the run. -/
def shift (run : CaseRun) (c : Char) : Char :=
  Char.ofNat ((c.toNat : Int) + run.offset).toNat

end CaseRun

/-- The run of `code` in a table ordered by the runs' first characters. -/
def findRun (code : Nat) : List CaseRun → Option CaseRun
  | [] => none
  | run :: rest =>
    if code < run.first then none
    else if run.contains code then some run
    else findRun code rest

/-- The longer form of `c` in a table ordered by the characters it expands. -/
def findExpansion (c : Char) : List (Char × String) → Option String
  | [] => none
  | (d, form) :: rest =>
    if c.toNat < d.toNat then none
    else if c = d then some form
    else findExpansion c rest

/-- The form of `c` given by the expansions, else by the runs, else `c` itself. -/
def mapCase (expansions : List (Char × String)) (runs : List CaseRun) (c : Char) : List Char :=
  match findExpansion c expansions with
  | some form => form.toList
  | none =>
    match findRun c.toNat runs with
    | some run => [run.shift c]
    | none => [c]

/-- The full uppercase form of a character. -/
def uppercase (c : Char) : List Char :=
  mapCase uppercaseExpansions uppercaseRuns c

/-- The full lowercase form of a character. -/
def lowercase (c : Char) : List Char :=
  mapCase lowercaseExpansions lowercaseRuns c

/-- The word with its first character in uppercase and the rest untouched. -/
def capitalizeChars : List Char → List Char
  | [] => []
  | c :: rest => uppercase c ++ rest

/-- The word with its first character in lowercase and the rest untouched. -/
def decapitalizeChars : List Char → List Char
  | [] => []
  | c :: rest => lowercase c ++ rest

/-- The text with its first character in uppercase (`ui` becomes `Ui`). -/
def capitalize (text : String) : String :=
  String.ofList (capitalizeChars text.toList)

/-- The text with `A` to `Z` replaced by `a` to `z` and every other character kept. -/
def foldCase (text : String) : String :=
  text.map Char.toLower

@[simp] theorem toList_capitalize (text : String) :
    (capitalize text).toList = capitalizeChars text.toList := by
  simp [capitalize]

/-- A text is folded character by character. -/
@[simp] theorem toList_foldCase (text : String) :
    (foldCase text).toList = text.toList.map Char.toLower := by
  simp [foldCase]

/-- The full uppercase form of an ASCII character is its ASCII uppercase form. -/
theorem uppercase_ascii : ∀ code < 128,
    uppercase (Char.ofNat code) = [(Char.ofNat code).toUpper] := by
  decide +kernel

/-- The full lowercase form of an ASCII character is its ASCII lowercase form. -/
theorem lowercase_ascii : ∀ code < 128,
    lowercase (Char.ofNat code) = [(Char.ofNat code).toLower] := by
  decide +kernel

end AliasCatalog.Text
