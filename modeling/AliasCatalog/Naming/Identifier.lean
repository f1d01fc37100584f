import AliasCatalog.Text.Case

/-!
# Identifiers

A raw alias segment (`activity-compose`, `Material3`) becomes a camelCase identifier that is a bare
name in any accessor syntax.  The segment is cut into words at hyphens and underscores; the first
word starts in lowercase, each later one in uppercase, and a leading digit is shielded by a `v`.

Identifiers are compared by their `key`, which forgets the case of ASCII letters.
`normalize_eq_none_iff` says that only a segment made of separators has no identifier.
-/

namespace AliasCatalog.Naming

open Text

/-- A character that separates the words of a segment. -/
def isWordSeparator (c : Char) : Bool :=
  c == '-' || c == '_'

/-- The words of a segment: its parts between separators, empty ones dropped. -/
def words (segment : List Char) : List (List Char) :=
  (segment.splitOnP isWordSeparator).filter (!·.isEmpty)

/-- The words run together in camelCase. -/
def camelCase : List (List Char) → List Char
  | [] => []
  | first :: rest => decapitalizeChars first ++ rest.flatMap capitalizeChars

/-- The text with a `v` in front when it starts with an ASCII digit. -/
def shieldDigit : List Char → List Char
  | [] => []
  | c :: rest => if c.isDigit then 'v' :: c :: rest else c :: rest

/-- The normal form of a segment over characters; `none` when the segment has no word. -/
def normalizeChars (segment : List Char) : Option (List Char) :=
  if (words segment).isEmpty then none else some (shieldDigit (camelCase (words segment)))

/-- The canonical accessor name of a namespace node. -/
structure Identifier where
  text : String
  deriving DecidableEq, Repr

namespace Identifier

/-- The form under which siblings are compared. -/
def key (identifier : Identifier) : String :=
  foldCase identifier.text

/-- The identifier with its first letter in uppercase (`ui` becomes `Ui`). -/
def capitalized (identifier : Identifier) : String :=
  capitalize identifier.text

/-- The getter-style accessor name (`junit` becomes `getJunit`). -/
def method (identifier : Identifier) : String :=
  "get" ++ identifier.capitalized

end Identifier

/-- The identifier of a raw segment, which may be any text; `none` when the segment has no word. -/
def normalize (segment : String) : Option Identifier :=
  (normalizeChars segment.toList).map fun chars => ⟨String.ofList chars⟩

/-- The key of a raw segment: two segments with equal keys may not be siblings, and a lookup finds
a child by its key. -/
def key? (segment : String) : Option String :=
  (normalize segment).map Identifier.key

/-- A text with a normal form has the key of this form. -/
theorem key?_of_normalize {segment : String} {identifier : Identifier}
    (h : normalize segment = some identifier) : key? segment = some identifier.key := by
  rw [key?, h, Option.map_some]

/-- Only texts without a normal form have no key. -/
theorem key?_eq_none_iff {segment : String} : key? segment = none ↔ normalize segment = none := by
  rw [key?, Option.map_eq_none_iff]

/-- A text has a word as soon as it has a character that is no separator. -/
theorem words_ne_nil {segment : List Char} {c : Char} (mem : c ∈ segment)
    (letter : isWordSeparator c = false) : words segment ≠ [] := by
  induction segment with
  | nil => simp at mem
  | cons d rest ih =>
    by_cases sep : isWordSeparator d
    · have other : c ≠ d := fun same => by simp [same, sep] at letter
      have : words rest ≠ [] := ih (by simpa [other] using mem)
      simpa [words, List.splitOnP_cons_eq_if_modifyHead, sep] using this
    · obtain ⟨head, tail, split⟩ := List.exists_cons_of_ne_nil
        (List.splitOnP_ne_nil isWordSeparator rest)
      simp [words, List.splitOnP_cons_eq_if_modifyHead, sep, split]

/-- A text made of separators has no word. -/
theorem words_eq_nil {segment : List Char} (blank : ∀ c ∈ segment, isWordSeparator c) :
    words segment = [] := by
  induction segment with
  | nil => simp [words]
  | cons d rest ih =>
    have : words rest = [] := ih fun c mem => blank c (by simp [mem])
    simpa [words, List.splitOnP_cons_eq_if_modifyHead, blank d (by simp)] using this

/-- **Only separators have no identifier.**  A segment lacks a normal form exactly when each of its
characters is a hyphen or an underscore. -/
theorem normalize_eq_none_iff {segment : String} :
    normalize segment = none ↔ ∀ c ∈ segment.toList, isWordSeparator c := by
  constructor
  · intro none c mem
    cases letter : isWordSeparator c with
    | true => rfl
    | false =>
      have := words_ne_nil mem letter
      simp [normalize, normalizeChars, this] at none
  · intro blank
    simp [normalize, normalizeChars, words_eq_nil blank]

end AliasCatalog.Naming
