import AliasCatalog.Naming.Identifier

/-!
# Alias segments

A segment is one dot-free part of an alias: ASCII letters, digits, hyphens and underscores, with at
least one letter or digit.  The last condition is what gives every segment an identifier
(`normalize_text`).
-/

namespace AliasCatalog.Naming

open Text

/-- The characters that a segment may hold. -/
def isSegmentChar (c : Char) : Bool :=
  c.isAlphanum || c == '-' || c == '_'

/-- What keeps a text from being a segment. -/
inductive SegmentDefect where
  /-- It has no character at all. -/
  | empty
  /-- Its first character outside the alphabet. -/
  | badCharacter (c : Char)
  /-- It consists of separators. -/
  | blank
  deriving DecidableEq, Repr

def isSegment (text : String) : Bool :=
  text.toList.all isSegmentChar && text.toList.any Char.isAlphanum

structure Segment where
  text : String
  valid : isSegment text = true
  deriving DecidableEq, Repr

namespace Segment

/-- Reads a segment, or names its first defect: emptiness, then a bad character, then blankness. -/
def parse (text : String) : Except SegmentDefect Segment :=
  if valid : isSegment text then .ok ⟨text, valid⟩
  else if text.isEmpty then .error .empty
  else
    match text.toList.find? (!isSegmentChar ·) with
    | some c => .error (.badCharacter c)
    | none => .error .blank

/-- A letter or digit separates no words. -/
theorem isWordSeparator_of_isAlphanum {c : Char} (letter : c.isAlphanum) :
    isWordSeparator c = false := by
  cases sep : isWordSeparator c with
  | false => rfl
  | true =>
    simp only [isWordSeparator, Bool.or_eq_true, beq_iff_eq] at sep
    rcases sep with rfl | rfl <;> exact absurd letter (by decide)

/-- Every segment has an identifier. -/
theorem normalize_isSome (segment : Segment) : (normalize segment.text).isSome := by
  cases found : normalize segment.text with
  | some _ => rfl
  | none =>
    have blank := normalize_eq_none_iff.mp found
    have valid := segment.valid
    simp only [isSegment, Bool.and_eq_true, List.any_eq_true] at valid
    obtain ⟨c, mem, letter⟩ := valid.2
    exact absurd (blank c mem) (by simp [isWordSeparator_of_isAlphanum letter])

def identifier (segment : Segment) : Identifier :=
  (normalize segment.text).get segment.normalize_isSome

/-- The form under which a segment is looked up among its siblings. -/
def key (segment : Segment) : String :=
  segment.identifier.key

/-- The identifier of a segment is the normal form of its text. -/
@[simp] theorem normalize_text (segment : Segment) :
    normalize segment.text = some segment.identifier := by
  simp [identifier]

/-- The key of a segment is the key of its text. -/
@[simp] theorem key?_text (segment : Segment) : key? segment.text = some segment.key :=
  key?_of_normalize segment.normalize_text

end Segment

end AliasCatalog.Naming
