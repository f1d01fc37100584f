import AliasCatalog.Naming.Segment

/-!
# Dotted names

An alias is one or more segments with single dots between them.  `DottedName.parse` keeps every
character of the text it reads (`text_parse`).
-/

namespace AliasCatalog.Naming

/-- The parts of a text between its dots; a text without dots is one part. -/
def splitDots (text : String) : List String :=
  (text.toList.splitOn '.').map String.ofList

/-- The parts with a dot between each two. -/
def joinDots (parts : List String) : String :=
  ".".intercalate parts

/-- Joining the parts of a text gives the text back. -/
@[simp] theorem joinDots_splitDots (text : String) : joinDots (splitDots text) = text := by
  apply String.toList_inj.mp
  simp [joinDots, splitDots, String.toList_intercalate, Function.comp_def,
    List.intercalate_splitOn]

/-- A text has at least one part. -/
theorem splitDots_ne_nil (text : String) : splitDots text ≠ [] := by
  simp [splitDots, List.splitOn, List.splitOnP_ne_nil]

/-- What keeps a text from being a dotted name. -/
inductive NameDefect where
  /-- The text is empty. -/
  | empty
  /-- The part at a position, counted from one, is no segment. -/
  | segment (position : Nat) (text : String) (defect : SegmentDefect)
  deriving DecidableEq, Repr

/-- What is said of a defect of a name. -/
def NameDefect.message : NameDefect → String
  | empty => "name is empty"
  | segment position _ .empty => s!"segment {position} is empty"
  | segment _ text (.badCharacter c) =>
    s!"segment '{text}' contains '{c}' (allowed: letters, digits, '-', '_')"
  | segment _ text .blank => s!"segment '{text}' has no letters or digits"

/-- A validated alias: its segments, at least one. -/
structure DottedName where
  first : Segment
  rest : List Segment
  deriving DecidableEq, Repr

namespace DottedName

/-- The segments of a name, from the left. -/
def segments (name : DottedName) : List Segment :=
  name.first :: name.rest

/-- The name as text. -/
def text (name : DottedName) : String :=
  joinDots (name.segments.map (·.text))

/-- The last segment. -/
def last (name : DottedName) : Segment :=
  name.rest.getLast?.getD name.first

/-- The number of segments. -/
def depth (name : DottedName) : Nat :=
  name.segments.length

/-- Reads the parts of a name from `position` on, up to the first that is no segment. -/
def parseParts (position : Nat) : List String → Except NameDefect (List Segment)
  | [] => .ok []
  | part :: rest =>
    match Segment.parse part with
    | .error defect => .error (.segment position part defect)
    | .ok segment =>
      match parseParts (position + 1) rest with
      | .error defect => .error defect
      | .ok others => .ok (segment :: others)

/-- Reads a dotted name, or names the first defect from the left. -/
def parse (text : String) : Except NameDefect DottedName :=
  if text.isEmpty then .error .empty
  else
    match parseParts 1 (splitDots text) with
    | .ok (first :: rest) => .ok ⟨first, rest⟩
    | .ok [] => .error .empty
    | .error defect => .error defect

/-- A segment that was read has the text it was read from. -/
theorem text_of_parse_segment {part : String} {segment : Segment}
    (read : Segment.parse part = .ok segment) : segment.text = part := by
  unfold Segment.parse at read
  split at read
  · cases read; rfl
  · split at read
    · cases read
    · split at read <;> cases read

/-- The segments that were read have the texts of the parts. -/
theorem texts_of_parseParts {position : Nat} {parts : List String} {segments : List Segment}
    (read : parseParts position parts = .ok segments) : segments.map (·.text) = parts := by
  induction parts generalizing position segments with
  | nil => cases read; rfl
  | cons part rest ih =>
    unfold parseParts at read
    cases head : Segment.parse part with
    | error defect => simp [head] at read
    | ok segment =>
      cases tail : parseParts (position + 1) rest with
      | error defect => simp [head, tail] at read
      | ok others =>
        simp only [head, tail, Except.ok.injEq] at read
        subst read
        simp [text_of_parse_segment head, ih tail]

/-- **Nothing is lost.**  A name that was read has the text it was read from. -/
theorem text_parse {text : String} {name : DottedName} (read : parse text = .ok name) :
    name.text = text := by
  unfold parse at read
  split at read
  · cases read
  · split at read
    · rename_i first rest parts
      cases read
      have texts := texts_of_parseParts parts
      simp [DottedName.text, segments, texts]
    · cases read
    · cases read

end DottedName

end AliasCatalog.Naming
