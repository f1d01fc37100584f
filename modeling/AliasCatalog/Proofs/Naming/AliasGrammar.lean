import AliasCatalog.Naming.Error
import AliasCatalog.Proofs.Naming.Reading

/-!
# The grammar of aliases

An alias is a segment, or a segment, a dot and an alias; a segment is written with ASCII letters, digits,
hyphens and underscores and has a letter or a digit.  The reader of aliases accepts exactly what this
grammar produces and keeps all of it, and what it says of any other text is said of the first part that
is no segment (`parseAlias_exact`).
-/

namespace AliasCatalog.Naming

/-! ## The grammar -/

/-- An ASCII letter or digit. -/
def LetterOrDigit (c : Char) : Prop :=
  ('a' ≤ c ∧ c ≤ 'z') ∨ ('A' ≤ c ∧ c ≤ 'Z') ∨ ('0' ≤ c ∧ c ≤ '9')

/-- A letter, a digit or a separator. -/
def InAlphabet (c : Char) : Prop :=
  LetterOrDigit c ∨ c = '-' ∨ c = '_'

/-- A text over the alphabet with a letter or a digit; so it is not empty. -/
structure SegmentText (text : List Char) : Prop where
  alphabet : ∀ c ∈ text, InAlphabet c
  letter : ∃ c ∈ text, LetterOrDigit c

/-- Segments with single dots between them. -/
inductive AliasText : List Char → Prop where
  | segment {text : List Char} (first : SegmentText text) : AliasText text
  | dot {text rest : List Char} (first : SegmentText text) (more : AliasText rest) :
      AliasText (text ++ '.' :: rest)

/-- What is said of a part at a position that is no segment: that it is empty, or else which of its
characters is the first outside the alphabet, or else that it consists of separators. -/
inductive PartFault (position : Nat) (part : String) : String → Prop where
  | empty (absent : part = "") : PartFault position part s!"segment {position} is empty"
  | badCharacter {front back : List Char} {c : Char} (split : part.toList = front ++ c :: back)
      (clean : ∀ d ∈ front, InAlphabet d) (bad : ¬ InAlphabet c) :
      PartFault position part
        s!"segment '{part}' contains '{c}' (allowed: letters, digits, '-', '_')"
  | blank (present : part ≠ "") (separators : ∀ c ∈ part.toList, c = '-' ∨ c = '_') :
      PartFault position part s!"segment '{part}' has no letters or digits"

/-- What is said of a text that is no alias: that it is empty, or what is wrong with its first part that
is no segment. -/
inductive AliasFault (text : String) : String → Prop where
  | empty (absent : text = "") : AliasFault text "name is empty"
  | part {before after : List String} {part report : String} (present : text ≠ "")
      (split : splitDots text = before ++ part :: after)
      (clean : ∀ other ∈ before, SegmentText other.toList)
      (fault : PartFault (before.length + 1) part report) : AliasFault text report

/-- The name has all of the text it was read from. -/
structure Keeps (text : String) (name : DottedName) : Prop where
  text_eq : name.text = text
  /-- Joining the segments gives the text back. -/
  joined : joinDots (name.segments.map (·.text)) = text
  valid : ∀ segment ∈ name.segments, SegmentText segment.text.toList
  dotless : ∀ segment ∈ name.segments, '.' ∉ segment.text.toList
  /-- There is one segment more than there are dots. -/
  depth_eq : name.depth = text.toList.count '.' + 1
  first_eq : name.segments.head? = some name.first
  last_eq : name.segments.getLast? = some name.last

/-! ## Segments -/

/-- The letters and digits of the grammar are the ASCII ones. -/
theorem letterOrDigit_iff {c : Char} : LetterOrDigit c ↔ c.isAlphanum = true := by
  have hupper : c.isUpper = true ↔ 'A' ≤ c ∧ c ≤ 'Z' := decide_eq_true_iff
  have hlower : c.isLower = true ↔ 'a' ≤ c ∧ c ≤ 'z' :=
    Bool.and_eq_true_iff.trans (and_congr decide_eq_true_iff decide_eq_true_iff)
  have hdigit : c.isDigit = true ↔ '0' ≤ c ∧ c ≤ '9' :=
    Bool.and_eq_true_iff.trans (and_congr decide_eq_true_iff decide_eq_true_iff)
  show LetterOrDigit c ↔ ((c.isUpper || c.isLower) || c.isDigit) = true
  rw [Bool.or_eq_true, Bool.or_eq_true, hupper, hlower, hdigit, LetterOrDigit, or_left_comm, or_assoc]

/-- The alphabet is that of the characters of segments. -/
theorem inAlphabet_iff {c : Char} : InAlphabet c ↔ isSegmentChar c = true := by
  simp only [InAlphabet, letterOrDigit_iff, isSegmentChar, Bool.or_eq_true, beq_iff_eq, or_assoc]

/-- The segments of the grammar are those that are read. -/
theorem segmentText_iff {text : String} : SegmentText text.toList ↔ isSegment text = true := by
  rw [isSegment, Bool.and_eq_true, List.all_eq_true, List.any_eq_true]
  constructor
  · rintro ⟨halphabet, c, hmem, hletter⟩
    exact ⟨fun d hd => inAlphabet_iff.mp (halphabet d hd), c, hmem, letterOrDigit_iff.mp hletter⟩
  · rintro ⟨halphabet, c, hmem, hletter⟩
    exact ⟨fun d hd => inAlphabet_iff.mpr (halphabet d hd), c, hmem, letterOrDigit_iff.mpr hletter⟩

/-- No segment has a dot in it. -/
theorem SegmentText.dot_notMem {text : List Char} (h : SegmentText text) : '.' ∉ text := by
  intro hmem
  exact absurd (inAlphabet_iff.mp (h.alphabet '.' hmem)) (by decide)

/-- The defect of a part that is no segment is what is wrong with it. -/
theorem partFault_of_parse {part : String} {defect : SegmentDefect}
    (h : Segment.parse part = .error defect) (position : Nat) :
    PartFault position part (NameDefect.segment position part defect).message := by
  unfold Segment.parse at h
  split at h
  · cases h
  · rename_i hvalid
    split at h
    · rename_i hempty
      cases h
      exact .empty (String.isEmpty_iff.mp hempty)
    · rename_i hempty
      have hne : part ≠ "" := fun heq => hempty (String.isEmpty_iff.mpr heq)
      split at h
      · rename_i c hfind
        cases h
        obtain ⟨hbad, front, back, hsplit, hclean⟩ := List.find?_eq_some_iff_append.mp hfind
        refine .badCharacter hsplit (fun d hd => inAlphabet_iff.mpr ?_) ?_
        · simpa using hclean d hd
        · rw [inAlphabet_iff]
          simpa using hbad
      · rename_i hfind
        cases h
        have halphabet : ∀ c ∈ part.toList, InAlphabet c := by
          intro c hc
          have hchar := List.find?_eq_none.mp hfind c hc
          exact inAlphabet_iff.mpr (by simpa using hchar)
        refine .blank hne fun c hc => (halphabet c hc).resolve_left fun hletter => ?_
        exact hvalid (segmentText_iff.mp ⟨halphabet, c, hc, hletter⟩)

/-! ## Parts -/

/-- A text has one part more than it has separators. -/
theorem length_splitOn (sep : Char) (text : List Char) :
    (text.splitOn sep).length = text.count sep + 1 := by
  rw [List.splitOn_eq_splitOnP]
  induction text with
  | nil => rfl
  | cons c rest ih =>
      rw [List.splitOnP_cons_eq_if_modifyHead, List.count_cons]
      split
      · rw [List.length_cons, ih]
      · rw [List.length_modifyHead, ih, Nat.add_zero]

/-- **The grammar looks at each part between the dots.**  A text is its parts with dots between them, so one
direction is by induction on the grammar and the other on the parts. -/
theorem aliasText_iff_splitOn {text : List Char} :
    AliasText text ↔ ∀ part ∈ text.splitOn '.', SegmentText part := by
  constructor
  · intro h
    induction h with
    | segment first =>
        rw [List.splitOn_eq_singleton first.dot_notMem]
        simpa using first
    | dot first more ih =>
        have hplain : ∀ c ∈ _, (c == '.') = false :=
          fun c hc => beq_false_of_ne fun heq => first.dot_notMem (heq ▸ hc)
        rw [List.splitOn_eq_splitOnP,
          List.splitOnP_append_cons_of_forall_mem hplain '.' (beq_self_eq_true '.')]
        exact List.forall_mem_cons.mpr ⟨first, ih⟩
  · intro h
    rw [← @List.intercalate_splitOn _ text _ _ '.']
    have hne : text.splitOn '.' ≠ [] := List.splitOnP_ne_nil _ _
    generalize text.splitOn '.' = parts at h hne
    induction parts with
    | nil => exact absurd rfl hne
    | cons part rest ih =>
        obtain ⟨hpart, hrest⟩ := List.forall_mem_cons.mp h
        cases rest with
        | nil => simpa using AliasText.segment hpart
        | cons next more =>
            have hmore := ih hrest (List.cons_ne_nil _ _)
            simpa using AliasText.dot hpart hmore

/-- The texts of the grammar are the accepted ones. -/
theorem aliasText_iff {text : String} : AliasText text.toList ↔ Accepted text := by
  have hparts : AliasText text.toList ↔ ∀ part ∈ splitDots text, isSegment part = true := by
    rw [aliasText_iff_splitOn, splitDots, List.forall_mem_map]
    refine forall_congr' fun part => forall_congr' fun _ => ?_
    rw [← segmentText_iff, String.toList_ofList]
  rw [hparts]
  constructor
  · exact accepted_of_isSegment
  · intro haccepted part hpart
    rw [← haccepted.texts_segmentsOf] at hpart
    obtain ⟨segment, _, rfl⟩ := List.mem_map.mp hpart
    exact segment.valid

/-! ## Reading -/

/-- The list of segments ends in the last one. -/
theorem DottedName.getLast?_segments (name : DottedName) :
    name.segments.getLast? = some name.last := by
  rw [segments, List.getLast?_cons, last]

/-- **A name that was read keeps its text.** -/
theorem keeps_of_parse {text : String} {name : DottedName}
    (h : DottedName.parse text = .ok name) : Keeps text name where
  text_eq := DottedName.text_parse h
  joined := DottedName.text_parse h
  valid segment _ := segmentText_iff.mpr segment.valid
  dotless segment _ := segment.dot_notMem
  depth_eq := by
    have hparts := congrArg List.length (DottedName.texts_of_parse h)
    rw [List.length_map, splitDots, List.length_map, length_splitOn] at hparts
    exact hparts
  first_eq := rfl
  last_eq := name.getLast?_segments

/-- The defect of some parts is that of the first which is no segment; a part that is one joins those before
it. -/
theorem exists_first_of_parseParts {position : Nat} {parts : List String} {defect : NameDefect}
    (h : DottedName.parseParts position parts = .error defect) :
    ∃ before part after, parts = before ++ part :: after ∧
      (∀ other ∈ before, SegmentText other.toList) ∧
      PartFault (position + before.length) part defect.message := by
  induction parts generalizing position with
  | nil => cases h
  | cons part rest ih =>
      unfold DottedName.parseParts at h
      cases hpart : Segment.parse part with
      | error found =>
          rw [hpart] at h
          cases h
          exact ⟨[], part, rest, rfl, by simp, partFault_of_parse hpart position⟩
      | ok segment =>
          rw [hpart] at h
          cases hrest : DottedName.parseParts (position + 1) rest with
          | ok others =>
              rw [hrest] at h
              cases h
          | error found =>
              rw [hrest] at h
              cases h
              obtain ⟨before, bad, after, rfl, hclean, hfault⟩ := ih hrest
              have hfirst : SegmentText part.toList := by
                rw [segmentText_iff, ← Segment.parse_eq_ok_iff.mp hpart]
                exact segment.valid
              refine ⟨part :: before, bad, after, rfl, List.forall_mem_cons.mpr ⟨hfirst, hclean⟩, ?_⟩
              rw [List.length_cons, ← Nat.add_assoc, Nat.add_right_comm]
              exact hfault

/-- What is said of a text that is refused is what is wrong with it. -/
theorem aliasFault_of_parse {text : String} {defect : NameDefect}
    (h : DottedName.parse text = .error defect) : AliasFault text defect.message := by
  unfold DottedName.parse at h
  split at h
  · rename_i hempty
    cases h
    exact .empty (String.isEmpty_iff.mp hempty)
  · rename_i hempty
    split at h
    · cases h
    · rename_i hparts
      have hnone := DottedName.texts_of_parseParts hparts
      exact absurd hnone.symm (splitDots_ne_nil text)
    · rename_i found hparts
      cases h
      obtain ⟨before, part, after, hsplit, hclean, hfault⟩ := exists_first_of_parseParts hparts
      rw [Nat.add_comm] at hfault
      exact .part (fun heq => hempty (String.isEmpty_iff.mpr heq)) hsplit hclean hfault

/-- **Aliases are read exactly as the grammar has them.**  A text is read when the grammar produces it,
and the name then keeps all of the text; any other text is invalid under its kind, with the fault of its
first part that is no segment for the reason. -/
theorem parseAlias_exact (kind : Kind) (text : String) :
    ((∃ name, DottedName.parseAlias kind text = .ok name) ↔ AliasText text.toList) ∧
    (∀ name, DottedName.parseAlias kind text = .ok name → Keeps text name) ∧
    (¬ AliasText text.toList → ∃ reason,
      DottedName.parseAlias kind text = .error (.invalidName kind text reason) ∧
        AliasFault text reason.message) := by
  rw [aliasText_iff, DottedName.parseAlias]
  cases hread : DottedName.parse text with
  | ok name =>
      refine ⟨⟨fun _ => ⟨name, hread⟩, fun _ => ⟨name, rfl⟩⟩, ?_, fun hnot => absurd ⟨name, hread⟩ hnot⟩
      intro found hfound
      cases hfound
      exact keeps_of_parse hread
  | error defect =>
      have hrefused := not_accepted_iff.mpr ⟨defect, hread⟩
      refine ⟨⟨?_, fun haccepted => absurd haccepted hrefused⟩, ?_, fun _ => ?_⟩
      · rintro ⟨name, hname⟩
        cases hname
      · intro name hname
        cases hname
      · exact ⟨.malformed defect, rfl, aliasFault_of_parse hread⟩

end AliasCatalog.Naming
