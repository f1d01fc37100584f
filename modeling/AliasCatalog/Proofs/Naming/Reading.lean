import AliasCatalog.Naming.DottedName

/-!
# Reading aliases

An alias is as good as its list of segments.  Printing segments with dots between them and reading
the text back gives the same segments (`parse_joinDots`), and an accepted text is the print of what
was read.  `segmentsOf` is the reading as a total function; what it returns for an accepted alias
has one segment for each part of the text (`texts_segmentsOf`).
-/

namespace AliasCatalog.Naming

namespace Segment

/-- A segment is told by its text. -/
theorem eq_of_text {a b : Segment} (h : a.text = b.text) : a = b := by
  cases a
  cases b
  cases h
  rfl

/-- A segment is read back from its text. -/
theorem parse_text (segment : Segment) : Segment.parse segment.text = .ok segment := by
  simp [Segment.parse, segment.valid]

/-- A text is read as a segment exactly when it is the segment's text. -/
theorem parse_eq_ok_iff {text : String} {segment : Segment} :
    Segment.parse text = .ok segment ↔ segment.text = text := by
  constructor
  · exact DottedName.text_of_parse_segment
  · intro heq
    subst heq
    exact segment.parse_text

/-- A segment has the characters of segments. -/
theorem isSegmentChar_of_mem (segment : Segment) :
    ∀ c ∈ segment.text.toList, isSegmentChar c = true := by
  have hvalid := segment.valid
  simp only [isSegment, Bool.and_eq_true, List.all_eq_true] at hvalid
  exact hvalid.1

/-- No segment has a dot in it, so a dotted name can be taken apart. -/
theorem dot_notMem (segment : Segment) : '.' ∉ segment.text.toList :=
  fun hmem => absurd (segment.isSegmentChar_of_mem '.' hmem) (by decide)

/-- No segment is empty. -/
theorem text_ne_empty (segment : Segment) : segment.text ≠ "" := by
  intro hempty
  have hvalid := segment.valid
  rw [hempty] at hvalid
  exact absurd hvalid (by decide)

end Segment

/-- Parts without dots fall apart again when they are printed with dots between them. -/
theorem splitDots_joinDots_of_dotless {parts : List String} (hne : parts ≠ [])
    (h : ∀ part ∈ parts, '.' ∉ part.toList) : splitDots (joinDots parts) = parts := by
  have hdots : ∀ part ∈ parts.map (·.toList), '.' ∉ part := by
    intro part hmem
    obtain ⟨text, htext, rfl⟩ := List.mem_map.mp hmem
    exact h text htext
  have hsplit := List.splitOn_intercalate '.' hdots (by simpa using hne)
  simp [splitDots, joinDots, String.toList_intercalate, Function.comp_def, hsplit]

/-- Segments printed with dots between them fall apart into their texts. -/
theorem splitDots_joinDots {path : List Segment} (hne : path ≠ []) :
    splitDots (joinDots (path.map (·.text))) = path.map (·.text) := by
  apply splitDots_joinDots_of_dotless (by simpa using hne)
  intro part hmem
  obtain ⟨segment, _, rfl⟩ := List.mem_map.mp hmem
  exact segment.dot_notMem

/-- Paths of segments with one printed form are equal, unless one of them is empty. -/
theorem eq_of_joinDots_eq {p q : List Segment} (hp : p ≠ []) (hq : q ≠ [])
    (h : joinDots (p.map (·.text)) = joinDots (q.map (·.text))) : p = q := by
  have htexts : p.map (·.text) = q.map (·.text) := by
    rw [← splitDots_joinDots hp, ← splitDots_joinDots hq, h]
  exact List.map_inj_right (fun _ _ => Segment.eq_of_text) |>.mp htexts

/-- The name of a path that is not empty is not empty. -/
theorem joinDots_ne_empty {path : List Segment} (hne : path ≠ []) :
    joinDots (path.map (·.text)) ≠ "" := by
  intro hempty
  have hparts := splitDots_joinDots hne
  rw [hempty] at hparts
  cases path with
  | nil => exact hne rfl
  | cons first rest => exact first.text_ne_empty (List.cons.inj hparts).1.symm

namespace DottedName

/-- Parts that are the texts of segments are read as these. -/
theorem parseParts_texts (position : Nat) (path : List Segment) :
    parseParts position (path.map (·.text)) = .ok path := by
  induction path generalizing position with
  | nil => rfl
  | cons segment rest ih => simp [parseParts, Segment.parse_text, ih]

/-- **Printed segments are read back.** -/
theorem parse_joinDots (first : Segment) (rest : List Segment) :
    parse (joinDots ((first :: rest).map (·.text))) = .ok ⟨first, rest⟩ := by
  have hne : joinDots ((first :: rest).map (·.text)) ≠ "" := joinDots_ne_empty (by simp)
  have hparts := @splitDots_joinDots (first :: rest) (by simp)
  rw [parse, if_neg (by simpa using hne), hparts, parseParts_texts]

/-- The segments of a name that was read have the texts of the parts. -/
theorem texts_of_parse {text : String} {name : DottedName} (h : parse text = .ok name) :
    name.segments.map (·.text) = splitDots text := by
  rw [← text_parse h, DottedName.text, splitDots_joinDots (by simp [segments])]

/-- A text is read as a name of one segment exactly when it is a segment. -/
theorem parse_depth_one_iff {text : String} :
    (∃ name, parse text = .ok name ∧ name.depth = 1) ↔ ∃ segment, Segment.parse text = .ok segment := by
  constructor
  · intro hgiven
    obtain ⟨⟨first, rest⟩, hread, hdepth⟩ := hgiven
    have hrest : rest = [] := by simpa [depth, segments] using hdepth
    subst hrest
    refine ⟨first, Segment.parse_eq_ok_iff.mpr ?_⟩
    simpa [DottedName.text, segments, joinDots] using text_parse hread
  · intro hgiven
    obtain ⟨segment, hread⟩ := hgiven
    have htext := Segment.parse_eq_ok_iff.mp hread
    refine ⟨⟨segment, []⟩, ?_, rfl⟩
    simpa [joinDots, htext] using parse_joinDots segment []

end DottedName

/-! ## The segments of an alias -/

/-- The segments of an alias; none when it is no dotted name. -/
def segmentsOf (text : String) : List Segment :=
  match DottedName.parse text with
  | .ok name => name.segments
  | .error _ => []

/-- The alias is a dotted name. -/
def Accepted (text : String) : Prop :=
  ∃ name, DottedName.parse text = .ok name

/-- The segments of an alias are those that were read. -/
theorem segmentsOf_of_parse {text : String} {name : DottedName}
    (h : DottedName.parse text = .ok name) : segmentsOf text = name.segments := by
  simp [segmentsOf, h]

/-- A text that is not accepted is refused for a defect. -/
theorem not_accepted_iff {text : String} :
    ¬ Accepted text ↔ ∃ defect, DottedName.parse text = .error defect := by
  cases h : DottedName.parse text <;> simp [Accepted, h]

/-- A text is a dotted name when each of its parts is a segment. -/
theorem accepted_of_isSegment {text : String}
    (h : ∀ part ∈ splitDots text, isSegment part = true) : Accepted text := by
  have htexts : ((splitDots text).pmap Segment.mk h).map (·.text) = splitDots text := by
    simp [List.map_pmap]
  obtain ⟨first, rest, hpath⟩ := List.exists_cons_of_ne_nil
    (mt List.pmap_eq_nil_iff.mp (splitDots_ne_nil text) : (splitDots text).pmap Segment.mk h ≠ [])
  have hread := DottedName.parse_joinDots first rest
  rw [← hpath, htexts, joinDots_splitDots] at hread
  exact ⟨_, hread⟩

namespace Accepted

variable {text : String}

/-- An alias has a segment. -/
theorem segmentsOf_ne_nil (h : Accepted text) : segmentsOf text ≠ [] := by
  obtain ⟨name, hread⟩ := h
  simp [segmentsOf_of_parse hread, DottedName.segments]

/-- The segments of an alias are its parts. -/
theorem texts_segmentsOf (h : Accepted text) :
    (segmentsOf text).map (·.text) = splitDots text := by
  obtain ⟨name, hread⟩ := h
  rw [segmentsOf_of_parse hread, DottedName.texts_of_parse hread]

/-- An accepted alias is the print of its segments. -/
theorem joinDots_segmentsOf (h : Accepted text) :
    joinDots ((segmentsOf text).map (·.text)) = text := by
  rw [h.texts_segmentsOf, joinDots_splitDots]

/-- Accepted aliases with the same segments are equal. -/
theorem segmentsOf_inj {other : String} (h : Accepted text) (hother : Accepted other) :
    segmentsOf text = segmentsOf other ↔ text = other := by
  constructor
  · intro heq
    rw [← h.joinDots_segmentsOf, ← hother.joinDots_segmentsOf, heq]
  · intro heq
    subst heq
    rfl

end Accepted

end AliasCatalog.Naming
