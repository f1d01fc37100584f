import AliasCatalog.Proofs.Naming.Grammar

/-!
# Spellings of a segment

The words of a segment run together in camelCase, and keys forget the case of letters, so of a segment
the key keeps the letters and digits in lowercase and in order (`key_eq`).  Texts that differ from a
segment or from its identifier in the case of letters alone have its key (`key?_of_foldCase_eq`,
`key?_of_foldCase_eq_identifier`).
-/

namespace AliasCatalog.Naming

open Text

/-- The letters and digits of a text, in lowercase. -/
def letters (text : List Char) : List Char :=
  (text.filter Char.isAlphanum).map Char.toLower

/-! ## Lowercase -/

theorem toLower_eq_self {c : Char} (h : c.isUpper = false) : c.toLower = c := by
  unfold Char.toLower
  refine dif_neg fun hrange => ?_
  have hupper : c.isUpper = true := decide_eq_true hrange
  exact Bool.noConfusion (hupper.symm.trans h)

/-- A character is a letter, a digit or a separator when its lowercase form is one. -/
theorem classes_toLower (c : Char) :
    c.toLower.isAlphanum = c.isAlphanum ∧ c.toLower.isDigit = c.isDigit ∧
      isWordSeparator c.toLower = isWordSeparator c := by
  cases hupper : c.isUpper with
  | false => simp [toLower_eq_self hupper]
  | true =>
      obtain ⟨code, hcode, rfl⟩ := exists_code_of_isAlphanum (isAlphanum_of_isUpper hupper)
      revert hupper
      revert code
      decide

/-- The characters of segments are letters, digits and what separates words. -/
theorem isSegmentChar_eq (c : Char) : isSegmentChar c = (c.isAlphanum || isWordSeparator c) := by
  rw [isSegmentChar, isWordSeparator, Bool.or_assoc]

theorem toLower_toLower (c : Char) : c.toLower.toLower = c.toLower := by
  cases hupper : c.isUpper with
  | false => simp [toLower_eq_self hupper]
  | true =>
      obtain ⟨code, hcode, rfl⟩ := exists_code_of_isAlphanum (isAlphanum_of_isUpper hupper)
      revert hupper
      revert code
      decide

/-- A property that does not see the case may be asked before or after folding. -/
theorem filter_map_toLower (p : Char → Bool) (h : ∀ c, p c.toLower = p c) (text : List Char) :
    (text.map Char.toLower).filter p = (text.filter p).map Char.toLower := by
  rw [List.filter_map]
  congr 1
  exact List.filter_congr fun c _ => h c

/-- A shield is in lowercase already. -/
theorem map_toLower_shieldDigit (text : List Char) :
    (shieldDigit text).map Char.toLower = shieldDigit (text.map Char.toLower) := by
  cases text with
  | nil => rfl
  | cons c rest =>
      rw [List.map_cons, shieldDigit, shieldDigit, (classes_toLower c).2.1]
      split <;> rfl

/-! ## Words -/

/-- The parts of a text have all its characters but the separators. -/
theorem flatten_splitOnP (p : Char → Bool) (text : List Char) :
    (text.splitOnP p).flatten = text.filter (!p ·) := by
  induction text with
  | nil => rfl
  | cons c rest ih =>
      obtain ⟨head, tail, hsplit⟩ := List.exists_cons_of_ne_nil (List.splitOnP_ne_nil p rest)
      rw [hsplit] at ih
      cases hp : p c with
      | true => simp [List.splitOnP_cons_eq_if_modifyHead, hp, hsplit, ← ih]
      | false => simp [List.splitOnP_cons_eq_if_modifyHead, hp, hsplit, ← ih]

/-- The words of a text have all its characters but the separators. -/
theorem flatten_words (text : List Char) :
    (words text).flatten = text.filter (!isWordSeparator ·) := by
  rw [words, ← flatten_splitOnP]
  generalize text.splitOnP isWordSeparator = parts
  induction parts with
  | nil => rfl
  | cons part rest ih => cases part <;> simp [ih]

/-- Folding undoes capitals. -/
theorem map_toLower_capitalizeChars {word : List Char} (h : ∀ c ∈ word, c.isAlphanum = true) :
    (capitalizeChars word).map Char.toLower = word.map Char.toLower := by
  cases word with
  | nil => rfl
  | cons first rest =>
      have hfirst := h first List.mem_cons_self
      simp [capitalizeChars, uppercase_of_isAlphanum hfirst, toLower_toUpper hfirst]

/-- Folding does not see that a first letter was made small. -/
theorem map_toLower_decapitalizeChars {word : List Char} (h : ∀ c ∈ word, c.isAlphanum = true) :
    (decapitalizeChars word).map Char.toLower = word.map Char.toLower := by
  cases word with
  | nil => rfl
  | cons first rest =>
      have hfirst := h first List.mem_cons_self
      rw [decapitalizeChars, lowercase_of_isAlphanum hfirst, List.singleton_append, List.map_cons,
        toLower_toLower, List.map_cons]

/-- Words of letters and digits that run together keep these, up to case. -/
theorem map_toLower_camelCase {words : List (List Char)}
    (h : ∀ word ∈ words, ∀ c ∈ word, c.isAlphanum = true) :
    (camelCase words).map Char.toLower = words.flatten.map Char.toLower := by
  cases words with
  | nil => rfl
  | cons first rest =>
      obtain ⟨hfirst, hrest⟩ := List.forall_mem_cons.mp h
      rw [camelCase, List.flatten_cons, List.map_append, List.map_append,
        map_toLower_decapitalizeChars hfirst]
      congr 1
      clear h
      induction rest with
      | nil => rfl
      | cons word others ih =>
          obtain ⟨hword, hothers⟩ := List.forall_mem_cons.mp hrest
          rw [List.flatMap_cons, List.flatten_cons, List.map_append, List.map_append,
            map_toLower_capitalizeChars hword, ih hothers]

/-! ## Keys -/

/-- A camel word is a segment. -/
theorem isSegment_of_isCamel {text : String} (h : IsCamel text.toList) : isSegment text = true := by
  have halpha := h.isAlphanum
  obtain ⟨first, rest, htext, _, _⟩ := h
  rw [isSegment, Bool.and_eq_true, List.all_eq_true, List.any_eq_true]
  refine ⟨fun c hc => ?_, first, by simp [htext], halpha first (by simp [htext])⟩
  rw [isSegmentChar_eq, halpha c hc, Bool.true_or]

namespace Segment

/-- **A key keeps the letters and digits** of its segment in lowercase, with a `v` before a leading
digit. -/
theorem key_eq (segment : Segment) :
    segment.key = String.ofList (shieldDigit (letters segment.text.toList)) := by
  have hclass : ∀ c ∈ segment.text.toList, (!isWordSeparator c) = c.isAlphanum := by
    intro c hc
    have hchar := segment.isSegmentChar_of_mem c hc
    rw [isSegmentChar_eq] at hchar
    cases halpha : c.isAlphanum with
    | true => simp [isWordSeparator_of_isAlphanum halpha]
    | false => simpa [halpha] using hchar
  apply String.toList_inj.mp
  rw [key, Identifier.key, toList_foldCase, toList_identifier, map_toLower_shieldDigit,
    map_toLower_camelCase fun _ hword => (mem_words hword).2, flatten_words,
    List.filter_congr hclass, String.toList_ofList, letters]

/-- Letter case does not make or break a segment. -/
theorem isSegment_foldCase (text : String) : isSegment (foldCase text) = isSegment text := by
  have hchar : isSegmentChar ∘ Char.toLower = isSegmentChar := by
    funext c
    obtain ⟨halpha, _, hsep⟩ := classes_toLower c
    rw [Function.comp_apply, isSegmentChar_eq, isSegmentChar_eq, halpha, hsep]
  have halpha : Char.isAlphanum ∘ Char.toLower = Char.isAlphanum :=
    funext fun c => (classes_toLower c).1
  rw [isSegment, isSegment, toList_foldCase, List.all_map, List.any_map, hchar, halpha]

/-- Texts that fold alike have the same letters and digits up to case. -/
theorem letters_of_foldCase_eq {text other : List Char}
    (h : text.map Char.toLower = other.map Char.toLower) : letters text = letters other := by
  rw [letters, letters, ← filter_map_toLower _ fun c => (classes_toLower c).1, h,
    filter_map_toLower _ fun c => (classes_toLower c).1]

/-- **A text that differs from a segment in the case of letters alone has its key.** -/
theorem key?_of_foldCase_eq {segment : Segment} {spelling : String}
    (h : foldCase spelling = foldCase segment.text) : key? spelling = some segment.key := by
  have hchars : spelling.toList.map Char.toLower = segment.text.toList.map Char.toLower := by
    simpa using congrArg String.toList h
  have hvalid : isSegment spelling = true := by
    rw [← isSegment_foldCase, h, isSegment_foldCase, segment.valid]
  have hkey := (⟨spelling, hvalid⟩ : Segment).key_eq
  rw [letters_of_foldCase_eq hchars, ← key_eq] at hkey
  rw [← hkey]
  exact key?_text ⟨spelling, hvalid⟩

/-- The same holds of a text that differs from the identifier of a segment in this way. -/
theorem key?_of_foldCase_eq_identifier {segment : Segment} {spelling : String}
    (h : foldCase spelling = foldCase segment.identifier.text) :
    key? spelling = some segment.key := by
  have hvalid := isSegment_of_isCamel segment.isCamel_identifier
  rw [@key?_of_foldCase_eq ⟨_, hvalid⟩ _ h, ← key?_text, key?_identifier]

end Segment

end AliasCatalog.Naming
