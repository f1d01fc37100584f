import AliasCatalog.Proofs.Naming.Reading

/-!
# The shape of identifiers

A segment consists of ASCII characters, so its identifier is a word of ASCII letters and digits that
starts with a lowercase letter (`isCamel_identifier`), and in uppercase the identifier starts with an
uppercase letter (`isPascal_capitalized`).  Such a word is its own normal form, so an identifier stands
for its segment in a lookup (`key?_identifier`).
-/

namespace AliasCatalog.Naming

open Text

/-- A lowercase letter with letters and digits after it. -/
def IsCamel (text : List Char) : Prop :=
  ∃ first rest, text = first :: rest ∧ first.isLower = true ∧ ∀ c ∈ rest, c.isAlphanum = true

/-- An uppercase letter with letters and digits after it. -/
def IsPascal (text : List Char) : Prop :=
  ∃ first rest, text = first :: rest ∧ first.isUpper = true ∧ ∀ c ∈ rest, c.isAlphanum = true

/-- Whether a text is a camel word or a Pascal word is decided by its first character and the others. -/
theorem isCamel_cons_iff {first : Char} {rest : List Char} :
    IsCamel (first :: rest) ↔ first.isLower = true ∧ rest.all Char.isAlphanum = true := by
  rw [List.all_eq_true]
  constructor
  · rintro ⟨_, _, heq, h⟩
    cases heq
    exact h
  · exact fun h => ⟨first, rest, rfl, h⟩

theorem isPascal_cons_iff {first : Char} {rest : List Char} :
    IsPascal (first :: rest) ↔ first.isUpper = true ∧ rest.all Char.isAlphanum = true := by
  rw [List.all_eq_true]
  constructor
  · rintro ⟨_, _, heq, h⟩
    cases heq
    exact h
  · exact fun h => ⟨first, rest, rfl, h⟩

instance : DecidablePred IsCamel
  | [] => isFalse fun ⟨_, _, heq, _⟩ => nomatch heq
  | _ :: _ => decidable_of_iff _ isCamel_cons_iff.symm

instance : DecidablePred IsPascal
  | [] => isFalse fun ⟨_, _, heq, _⟩ => nomatch heq
  | _ :: _ => decidable_of_iff _ isPascal_cons_iff.symm

/-! ## ASCII letters and digits -/

theorem isAlphanum_of_isLower {c : Char} (h : c.isLower = true) : c.isAlphanum = true := by
  show ((c.isUpper || c.isLower) || c.isDigit) = true
  rw [h, Bool.or_true, Bool.true_or]

theorem isAlphanum_of_isDigit {c : Char} (h : c.isDigit = true) : c.isAlphanum = true := by
  show (c.isAlpha || c.isDigit) = true
  rw [h, Bool.or_true]

/-- Letters and digits are among the first 128 characters, so there are few cases to go through. -/
theorem exists_code_of_isAlphanum {c : Char} (h : c.isAlphanum = true) :
    ∃ code < 128, c = Char.ofNat code := by
  have hbound : c.val ≤ 'z'.val := by
    have hcases : ((c.isUpper || c.isLower) || c.isDigit) = true := h
    rw [Bool.or_eq_true, Bool.or_eq_true] at hcases
    rcases hcases with (hupper | hlower) | hdigit
    · exact UInt32.le_trans (of_decide_eq_true hupper).2 (by decide)
    · exact of_decide_eq_true (Bool.and_eq_true_iff.mp hlower).2
    · exact UInt32.le_trans (of_decide_eq_true (Bool.and_eq_true_iff.mp hdigit).2) (by decide)
  refine ⟨c.toNat, ?_, (Char.ofNat_toNat c).symm⟩
  exact Nat.lt_of_le_of_lt (UInt32.le_iff_toNat_le.mp hbound) (by decide)

/-- The uppercase of an ASCII letter or digit is one character, by the ASCII rule. -/
theorem uppercase_of_isAlphanum {c : Char} (h : c.isAlphanum = true) :
    uppercase c = [c.toUpper] := by
  obtain ⟨code, hcode, rfl⟩ := exists_code_of_isAlphanum h
  exact uppercase_ascii code hcode

/-- The lowercase of an ASCII letter or digit is one character, by the ASCII rule. -/
theorem lowercase_of_isAlphanum {c : Char} (h : c.isAlphanum = true) :
    lowercase c = [c.toLower] := by
  obtain ⟨code, hcode, rfl⟩ := exists_code_of_isAlphanum h
  exact lowercase_ascii code hcode

/-- Uppercase leads from letters and digits to letters and digits. -/
theorem isAlphanum_toUpper {c : Char} (h : c.isAlphanum = true) : c.toUpper.isAlphanum = true := by
  obtain ⟨code, hcode, rfl⟩ := exists_code_of_isAlphanum h
  revert h
  revert code
  decide

/-- In lowercase a letter or digit that is no digit is a lowercase letter. -/
theorem isLower_toLower {c : Char} (h : c.isAlphanum = true) (hdigit : c.toLower.isDigit = false) :
    c.toLower.isLower = true := by
  obtain ⟨code, hcode, rfl⟩ := exists_code_of_isAlphanum h
  revert h hdigit
  revert code
  decide

/-- Uppercase is undone by lowercase. -/
theorem toLower_toUpper {c : Char} (h : c.isAlphanum = true) : c.toUpper.toLower = c.toLower := by
  obtain ⟨code, hcode, rfl⟩ := exists_code_of_isAlphanum h
  revert h
  revert code
  decide

/-- A lowercase letter has an uppercase letter. -/
theorem isUpper_toUpper {c : Char} (h : c.isLower = true) : c.toUpper.isUpper = true := by
  obtain ⟨code, hcode, rfl⟩ := exists_code_of_isAlphanum (isAlphanum_of_isLower h)
  revert h
  revert code
  decide

theorem toLower_of_isLower {c : Char} (h : c.isLower = true) : c.toLower = c := by
  obtain ⟨code, hcode, rfl⟩ := exists_code_of_isAlphanum (isAlphanum_of_isLower h)
  revert h
  revert code
  decide

theorem isDigit_of_isLower {c : Char} (h : c.isLower = true) : c.isDigit = false := by
  obtain ⟨code, hcode, rfl⟩ := exists_code_of_isAlphanum (isAlphanum_of_isLower h)
  revert h
  revert code
  decide

theorem isAlphanum_of_isUpper {c : Char} (h : c.isUpper = true) : c.isAlphanum = true := by
  show ((c.isUpper || c.isLower) || c.isDigit) = true
  rw [h, Bool.true_or, Bool.true_or]

/-- A camel word has letters and digits alone. -/
theorem IsCamel.isAlphanum {text : List Char} (h : IsCamel text) :
    ∀ c ∈ text, c.isAlphanum = true := by
  obtain ⟨first, rest, rfl, hfirst, hrest⟩ := h
  exact List.forall_mem_cons.mpr ⟨isAlphanum_of_isLower hfirst, hrest⟩

/-- A Pascal word has letters and digits alone. -/
theorem IsPascal.isAlphanum {text : List Char} (h : IsPascal text) :
    ∀ c ∈ text, c.isAlphanum = true := by
  obtain ⟨first, rest, rfl, hfirst, hrest⟩ := h
  exact List.forall_mem_cons.mpr ⟨isAlphanum_of_isUpper hfirst, hrest⟩

/-- A camel word goes on with any letters and digits. -/
theorem IsCamel.append {text more : List Char} (h : IsCamel text)
    (hmore : ∀ c ∈ more, c.isAlphanum = true) : IsCamel (text ++ more) := by
  obtain ⟨first, rest, rfl, hfirst, hrest⟩ := h
  exact ⟨first, rest ++ more, rfl, hfirst, List.forall_mem_append.mpr ⟨hrest, hmore⟩⟩

/-- A Pascal word goes on with any letters and digits. -/
theorem IsPascal.append {text more : List Char} (h : IsPascal text)
    (hmore : ∀ c ∈ more, c.isAlphanum = true) : IsPascal (text ++ more) := by
  obtain ⟨first, rest, rfl, hfirst, hrest⟩ := h
  exact ⟨first, rest ++ more, rfl, hfirst, List.forall_mem_append.mpr ⟨hrest, hmore⟩⟩

/-! ## Words -/

/-- A part between separators has no separator, and its characters are the text's. -/
theorem mem_splitOnP {p : Char → Bool} {text part : List Char} (h : part ∈ text.splitOnP p)
    {c : Char} (hc : c ∈ part) : c ∈ text ∧ p c = false := by
  induction text generalizing part with
  | nil =>
      rw [List.splitOnP_nil, List.mem_singleton] at h
      rw [h] at hc
      cases hc
  | cons d rest ih =>
      rw [List.splitOnP_cons_eq_if_modifyHead] at h
      by_cases hsep : p d = true
      · rw [if_pos hsep] at h
        rcases List.mem_cons.mp h with rfl | hrest
        · cases hc
        · exact ⟨List.mem_cons_of_mem _ (ih hrest hc).1, (ih hrest hc).2⟩
      · rw [if_neg hsep] at h
        obtain ⟨head, tail, hsplit⟩ := List.exists_cons_of_ne_nil
          (List.splitOnP_ne_nil p rest)
        rw [hsplit] at h ih
        rcases List.mem_cons.mp h with rfl | htail
        · rcases List.mem_cons.mp hc with rfl | hhead
          · exact ⟨List.mem_cons_self, by simpa using hsep⟩
          · have hin := ih List.mem_cons_self hhead
            exact ⟨List.mem_cons_of_mem _ hin.1, hin.2⟩
        · have hin := ih (List.mem_cons_of_mem _ htail) hc
          exact ⟨List.mem_cons_of_mem _ hin.1, hin.2⟩

/-- The words of a segment are not empty and made of letters and digits. -/
theorem mem_words {segment : Segment} {word : List Char} (h : word ∈ words segment.text.toList) :
    word ≠ [] ∧ ∀ c ∈ word, c.isAlphanum = true := by
  obtain ⟨hpart, hne⟩ := List.mem_filter.mp h
  refine ⟨by simpa using hne, fun c hc => ?_⟩
  obtain ⟨hmem, hsep⟩ := mem_splitOnP hpart hc
  have hchar := segment.isSegmentChar_of_mem c hmem
  simp only [isWordSeparator, Bool.or_eq_false_iff] at hsep
  simpa [isSegmentChar, hsep.1, hsep.2] using hchar

/-! ## Identifiers -/

/-- A word of letters and digits is capitalized to one. -/
theorem isAlphanum_of_mem_capitalizeChars {word : List Char} (h : ∀ c ∈ word, c.isAlphanum = true) :
    ∀ c ∈ capitalizeChars word, c.isAlphanum = true := by
  cases word with
  | nil => simp [capitalizeChars]
  | cons first rest =>
      obtain ⟨hfirst, hrest⟩ := List.forall_mem_cons.mp h
      rw [capitalizeChars, uppercase_of_isAlphanum hfirst]
      exact List.forall_mem_cons.mpr ⟨isAlphanum_toUpper hfirst, hrest⟩

/-- The words of a segment run together to one that starts with a digit or a lowercase letter. -/
theorem camelCase_of_words {words : List (List Char)} (hne : words ≠ [])
    (h : ∀ word ∈ words, word ≠ [] ∧ ∀ c ∈ word, c.isAlphanum = true) :
    ∃ first rest, camelCase words = first :: rest ∧
      (first.isDigit = true ∨ first.isLower = true) ∧ ∀ c ∈ rest, c.isAlphanum = true := by
  obtain ⟨word, others, rfl⟩ := List.exists_cons_of_ne_nil hne
  obtain ⟨⟨hword, hchars⟩, hothers⟩ := List.forall_mem_cons.mp h
  obtain ⟨first, rest, rfl⟩ := List.exists_cons_of_ne_nil hword
  obtain ⟨hfirst, hrest⟩ := List.forall_mem_cons.mp hchars
  refine ⟨first.toLower, rest ++ others.flatMap capitalizeChars, ?_, ?_, ?_⟩
  · simp [camelCase, decapitalizeChars, lowercase_of_isAlphanum hfirst]
  · cases hdigit : first.toLower.isDigit with
    | true => exact .inl rfl
    | false => exact .inr (isLower_toLower hfirst hdigit)
  · intro c hc
    rcases List.mem_append.mp hc with hin | hin
    · exact hrest c hin
    · obtain ⟨other, hother, hin⟩ := List.mem_flatMap.mp hin
      exact isAlphanum_of_mem_capitalizeChars (hothers other hother).2 c hin

/-- A leading digit gets a letter in front. -/
theorem isCamel_shieldDigit {first : Char} {rest : List Char}
    (hfirst : first.isDigit = true ∨ first.isLower = true)
    (hrest : ∀ c ∈ rest, c.isAlphanum = true) : IsCamel (shieldDigit (first :: rest)) := by
  rw [shieldDigit]
  by_cases hdigit : first.isDigit = true
  · rw [if_pos hdigit]
    exact ⟨'v', first :: rest, rfl, rfl,
      List.forall_mem_cons.mpr ⟨isAlphanum_of_isDigit hdigit, hrest⟩⟩
  · rw [if_neg hdigit]
    exact ⟨first, rest, rfl, hfirst.resolve_left hdigit, hrest⟩

/-- A camel word is one word as it should be, its own normal form. -/
theorem IsCamel.normalizeChars_eq {text : List Char} (h : IsCamel text) :
    normalizeChars text = some text := by
  have hwords : words text = [text] := by
    have hsplit := @List.splitOnP_eq_singleton _ isWordSeparator text
      fun c hc => Segment.isWordSeparator_of_isAlphanum (h.isAlphanum c hc)
    obtain ⟨first, rest, rfl, _⟩ := h
    rw [words, hsplit]
    rfl
  obtain ⟨first, rest, rfl, hlower, _⟩ := h
  have hsame := toLower_of_isLower hlower
  have hcamel : camelCase [first :: rest] = first :: rest := by
    simp [camelCase, decapitalizeChars, lowercase_of_isAlphanum (isAlphanum_of_isLower hlower),
      hsame]
  rw [normalizeChars, hwords, hcamel, shieldDigit, isDigit_of_isLower hlower]
  rfl

namespace Segment

/-- The identifier of a segment is the camel case of its words, shielded from a leading digit. -/
theorem toList_identifier (segment : Segment) :
    segment.identifier.text.toList = shieldDigit (camelCase (words segment.text.toList)) := by
  have hnormal := segment.normalize_text
  unfold normalize normalizeChars at hnormal
  split at hnormal
  · simp at hnormal
  · simp only [Option.map_some, Option.some.injEq] at hnormal
    rw [← hnormal, String.toList_ofList]

/-- **An identifier is a camel word.** -/
theorem isCamel_identifier (segment : Segment) : IsCamel segment.identifier.text.toList := by
  have hne : words segment.text.toList ≠ [] := by
    have hvalid := segment.valid
    simp only [isSegment, Bool.and_eq_true, List.any_eq_true] at hvalid
    obtain ⟨c, hmem, halpha⟩ := hvalid.2
    exact words_ne_nil hmem (isWordSeparator_of_isAlphanum halpha)
  obtain ⟨first, rest, hcamel, hfirst, hrest⟩ := camelCase_of_words hne fun _ => mem_words
  rw [toList_identifier, hcamel]
  exact isCamel_shieldDigit hfirst hrest

/-- **An identifier is its own normal form**, so it has the key of its segment. -/
theorem normalize_identifier (segment : Segment) :
    normalize segment.identifier.text = some segment.identifier := by
  rw [normalize, segment.isCamel_identifier.normalizeChars_eq, Option.map_some, String.ofList_toList]

/-- The identifier of a segment has the key of the segment. -/
theorem key?_identifier (segment : Segment) : key? segment.identifier.text = some segment.key :=
  key?_of_normalize segment.normalize_identifier

/-- No identifier has a dot in it. -/
theorem dot_notMem_identifier (segment : Segment) : '.' ∉ segment.identifier.text.toList :=
  fun hmem => absurd (segment.isCamel_identifier.isAlphanum '.' hmem) (by decide)

/-- **In uppercase an identifier is a Pascal word.** -/
theorem isPascal_capitalized (segment : Segment) :
    IsPascal segment.identifier.capitalized.toList := by
  obtain ⟨first, rest, htext, hlower, hrest⟩ := segment.isCamel_identifier
  have halpha := isAlphanum_of_isLower hlower
  refine ⟨first.toUpper, rest, ?_, isUpper_toUpper hlower, hrest⟩
  simp [Identifier.capitalized, htext, capitalizeChars, uppercase_of_isAlphanum halpha]

/-- A getter is a camel word. -/
theorem isCamel_method (segment : Segment) : IsCamel segment.identifier.method.toList := by
  have hget : IsCamel "get".toList := by decide
  rw [Identifier.method, String.toList_append]
  exact hget.append segment.isPascal_capitalized.isAlphanum

/-- Up to case a getter is told by the key of its segment. -/
theorem foldCase_method (segment : Segment) :
    foldCase segment.identifier.method = "get" ++ segment.key := by
  obtain ⟨first, rest, htext, hlower, _⟩ := segment.isCamel_identifier
  have halpha := isAlphanum_of_isLower hlower
  have hget : ("get".toList).map Char.toLower = "get".toList := rfl
  apply String.toList_inj.mp
  rw [toList_foldCase, Identifier.method, String.toList_append, String.toList_append,
    List.map_append, hget, key, Identifier.key, toList_foldCase]
  simp [Identifier.capitalized, htext, capitalizeChars, uppercase_of_isAlphanum halpha,
    toLower_toUpper halpha]

end Segment

end AliasCatalog.Naming
