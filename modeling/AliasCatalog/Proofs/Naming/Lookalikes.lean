import AliasCatalog.Proofs.Naming.Spelling

/-!
# Lookalikes of letters

No text outside the grammar of a segment should be taken for one, but words are capitalised with the
full Unicode mapping, and this sends some characters to ASCII letters: the Kelvin sign is a `K` whose
lowercase form is a plain `k`, and a few small letters and ligatures have plain letters for their
uppercase form.  A text has the key of a segment exactly when it spells one, with such lookalikes at most
at the start of words (`spells_iff`), and without lookalikes only segments do (`isSegment_of_spells`).
-/

namespace AliasCatalog

open Text

namespace Text

/-- The characters other than letters and digits that have a letter for their lowercase form. -/
def lowercaseLookalikes : List Char :=
  ['\u212A']

/-- The characters other than letters and digits that have letters for their uppercase form. -/
def uppercaseLookalikes : List Char :=
  ['\u00DF', '\u0131', '\u017F', '\uFB00', '\uFB01', '\uFB02', '\uFB03', '\uFB04', '\uFB05', '\uFB06']

def allLookalikes : List Char :=
  lowercaseLookalikes ++ uppercaseLookalikes

/-! ## The tables of letter case -/

/-- The run leads beyond ASCII, or it consists of letters, digits and lookalikes. -/
def CaseRun.Avoids (run : CaseRun) (lookalikes : List Char) : Prop :=
  128 ≤ (run.first : Int) + run.offset ∨ ∀ i < run.last + 1 - run.first,
    (Char.ofNat (run.first + i)).isAlphanum = true ∨ Char.ofNat (run.first + i) ∈ lookalikes

instance (run : CaseRun) (lookalikes : List Char) : Decidable (run.Avoids lookalikes) :=
  inferInstanceAs (Decidable (_ ∨ _))

/-- No run of uppercase rules gives a letter or digit to any but a lookalike. -/
theorem uppercaseRuns_avoid : ∀ run ∈ uppercaseRuns, run.Avoids uppercaseLookalikes := by
  decide +kernel

/-- No run of lowercase rules gives a letter or digit to any but a lookalike. -/
theorem lowercaseRuns_avoid : ∀ run ∈ lowercaseRuns, run.Avoids lowercaseLookalikes := by
  decide +kernel

/-- Only lookalikes expand to letters and digits in uppercase. -/
theorem uppercaseExpansions_avoid : ∀ entry ∈ uppercaseExpansions,
    entry.2.toList.all Char.isAlphanum = true → entry.1 ∈ uppercaseLookalikes := by
  decide +kernel

/-- Only lookalikes expand to letters and digits in lowercase. -/
theorem lowercaseExpansions_avoid : ∀ entry ∈ lowercaseExpansions,
    entry.2.toList.all Char.isAlphanum = true → entry.1 ∈ lowercaseLookalikes := by
  decide +kernel

/-- The uppercase lookalikes are ASCII letters in uppercase. -/
theorem uppercase_lookalikes :
    uppercaseLookalikes.all (fun c => (uppercase c).all Char.isAlphanum) = true := by
  decide +kernel

/-- The lowercase lookalikes are ASCII letters in lowercase. -/
theorem lowercase_lookalikes :
    lowercaseLookalikes.all (fun c => (lowercase c).all Char.isAlphanum) = true := by
  decide +kernel

/-- An expansion that is found stands in the table. -/
theorem mem_of_findExpansion {c : Char} {form : String} {table : List (Char × String)}
    (h : findExpansion c table = some form) : (c, form) ∈ table := by
  induction table with
  | nil => cases h
  | cons entry rest ih =>
      unfold findExpansion at h
      split at h
      · cases h
      · split at h
        · rename_i heq
          cases h
          rw [heq]
          exact List.mem_cons_self
        · exact List.mem_cons_of_mem _ (ih h)

/-- A run that is found stands in the table and has the code. -/
theorem mem_of_findRun {code : Nat} {run : CaseRun} {runs : List CaseRun}
    (h : findRun code runs = some run) : run ∈ runs ∧ run.contains code = true := by
  induction runs with
  | nil => cases h
  | cons first rest ih =>
      unfold findRun at h
      split at h
      · cases h
      · split at h
        · rename_i hcontains
          cases h
          exact ⟨List.mem_cons_self, hcontains⟩
        · exact ⟨List.mem_cons_of_mem _ (ih h).1, (ih h).2⟩

/-- A letter or digit has a small code, and it is the character of that code. -/
theorem lt_of_isAlphanum_ofNat {code : Nat} (h : (Char.ofNat code).isAlphanum = true) :
    code < 128 := by
  by_cases hvalid : code.isValidChar
  · have hcode : (Char.ofNat code).toNat = code := by
      rw [Char.ofNat, dif_pos hvalid]
      rfl
    have hsmall : ∀ small < 128, (Char.ofNat small).toNat < 128 := by decide
    obtain ⟨small, hlt, heq⟩ := Naming.exists_code_of_isAlphanum h
    rw [← hcode, heq]
    exact hsmall small hlt
  · rw [Char.ofNat, dif_neg hvalid] at h
    exact absurd h (by decide)

/-- A run that avoids letters and digits sends nothing else but lookalikes to them. -/
theorem CaseRun.Avoids.isAlphanum_or_mem {run : CaseRun} {lookalikes : List Char} {c : Char}
    (h : run.Avoids lookalikes) (hcontains : run.contains c.toNat = true)
    (hshift : (run.shift c).isAlphanum = true) : c.isAlphanum = true ∨ c ∈ lookalikes := by
  simp only [contains, Bool.and_eq_true, decide_eq_true_eq] at hcontains
  obtain ⟨⟨hfirst, hlast⟩, _⟩ := hcontains
  rcases h with hbeyond | hwithin
  · have hsmall := lt_of_isAlphanum_ofNat hshift
    omega
  · have hchar := hwithin (c.toNat - run.first) (by omega)
    rwa [Nat.add_sub_cancel' hfirst, Char.ofNat_toNat] at hchar

/-- **Only letters, digits and lookalikes** are sent to letters and digits. -/
theorem isAlphanum_or_mem_of_mapCase {expansions : List (Char × String)} {runs : List CaseRun}
    {lookalikes : List Char} {c : Char}
    (hexpansions : ∀ entry ∈ expansions,
      entry.2.toList.all Char.isAlphanum = true → entry.1 ∈ lookalikes)
    (hruns : ∀ run ∈ runs, run.Avoids lookalikes)
    (h : ∀ d ∈ mapCase expansions runs c, d.isAlphanum = true) :
    c.isAlphanum = true ∨ c ∈ lookalikes := by
  unfold mapCase at h
  split at h
  · rename_i form hform
    exact .inr (hexpansions _ (mem_of_findExpansion hform) (List.all_eq_true.mpr h))
  · split at h
    · rename_i run hrun
      obtain ⟨hmem, hcontains⟩ := mem_of_findRun hrun
      exact (hruns run hmem).isAlphanum_or_mem hcontains (h _ List.mem_cons_self)
    · exact .inl (h c List.mem_cons_self)

/-- The uppercase form of a character consists of letters and digits when the character is one of
these or a lookalike. -/
theorem isAlphanum_uppercase_iff {c : Char} :
    (∀ d ∈ uppercase c, d.isAlphanum = true) ↔ c.isAlphanum = true ∨ c ∈ uppercaseLookalikes := by
  refine ⟨isAlphanum_or_mem_of_mapCase uppercaseExpansions_avoid uppercaseRuns_avoid, ?_⟩
  rintro (halpha | hmem)
  · rw [Naming.uppercase_of_isAlphanum halpha]
    simpa using Naming.isAlphanum_toUpper halpha
  · exact List.all_eq_true.mp (List.all_eq_true.mp uppercase_lookalikes c hmem)

/-- The same holds of the lowercase form. -/
theorem isAlphanum_lowercase_iff {c : Char} :
    (∀ d ∈ lowercase c, d.isAlphanum = true) ↔ c.isAlphanum = true ∨ c ∈ lowercaseLookalikes := by
  refine ⟨isAlphanum_or_mem_of_mapCase lowercaseExpansions_avoid lowercaseRuns_avoid, ?_⟩
  rintro (halpha | hmem)
  · rw [Naming.lowercase_of_isAlphanum halpha]
    simpa [(Naming.classes_toLower c).1] using halpha
  · exact List.all_eq_true.mp (List.all_eq_true.mp lowercase_lookalikes c hmem)

/-- Such a lowercase form is one character, which is no uppercase letter. -/
theorem exists_lowercase_eq {c : Char} (h : c.isAlphanum = true ∨ c ∈ lowercaseLookalikes) :
    ∃ d, lowercase c = [d] ∧ (d.isDigit = true ∨ d.isLower = true) := by
  rcases h with halpha | hmem
  · refine ⟨c.toLower, Naming.lowercase_of_isAlphanum halpha, ?_⟩
    cases hdigit : c.toLower.isDigit with
    | true => exact .inl rfl
    | false => exact .inr (Naming.isLower_toLower halpha hdigit)
  · obtain rfl := List.mem_singleton.mp hmem
    exact ⟨'k', by decide +kernel, .inr rfl⟩

end Text

namespace Naming

/-! ## Texts that spell segments -/

/-- The word starts with a letter, a digit or a lookalike and goes on with letters and digits. -/
def WordOf (lookalikes : List Char) (word : List Char) : Prop :=
  ∃ first rest, word = first :: rest ∧ (first.isAlphanum = true ∨ first ∈ lookalikes) ∧
    ∀ c ∈ rest, c.isAlphanum = true

/-- The text has words, all of letters and digits but for lookalikes at their starts. -/
def Spells (text : String) : Prop :=
  ∃ first others, words text.toList = first :: others ∧ WordOf lowercaseLookalikes first ∧
    ∀ word ∈ others, WordOf uppercaseLookalikes word

/-- A word may have a lookalike in the first place only. -/
theorem wordOf_cons_iff {lookalikes : List Char} {first : Char} {rest : List Char} :
    WordOf lookalikes (first :: rest) ↔
      (first.isAlphanum = true ∨ first ∈ lookalikes) ∧ ∀ c ∈ rest, c.isAlphanum = true := by
  constructor
  · rintro ⟨_, _, heq, h⟩
    cases heq
    exact h
  · exact fun h => ⟨first, rest, rfl, h⟩

/-- **The words that are capitalized to letters and digits** are those that may start with a lookalike of
uppercase. -/
theorem wordOf_capitalize_iff {word : List Char} (h : word ≠ []) :
    WordOf uppercaseLookalikes word ↔ ∀ c ∈ capitalizeChars word, c.isAlphanum = true := by
  obtain ⟨first, rest, rfl⟩ := List.exists_cons_of_ne_nil h
  rw [wordOf_cons_iff, capitalizeChars, List.forall_mem_append, isAlphanum_uppercase_iff]

/-- **The words that are decapitalized to letters and digits** are those that may start with a lookalike of
lowercase. -/
theorem wordOf_decapitalize_iff {word : List Char} (h : word ≠ []) :
    WordOf lowercaseLookalikes word ↔ ∀ c ∈ decapitalizeChars word, c.isAlphanum = true := by
  obtain ⟨first, rest, rfl⟩ := List.exists_cons_of_ne_nil h
  rw [wordOf_cons_iff, decapitalizeChars, List.forall_mem_append, isAlphanum_lowercase_iff]

/-- No word is empty. -/
theorem ne_nil_of_mem_words {text word : List Char} (h : word ∈ words text) : word ≠ [] := by
  simpa using (List.mem_filter.mp h).2

/-- A shield takes no character away. -/
theorem mem_shieldDigit {text : List Char} {c : Char} (h : c ∈ text) : c ∈ shieldDigit text := by
  cases text with
  | nil => exact h
  | cons first rest =>
      rw [shieldDigit]
      split
      · exact List.mem_cons_of_mem _ h
      · exact h

/-- A text spells something when it has words and these run together to letters and digits. -/
theorem spells_iff_camelCase {text : String} :
    Spells text ↔ words text.toList ≠ [] ∧
      ∀ c ∈ camelCase (words text.toList), c.isAlphanum = true := by
  have hne : ∀ word ∈ words text.toList, word ≠ [] := fun _ => ne_nil_of_mem_words
  rw [Spells]
  cases hwords : words text.toList with
  | nil => simp
  | cons first others =>
      rw [hwords] at hne
      obtain ⟨hfirst, hothers⟩ := List.forall_mem_cons.mp hne
      rw [camelCase, List.forall_mem_append, ← wordOf_decapitalize_iff hfirst]
      constructor
      · rintro ⟨_, _, heq, hdecapitalized, hcapitalized⟩
        cases heq
        refine ⟨List.cons_ne_nil _ _, hdecapitalized, fun c hc => ?_⟩
        obtain ⟨word, hword, hin⟩ := List.mem_flatMap.mp hc
        exact (wordOf_capitalize_iff (hothers word hword)).mp (hcapitalized word hword) c hin
      · rintro ⟨_, hdecapitalized, hflat⟩
        refine ⟨first, others, rfl, hdecapitalized, fun word hword => ?_⟩
        exact (wordOf_capitalize_iff (hothers word hword)).mpr fun c hin =>
          hflat c (List.mem_flatMap.mpr ⟨word, hword, hin⟩)

/-- A normal form is the camel case of words of which there is one at least. -/
theorem normalizeChars_eq_some_iff {text chars : List Char} :
    normalizeChars text = some chars ↔
      words text ≠ [] ∧ shieldDigit (camelCase (words text)) = chars := by
  rw [normalizeChars]
  cases words text <;> simp

/-- A key is a folded normal form. -/
theorem key?_eq_some_iff {text key : String} :
    key? text = some key ↔
      ∃ chars, normalizeChars text.toList = some chars ∧ foldCase (String.ofList chars) = key := by
  rw [key?, normalize, Option.map_map, Option.map_eq_some_iff]
  rfl

/-- A text that spells something has a camel word for its normal form. -/
theorem Spells.isCamel {text : String} (h : Spells text) :
    IsCamel (shieldDigit (camelCase (words text.toList))) := by
  have hchars := (spells_iff_camelCase.mp h).2
  obtain ⟨first, others, hwords, hfirst, _⟩ := h
  obtain ⟨c, rest, rfl, hc, _⟩ := hfirst
  obtain ⟨d, hd, hclass⟩ := exists_lowercase_eq hc
  rw [hwords, camelCase, decapitalizeChars, hd] at hchars ⊢
  exact isCamel_shieldDigit hclass fun e he => hchars e (List.mem_cons_of_mem _ he)

/-- Only letters and digits are folded to the key of a segment. -/
theorem isAlphanum_of_foldCase_eq_key {chars : List Char} {segment : Segment}
    (h : foldCase (String.ofList chars) = segment.key) : ∀ c ∈ chars, c.isAlphanum = true := by
  have hlower : chars.map Char.toLower = segment.identifier.text.toList.map Char.toLower := by
    rw [Segment.key, Identifier.key] at h
    simpa using congrArg String.toList h
  intro c hc
  have hmem : c.toLower ∈ chars.map Char.toLower := List.mem_map_of_mem hc
  rw [hlower] at hmem
  obtain ⟨d, hd, hsame⟩ := List.mem_map.mp hmem
  rw [← (classes_toLower c).1, ← hsame, (classes_toLower d).1]
  exact segment.isCamel_identifier.isAlphanum d hd

/-- **A text spells something exactly when it has the key of a segment**, since its normal form is a segment
and its own normal form. -/
theorem spells_iff {text : String} :
    Spells text ↔ ∃ segment : Segment, key? text = some segment.key := by
  constructor
  · intro h
    have hcamel := h.isCamel
    have hnormal := normalizeChars_eq_some_iff.mpr ⟨(spells_iff_camelCase.mp h).1, rfl⟩
    have hvalid := isSegment_of_isCamel (by rwa [String.toList_ofList])
    refine ⟨⟨_, hvalid⟩, ?_⟩
    rw [← Segment.key?_text, key?, key?, normalize, normalize, hnormal, String.toList_ofList,
      hcamel.normalizeChars_eq]
  · rintro ⟨segment, hkey⟩
    obtain ⟨chars, hnormal, hfold⟩ := key?_eq_some_iff.mp hkey
    have halpha := isAlphanum_of_foldCase_eq_key hfold
    obtain ⟨hne, rfl⟩ := normalizeChars_eq_some_iff.mp hnormal
    exact spells_iff_camelCase.mpr ⟨hne, fun c hc => halpha c (mem_shieldDigit hc)⟩

/-- A word without lookalikes has letters and digits alone. -/
theorem WordOf.isAlphanum {lookalikes word : List Char} (h : WordOf lookalikes word)
    (hplain : ∀ c ∈ word, c ∉ lookalikes) : ∀ c ∈ word, c.isAlphanum = true := by
  obtain ⟨first, rest, rfl, hfirst, hrest⟩ := h
  exact List.forall_mem_cons.mpr
    ⟨hfirst.resolve_right (hplain first List.mem_cons_self), hrest⟩

/-- **Without lookalikes only segments spell something.** -/
theorem isSegment_of_spells {text : String} (h : Spells text)
    (hplain : ∀ c ∈ text.toList, c ∉ allLookalikes) : isSegment text = true := by
  have hmem : ∀ c, c ∈ (words text.toList).flatten ↔
      c ∈ text.toList ∧ isWordSeparator c = false := by
    simp [flatten_words]
  obtain ⟨first, others, hwords, hfirst, hothers⟩ := h
  rw [hwords] at hmem
  have hin : ∀ word ∈ first :: others, ∀ c ∈ word, c ∉ allLookalikes := fun word hword c hc =>
    hplain c ((hmem c).mp (List.mem_flatten.mpr ⟨word, hword, hc⟩)).1
  have halpha : ∀ c ∈ (first :: others).flatten, c.isAlphanum = true := by
    intro c hc
    obtain ⟨word, hword, hchar⟩ := List.mem_flatten.mp hc
    have hword' := hin word hword
    rcases List.mem_cons.mp hword with rfl | hother
    · exact hfirst.isAlphanum (fun d hd => mt (List.mem_append_left _) (hword' d hd)) c hchar
    · have hlater := hothers word hother
      exact hlater.isAlphanum (fun d hd => mt (List.mem_append_right _) (hword' d hd)) c hchar
  rw [isSegment, Bool.and_eq_true, List.all_eq_true, List.any_eq_true]
  constructor
  · intro c hc
    rw [isSegmentChar_eq, Bool.or_eq_true]
    cases hsep : isWordSeparator c with
    | true => exact .inr rfl
    | false => exact .inl (halpha c ((hmem c).mpr ⟨hc, hsep⟩))
  · obtain ⟨c, rest, rfl, _⟩ := hfirst
    have hc : c ∈ ((c :: rest) :: others).flatten := by simp
    exact ⟨c, ((hmem c).mp hc).1, halpha c hc⟩

end Naming

end AliasCatalog
