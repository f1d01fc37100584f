import AliasCatalog.Json.Reader
import AliasCatalog.Json.Writer
import AliasCatalog.Proofs.Text.Reader

/-!
# Reading what was written

A value written compactly is read back, as long as it nests no deeper than a reader allows
(`parse?_compact`).  Strings may hold any characters: each is written as one part, which is read as
that character or as its code unit, and the parts join to the text.
-/

namespace AliasCatalog.Json

open Text Text.Reader

/-! ## Strings -/

/-- The part of a string as which a written character is read. -/
def pieceOf (c : Char) : Piece :=
  if c.toNat < 0x20 ∧ c ∉ ['\x08', '\x0c', '\n', '\r', '\t'] then .unit c.toNat else .plain c

/-- A number below 256 is read back from four hexadecimal digits. -/
theorem ofHexDigits?_padded {n : Nat} (h : n < 0x100) :
    ofHexDigits? ['0', '0', hexDigit (n / 16), hexDigit (n % 16)] = some n := by
  have hhigh := hexValue?_hexDigit (n / 16) (by omega)
  have hlow := hexValue?_hexDigit (n % 16) (by omega)
  have hzero : hexValue? '0' = some 0 := by decide
  simp only [ofHexDigits?, List.foldlM_cons, List.foldlM_nil, hzero, hhigh, hlow, Option.map_some,
    Option.bind_eq_bind, Option.bind_some, Option.pure_def]
  congr 1
  omega

/-- **A written character is read as one part.** -/
theorem piece_escapeChar (c : Char) (rest : List Char) :
    piece (escapeChar c ++ rest) = some (pieceOf c, rest) := by
  by_cases hshort : c ∈ ['"', '\\', '\x08', '\x0c', '\n', '\r', '\t']
  · simp only [List.mem_cons, List.not_mem_nil, or_false] at hshort
    rcases hshort with rfl | rfl | rfl | rfl | rfl | rfl | rfl <;> rfl
  · simp only [List.mem_cons, List.not_mem_nil, or_false, not_or] at hshort
    obtain ⟨hquote, hslash, hb, hf, hn, hr, ht⟩ := hshort
    by_cases hcontrol : c.toNat < 0x20
    · simp [escapeChar, pieceOf, hquote, hslash, hb, hf, hn, hr, ht, hcontrol, piece, escape,
        ofHexDigits?_padded (show c.toNat < 0x100 by omega)]
    · have hplain : isPlain c = true := by
        simp [isPlain, hquote, hslash]
        omega
      simp [escapeChar, pieceOf, hquote, hslash, hb, hf, hn, hr, ht, hcontrol, piece, hplain]

/-- A unit below the surrogates is a character, whatever follows. -/
theorem joinPieces_unit {code : Nat} (h : code < 0xD800) (pieces : List Piece) :
    joinPieces (.unit code :: pieces) = (joinPieces pieces).map (Char.ofNat code :: ·) := by
  cases pieces with
  | nil => simp [joinPieces, Nat.not_le_of_lt h]
  | cons next pieces =>
      cases next with
      | plain c => cases hrest : joinPieces pieces <;> simp [joinPieces, Nat.not_le_of_lt h, hrest]
      | unit low =>
          have hlow : ¬ 0xDC00 ≤ code := by omega
          simp [joinPieces, Nat.not_le_of_lt h, hlow]

/-- The parts of a written text join to the text. -/
theorem joinPieces_map_pieceOf (chars : List Char) : joinPieces (chars.map pieceOf) = some chars := by
  induction chars with
  | nil => rfl
  | cons c chars ih =>
      rw [List.map_cons, pieceOf]
      by_cases hcontrol : c.toNat < 0x20 ∧ c ∉ ['\x08', '\x0c', '\n', '\r', '\t']
      · rw [if_pos hcontrol, joinPieces_unit (by omega), ih, Char.ofNat_toNat, Option.map_some]
      · rw [if_neg hcontrol, joinPieces, ih, Option.map_some]

/-- A text in quotes, with what follows. -/
theorem toList_quote (text : String) (rest : List Char) :
    (quote text).toList ++ rest = '"' :: (text.toList.flatMap escapeChar ++ '"' :: rest) := by
  simp [quote]

/-- **A written string is read back.** -/
theorem string_quote (text : String) (rest : List Char) :
    string ((quote text).toList ++ rest) = some (text, rest) := by
  have hpieces : many piece (text.toList.flatMap escapeChar ++ '"' :: rest) =
      some (text.toList.map pieceOf, '"' :: rest) := by
    refine @many_eq _ _ piece _ escapeChar pieceOf (fun _ => True) _ ?_ ?_ trivial rfl
    · intro c _ rest _
      exact piece_escapeChar c rest
    · intro c _ rest
      trivial
  rw [toList_quote, string, bind_eq (char_cons _ _), bind_eq hpieces, bind_eq (char_cons _ _),
    joinPieces_map_pieceOf]
  show some (String.ofList text.toList, rest) = some (text, rest)
  rw [String.ofList_toList]

/-! ## Between tokens -/

/-- No blank stands first. -/
def StartsToken (text : List Char) : Prop :=
  ∀ c ∈ text.head?, isBlank c = false

/-- A text that begins with no blank starts a token. -/
theorem startsToken_cons {c : Char} (h : isBlank c = false) (rest : List Char) :
    StartsToken (c :: rest) := by
  intro d hd
  cases hd
  exact h

/-- Before a token there are no blanks to skip. -/
theorem blanks_eq {text : List Char} (h : StartsToken text) : blanks text = some ((), text) := by
  cases text with
  | nil => rfl
  | cons c rest =>
      have hblank : ¬ isBlank c = true := by simp [h c rfl]
      have hnone : takeWhile isBlank (c :: rest) = some ([], c :: rest) := by
        rw [takeWhile, List.takeWhile_cons_of_neg hblank, List.dropWhile_cons_of_neg hblank]
      exact bind_eq hnone

section Listed

variable {α : Type} {item : Reader α} {write : α → List Char} {items : List α} {close : Char}
  {rest : List Char}

/-- A list of written items starts a token, and so does an empty list before its closing bracket. -/
theorem startsToken_separated (hstart : ∀ x ∈ items, ∀ rest, StartsToken (write x ++ rest))
    (hclose : isBlank close = false) :
    StartsToken (separated [','] write items ++ close :: rest) := by
  cases items with
  | nil => exact startsToken_cons hclose rest
  | cons first others =>
      rw [separated, List.append_assoc]
      exact hstart first List.mem_cons_self _

/-- **Items with commas between them are read** up to the closing character, also when there are
none. -/
theorem exists_listed (hitem : ∀ x ∈ items, ∀ rest, item (write x ++ rest) = some (x, rest))
    (hstart : ∀ x ∈ items, ∀ rest, StartsToken (write x ++ rest)) (hclose : isBlank close = false)
    (hcomma : close ≠ ',') (hnone : item (close :: rest) = none) :
    ∃ found, optionally (sepBy1 (item <* blanks) (char ',' *> blanks))
        (separated [','] write items ++ close :: rest) = some (found, close :: rest) ∧
      found.getD [] = items := by
  cases items with
  | nil =>
      refine ⟨none, optionally_of_none ?_, rfl⟩
      exact bind_of_none (bind_of_none hnone)
  | cons first others =>
      refine ⟨some (first :: others), optionally_of_some ?_, rfl⟩
      refine @sepBy1_eq _ _ _ _ _ _ write StartsToken _ _ ?_ ?_ ?_ ?_ ?_
      · intro x hx rest hrest
        exact seqLeft_eq (hitem x hx rest) (blanks_eq hrest)
      · intro x hx rest
        refine ⟨(), ?_⟩
        rw [List.singleton_append, seqRight_eq (char_cons _ _)]
        exact blanks_eq (hstart x (List.mem_cons_of_mem _ hx) rest)
      · intro rest
        exact startsToken_cons rfl rest
      · exact startsToken_cons hclose rest
      · exact seqRight_of_none (char_of_ne hcomma rest)

end Listed

/-! ## Values -/

/-- A member of an object as it is written. -/
def memberText (member : String × Value) : List Char :=
  (quote member.1).toList ++ ':' :: member.2.compact.toList

/-- The items of an array are written with commas between them. -/
theorem toList_compactItems (items : List Value) :
    (compactItems items).toList = separated [','] (fun item => item.compact.toList) items := by
  induction items with
  | nil => rfl
  | cons item rest ih =>
      cases rest with
      | nil => simp [compactItems, separated]
      | cons next rest =>
          rw [compactItems, String.toList_append, String.toList_append, ih]
          · simp [separated]
          · exact List.cons_ne_nil _ _

/-- The members of an object are written with commas between them. -/
theorem toList_compactMembers (members : List (String × Value)) :
    (compactMembers members).toList = separated [','] memberText members := by
  induction members with
  | nil => rfl
  | cons member rest ih =>
      obtain ⟨key, value⟩ := member
      cases rest with
      | nil => simp [compactMembers, separated, memberText]
      | cons next rest =>
          rw [compactMembers, String.toList_append, ih]
          · simp [separated, memberText]
          · exact List.cons_ne_nil _ _

/-- An array is its items between brackets. -/
theorem toList_array (items : List Value) (rest : List Char) :
    (Value.array items).compact.toList ++ rest =
      '[' :: (separated [','] (fun item => item.compact.toList) items ++ ']' :: rest) := by
  simp [Value.compact, toList_compactItems]

/-- An object is its members between braces. -/
theorem toList_object (members : List (String × Value)) (rest : List Char) :
    (Value.object members).compact.toList ++ rest =
      '\x7b' :: (separated [','] memberText members ++ '\x7d' :: rest) := by
  simp [Value.compact, toList_compactMembers]

/-- The value holds no numbers, and at most `depth` arrays and objects are open in it at a time. -/
inductive Shallow : (depth : Nat) → Value → Prop where
  | null {depth : Nat} : Shallow depth .null
  | bool {depth : Nat} (value : Bool) : Shallow depth (.bool value)
  | string {depth : Nat} (text : String) : Shallow depth (.string text)
  | array {depth : Nat} {items : List Value} (within : ∀ item ∈ items, Shallow depth item) :
      Shallow (depth + 1) (.array items)
  | object {depth : Nat} {members : List (String × Value)}
      (within : ∀ member ∈ members, Shallow depth member.2) : Shallow (depth + 1) (.object members)

/-- A written value starts with a token. -/
theorem Shallow.startsToken {depth : Nat} {v : Value} (h : Shallow depth v) (rest : List Char) :
    StartsToken (v.compact.toList ++ rest) := by
  cases h with
  | null => exact startsToken_cons rfl _
  | bool value => cases value <;> exact startsToken_cons rfl _
  | string text =>
      rw [Value.compact, toList_quote]
      exact startsToken_cons rfl _
  | array =>
      rw [toList_array]
      exact startsToken_cons rfl _
  | object =>
      rw [toList_object]
      exact startsToken_cons rfl _

/-! ### Scalars -/

/-- A bracket or brace begins no scalar. -/
theorem scalar_of_bracket {c : Char} (h : c ∈ ['[', ']', '\x7b', '\x7d']) (rest : List Char) :
    scalar (c :: rest) = none := by
  simp only [List.mem_cons, List.not_mem_nil, or_false] at h
  rcases h with rfl | rfl | rfl | rfl <;> rfl

/-- The written null is read back. -/
theorem scalar_null (rest : List Char) : scalar ("null".toList ++ rest) = some (.null, rest) :=
  orElse_of_some (bind_eq (exactly_append "null" rest))

/-- A written truth value is read back. -/
theorem scalar_bool (value : Bool) (rest : List Char) :
    scalar ((Value.bool value).compact.toList ++ rest) = some (.bool value, rest) := by
  have hnull : ∀ {c : Char} (more : List Char), c ≠ 'n' → exactly "null" (c :: more) = none :=
    fun more hne => exactly_of_ne rfl hne more
  have htrue : ∀ {c : Char} (more : List Char), c ≠ 't' → exactly "true" (c :: more) = none :=
    fun more hne => exactly_of_ne rfl hne more
  cases value with
  | true =>
      refine (orElse_of_none (bind_of_none (hnull _ (by decide)))).trans ?_
      exact orElse_of_some (bind_eq (exactly_append "true" rest))
  | false =>
      refine (orElse_of_none (bind_of_none (hnull _ (by decide)))).trans ?_
      refine (orElse_of_none (bind_of_none (htrue _ (by decide)))).trans ?_
      exact orElse_of_some (bind_eq (exactly_append "false" rest))

/-- A quoted text is read back, for no word starts with a quote. -/
theorem scalar_quote (text : String) (rest : List Char) :
    scalar ((quote text).toList ++ rest) = some (.string text, rest) := by
  have hstring : (Value.string <$> string) ((quote text).toList ++ rest) =
      some (.string text, rest) := map_eq (string_quote text rest)
  rw [toList_quote] at hstring ⊢
  rw [scalar, orElse_of_none (bind_of_none (exactly_of_ne rfl (by decide) _)),
    orElse_of_none (bind_of_none (exactly_of_ne rfl (by decide) _)),
    orElse_of_none (bind_of_none (exactly_of_ne rfl (by decide) _)), orElse_of_some hstring]

/-- What is read as a scalar is the value, at any depth. -/
theorem value_of_scalar {text rest : List Char} {v : Value} (h : scalar text = some (v, rest))
    (depth : Nat) : value depth text = some (v, rest) := by
  cases depth with
  | zero => exact h
  | succ depth => exact orElse_of_some h

/-! ### Arrays and objects -/

section Brackets

variable {item : Reader Value} {rest : List Char}

/-- **A written array is read back** when each of its items is. -/
theorem array_compact {items : List Value}
    (hitem : ∀ v ∈ items, ∀ rest, item (v.compact.toList ++ rest) = some (v, rest))
    (hstart : ∀ v ∈ items, ∀ rest, StartsToken (v.compact.toList ++ rest))
    (hnone : item (']' :: rest) = none) :
    array item ((Value.array items).compact.toList ++ rest) = some (.array items, rest) := by
  obtain ⟨found, hlisted, hfound⟩ :=
    @exists_listed _ item (fun v => v.compact.toList) items ']' rest hitem hstart rfl (by decide)
      hnone
  have hblanks := blanks_eq (@startsToken_separated _ _ _ ']' rest hstart rfl)
  rw [toList_array, array, bind_eq (char_cons _ _), bind_eq hblanks, bind_eq hlisted,
    bind_eq (char_cons _ _), hfound]
  rfl

/-- Only a bracket begins an array. -/
theorem array_of_ne {c : Char} (h : c ≠ '[') (rest : List Char) : array item (c :: rest) = none :=
  bind_of_none (char_of_ne h rest)

/-- A written member is read back when its value is. -/
theorem objectMember_memberText {member : String × Value}
    (hitem : ∀ rest, item (member.2.compact.toList ++ rest) = some (member.2, rest))
    (hstart : ∀ rest, StartsToken (member.2.compact.toList ++ rest)) (rest : List Char) :
    objectMember item (memberText member ++ rest) = some (member, rest) := by
  rw [memberText, List.append_assoc, List.cons_append, objectMember, bind_eq (string_quote _ _),
    bind_eq (blanks_eq (startsToken_cons rfl _)), bind_eq (char_cons _ _),
    bind_eq (blanks_eq (hstart _)), bind_eq (hitem _)]
  rfl

/-- **A written object is read back** when the values of its members are. -/
theorem object_compact {members : List (String × Value)}
    (hitem : ∀ member ∈ members, ∀ rest,
      item (member.2.compact.toList ++ rest) = some (member.2, rest))
    (hstart : ∀ member ∈ members, ∀ rest, StartsToken (member.2.compact.toList ++ rest)) :
    object item ((Value.object members).compact.toList ++ rest) = some (.object members, rest) := by
  have hmember : ∀ member ∈ members, ∀ rest, StartsToken (memberText member ++ rest) := by
    intro member _ rest
    rw [memberText, toList_quote]
    exact startsToken_cons rfl _
  obtain ⟨found, hlisted, hfound⟩ :=
    @exists_listed _ (objectMember item) memberText members '\x7d' rest
      (fun member hmem => objectMember_memberText (hitem member hmem) (hstart member hmem))
      hmember rfl (by decide) rfl
  have hblanks := blanks_eq (@startsToken_separated _ _ _ '\x7d' rest hmember rfl)
  rw [toList_object, object, bind_eq (char_cons _ _), bind_eq hblanks, bind_eq hlisted,
    bind_eq (char_cons _ _), hfound]
  rfl

end Brackets

/-- No value starts with a closing bracket. -/
theorem value_of_closing (depth : Nat) (rest : List Char) : value depth (']' :: rest) = none := by
  have hscalar := scalar_of_bracket (show ']' ∈ _ by decide) rest
  cases depth with
  | zero => exact hscalar
  | succ depth =>
      rw [value, orElse_of_none hscalar, orElse_of_none (array_of_ne (by decide) _)]
      exact bind_of_none (char_of_ne (by decide) _)

/-- **A written value is read back**, whatever follows it. -/
theorem Shallow.value_compact {depth : Nat} {v : Value} (h : Shallow depth v) (rest : List Char) :
    value depth (v.compact.toList ++ rest) = some (v, rest) := by
  induction h generalizing rest with
  | null => exact value_of_scalar (scalar_null rest) _
  | bool given => exact value_of_scalar (scalar_bool given rest) _
  | string text =>
      rw [Value.compact]
      exact value_of_scalar (scalar_quote text rest) _
  | @array depth items within ih =>
      have harray := @array_compact _ rest items ih (fun v hv => (within v hv).startsToken)
        (value_of_closing depth rest)
      rw [toList_array] at harray ⊢
      rw [value, orElse_of_none (scalar_of_bracket (by decide) _), orElse_of_some harray]
  | @object depth members within ih =>
      have hobject := @object_compact _ rest members ih
        fun member hm => (within member hm).startsToken
      rw [toList_object] at hobject ⊢
      rw [value, orElse_of_none (scalar_of_bracket (by decide) _),
        orElse_of_none (array_of_ne (by decide) _), hobject]

/-- **Reading undoes writing** for values within the limit of nesting. -/
theorem parse?_compact {v : Value} (h : Shallow maxDepth v) : parse? v.compact = some v := by
  have hvalue := h.value_compact []
  have hstart := h.startsToken []
  rw [List.append_nil] at hvalue hstart
  have hread : (blanks *> value maxDepth <* blanks) v.compact.toList = some (v, []) := by
    refine seqLeft_eq ?_ (blanks_eq ?_)
    · exact (seqRight_eq (blanks_eq hstart)).trans hvalue
    · intro c hc
      cases hc
  have hrun : ((blanks *> value maxDepth <* blanks) <* eof) v.compact.toList = some (v, []) :=
    seqLeft_eq hread rfl
  rw [parse?, run?, StateT.run, hrun]
  rfl

end AliasCatalog.Json
