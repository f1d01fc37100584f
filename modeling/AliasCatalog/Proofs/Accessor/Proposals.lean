import Mathlib.Data.List.DropRight
import AliasCatalog.Accessor.TypeName
import AliasCatalog.Proofs.Naming.Grammar

/-!
# Numbered names

Names are given out one after the other, each the first of `Base`, `Base2`, `Base3`, … whose folded
form was not given before (`claimAll_append`).  So no two folded names are equal (`nodup_claimAll`).
When no base ends in a digit, the names of equal bases are numbered in order and without a gap
(`firstFree_numbered`): a number can be taken off a name again, so proposals for different bases
never meet.
-/

namespace AliasCatalog.Accessor

open Text

/-! ## Proposals -/

/-- The name is the first proposal for the base whose folded form is not taken. -/
def IsFirstFree (base : String) (taken : List String) (name : String) : Prop :=
  ∃ number, 1 ≤ number ∧ name = proposal base number ∧ foldCase name ∉ taken ∧
    ∀ earlier, 1 ≤ earlier → earlier < number → foldCase (proposal base earlier) ∈ taken

/-- A name without the digits at its end. -/
def withoutNumber (name : String) : String :=
  String.ofList (name.toList.rdropWhile Char.isDigit)

/-- The name does not end in a digit. -/
def Unnumbered (name : String) : Prop :=
  withoutNumber name = name

theorem proposal_one (base : String) : proposal base 1 = base := rfl

/-- Every later proposal is the base with its number. -/
theorem proposal_of_lt {base : String} {number : Nat} (h : 1 < number) :
    proposal base number = base ++ toString number := by
  rw [proposal, if_neg (by omega)]

/-- A number is written with its decimal digits. -/
theorem toList_toString (n : Nat) : (toString n).toList = Nat.toDigits 10 n := by
  rw [Nat.toString_eq_repr, Nat.toList_repr]

theorem isDigit_of_mem_toDigits {n : Nat} {c : Char} (h : c ∈ Nat.toDigits 10 n) :
    c.isDigit = true :=
  Nat.isDigit_of_mem_toDigits (by omega) (by omega) h

theorem toLower_of_isDigit {c : Char} (h : c.isDigit = true) : c.toLower = c := by
  obtain ⟨code, hcode, rfl⟩ :=
    Naming.exists_code_of_isAlphanum (Naming.isAlphanum_of_isDigit h)
  revert h
  revert code
  decide

theorem foldCase_append (a b : String) : foldCase (a ++ b) = foldCase a ++ foldCase b := by
  apply String.toList_inj.mp
  simp

/-- A written number is folded already. -/
theorem foldCase_toString (n : Nat) : foldCase (toString n) = toString n := by
  apply String.toList_inj.mp
  rw [toList_foldCase, toList_toString]
  have hdigits : ∀ c ∈ Nat.toDigits 10 n, c.toLower = id c :=
    fun c hc => toLower_of_isDigit (isDigit_of_mem_toDigits hc)
  rw [List.map_congr_left hdigits, List.map_id]

/-- Folding a proposal is proposing for the folded base. -/
theorem foldCase_proposal (base : String) (number : Nat) :
    foldCase (proposal base number) = proposal (foldCase base) number := by
  by_cases hone : number ≤ 1
  · rw [proposal, proposal, if_pos hone, if_pos hone]
  · rw [proposal, proposal, if_neg hone, if_neg hone, foldCase_append, foldCase_toString]

/-- No two proposals for a base are equal. -/
theorem proposal_inj {base : String} {m n : Nat} (hm : 1 ≤ m) (hn : 1 ≤ n)
    (h : proposal base m = proposal base n) : m = n := by
  have hlonger : ∀ k : Nat, base ≠ base ++ toString k := by
    intro k heq
    have hlength := congrArg String.length heq
    have hdigits : 0 < (toString k).length := Nat.length_repr_pos
    rw [String.length_append] at hlength
    omega
  rcases Nat.eq_or_lt_of_le hm with rfl | hm <;> rcases Nat.eq_or_lt_of_le hn with rfl | hn
  · rfl
  · rw [proposal_one, proposal_of_lt hn] at h
    exact absurd h (hlonger n)
  · rw [proposal_one, proposal_of_lt hm] at h
    exact absurd h.symm (hlonger m)
  · rw [proposal_of_lt hm, proposal_of_lt hn] at h
    have hdigits := congrArg String.toList h
    rw [String.toList_append, String.toList_append, List.append_cancel_left_eq, toList_toString,
      toList_toString] at hdigits
    rw [← Nat.ofDigitChars_ten_toDigits (n := m), hdigits, Nat.ofDigitChars_ten_toDigits]

/-- Nor do two of them fold alike. -/
theorem foldCase_proposal_inj {base : String} {m n : Nat} (hm : 1 ≤ m) (hn : 1 ≤ n)
    (h : foldCase (proposal base m) = foldCase (proposal base n)) : m = n := by
  rw [foldCase_proposal, foldCase_proposal] at h
  exact proposal_inj hm hn h

/-- The number of a proposal can be taken off. -/
theorem withoutNumber_proposal (base : String) (number : Nat) :
    withoutNumber (proposal base number) = withoutNumber base := by
  by_cases hone : number ≤ 1
  · rw [proposal, if_pos hone]
  · rw [proposal, if_neg hone, withoutNumber, withoutNumber, String.toList_append, toList_toString]
    unfold List.rdropWhile
    rw [List.reverse_append, List.dropWhile_append_of_pos]
    intro c hc
    exact isDigit_of_mem_toDigits (List.mem_reverse.mp hc)

/-- Proposals for bases without numbers tell their base and their number. -/
theorem eq_of_proposal_eq {a b : String} {m n : Nat} (ha : Unnumbered a) (hb : Unnumbered b)
    (hm : 1 ≤ m) (hn : 1 ≤ n) (h : proposal a m = proposal b n) : a = b ∧ m = n := by
  have hbase : a = b := by
    rw [← ha, ← hb, ← withoutNumber_proposal a m, h, withoutNumber_proposal]
  subst hbase
  exact ⟨rfl, proposal_inj hm hn h⟩

/-! ## The first free proposal -/

/-- The search ends at the first free proposal from its start on.  A name that it strikes off the list is no
later proposal, so nothing is missed. -/
theorem firstFree_spec (base : String) {number : Nat} (hnumber : 1 ≤ number) (taken : List String) :
    ∃ last, number ≤ last ∧ firstFree base number taken = proposal base last ∧
      foldCase (proposal base last) ∉ taken ∧
      ∀ earlier, number ≤ earlier → earlier < last → foldCase (proposal base earlier) ∈ taken := by
  induction number, taken using firstFree.induct base with
  | case1 number taken name hmet ih =>
      have hmem : foldCase (proposal base number) ∈ taken := hmet
      obtain ⟨last, hle, heq, hfree, hearlier⟩ := ih (by omega)
      have hother : ∀ later, number < later →
          foldCase (proposal base later) ≠ foldCase (proposal base number) := by
        intro later hlater hsame
        have := foldCase_proposal_inj (by omega) hnumber hsame
        omega
      refine ⟨last, by omega, ?_, ?_, ?_⟩
      · rw [firstFree]
        simpa [hmem] using heq
      · exact fun hin => hfree ((List.mem_erase_of_ne (hother last hle)).mpr hin)
      · intro earlier hfrom hbefore
        rcases Nat.eq_or_lt_of_le hfrom with rfl | hfrom
        · exact hmem
        · exact List.mem_of_mem_erase (hearlier earlier hfrom hbefore)
  | case2 number taken name hfree =>
      exact ⟨number, Nat.le_refl _, firstFree_of_not_mem hfree, hfree, fun _ _ _ => by omega⟩

/-- **A name is the first free proposal for its base.** -/
theorem isFirstFree_firstFree (base : String) (taken : List String) :
    IsFirstFree base taken (firstFree base 1 taken) := by
  obtain ⟨number, hnumber, heq, hfree, hearlier⟩ := firstFree_spec base (Nat.le_refl 1) taken
  exact ⟨number, hnumber, heq, heq ▸ hfree, hearlier⟩

/-- Only the members of the taken names matter, not their order. -/
theorem IsFirstFree.congr {base name : String} {taken other : List String}
    (h : IsFirstFree base taken name) (hsame : ∀ folded, folded ∈ taken ↔ folded ∈ other) :
    IsFirstFree base other name := by
  obtain ⟨number, hnumber, heq, hfree, hearlier⟩ := h
  exact ⟨number, hnumber, heq, fun hin => hfree ((hsame _).mpr hin),
    fun earlier hone hbefore => (hsame _).mp (hearlier earlier hone hbefore)⟩

/-- When just the first `count` proposals are taken, the next one is free. -/
theorem firstFree_of_mem_iff {base : String} {taken : List String} {count : Nat}
    (h : ∀ number, 1 ≤ number →
      (foldCase (proposal base number) ∈ taken ↔ number ≤ count)) :
    firstFree base 1 taken = proposal base (count + 1) := by
  obtain ⟨number, hnumber, heq, hfree, hearlier⟩ := firstFree_spec base (Nat.le_refl 1) taken
  have hlarge : ¬ number ≤ count := fun hle => hfree ((h number hnumber).mpr hle)
  have hsmall : ¬ count + 1 < number := by
    intro hlt
    have := (h (count + 1) (by omega)).mp (hearlier (count + 1) (by omega) hlt)
    omega
  rw [heq, show number = count + 1 by omega]

/-! ## Names for a list of bases -/

/-- The names for some bases, given out one after the other. -/
def claimAll (taken : List String) : List String → List String
  | [] => []
  | base :: rest =>
      (claimTypeName base taken).1 :: claimAll (claimTypeName base taken).2 rest

/-- There is one name for each base. -/
theorem length_claimAll (taken bases : List String) :
    (claimAll taken bases).length = bases.length := by
  induction bases generalizing taken with
  | nil => rfl
  | cons base rest ih => simp [claimAll, ih]

/-- The first base is its own name. -/
theorem claimAll_cons (base : String) (rest : List String) :
    claimAll [] (base :: rest) = base :: claimAll [foldCase base] rest := by
  have hname : firstFree base 1 [] = base := firstFree_of_not_mem List.not_mem_nil
  simp [claimAll, claimTypeName, hname]

/-- What was given out before is taken for what comes after. -/
theorem claimAll_append (taken before after : List String) :
    claimAll taken (before ++ after) = claimAll taken before ++
      claimAll (((claimAll taken before).map foldCase).reverse ++ taken) after := by
  induction before generalizing taken with
  | nil => rfl
  | cons base rest ih => simp [claimAll, ih, claimTypeName]

/-- **No folded name is given twice**, and none that is taken. -/
theorem nodup_claimAll (taken bases : List String) :
    ((claimAll taken bases).map foldCase).Nodup ∧
      ∀ name ∈ claimAll taken bases, foldCase name ∉ taken := by
  induction bases generalizing taken with
  | nil => simp [claimAll]
  | cons base rest ih =>
      obtain ⟨hnodup, hfree⟩ := ih (claimTypeName base taken).2
      obtain ⟨_, _, _, hfirst, _⟩ := isFirstFree_firstFree base taken
      simp only [claimAll, List.map_cons, List.nodup_cons, List.forall_mem_cons]
      refine ⟨⟨?_, hnodup⟩, hfirst, fun name hname htaken => ?_⟩
      · intro hmem
        obtain ⟨name, hname, hsame⟩ := List.mem_map.mp hmem
        exact hfree name hname (hsame ▸ List.mem_cons_self)
      · exact hfree name hname (List.mem_cons_of_mem _ htaken)

/-! ## Numbering -/

/-- No proposal for the base is taken from the start. -/
def Clear (taken : List String) (base : String) : Prop :=
  ∀ number, 1 ≤ number → foldCase (proposal base number) ∉ taken

/-- How many of some bases fold as one does. -/
def sameBases (bases : List String) (base : String) : Nat :=
  bases.countP (foldCase · == foldCase base)

/-- A base whose proposals were given out as often as it was asked for gets the next number. -/
theorem firstFree_of_mem_claimAll_iff {taken bases : List String} {base : String}
    (hclear : Clear taken base)
    (h : ∀ number, 1 ≤ number → (foldCase (proposal base number) ∈
      (claimAll taken bases).map foldCase ↔ number ≤ sameBases bases base)) :
    firstFree base 1 (((claimAll taken bases).map foldCase).reverse ++ taken) =
      proposal base (sameBases bases base + 1) := by
  apply firstFree_of_mem_iff
  intro number hnumber
  rw [List.mem_append, List.mem_reverse, h number hnumber]
  exact or_iff_left (hclear number hnumber)

/-- Bases that fold alike ask for the same names. -/
theorem foldCase_proposal_eq_iff {a b : String} (ha : Unnumbered (foldCase a))
    (hb : Unnumbered (foldCase b)) {m n : Nat} (hm : 1 ≤ m) (hn : 1 ≤ n) :
    foldCase (proposal a m) = foldCase (proposal b n) ↔ foldCase a = foldCase b ∧ m = n := by
  rw [foldCase_proposal, foldCase_proposal]
  constructor
  · exact eq_of_proposal_eq ha hb hm hn
  · intro hgiven
    obtain ⟨hbase, rfl⟩ := hgiven
    rw [hbase]

section Numbering

variable {taken bases : List String}
  (h : ∀ base ∈ bases, Unnumbered (foldCase base) ∧ Clear taken base)
include h

/-- Of the proposals for a base those are given out that equal bases asked for. -/
theorem mem_claimAll_iff {base : String} (hbase : Unnumbered (foldCase base)) {number : Nat}
    (hnumber : 1 ≤ number) :
    foldCase (proposal base number) ∈ (claimAll taken bases).map foldCase ↔
      number ≤ sameBases bases base := by
  induction bases using List.reverseRecOn generalizing base number with
  | nil => simp [claimAll, sameBases]; omega
  | append_singleton bases last ih =>
      obtain ⟨hearlier, hlast⟩ := List.forall_mem_append.mp h
      obtain ⟨hunnumbered, hclear⟩ := hlast last List.mem_cons_self
      have hname := firstFree_of_mem_claimAll_iff hclear fun n hn => ih hearlier hunnumbered hn
      have hmeets := @foldCase_proposal_eq_iff base last hbase hunnumbered number
        (sameBases bases last + 1) hnumber (by omega)
      have hcount : sameBases (bases ++ [last]) base =
          sameBases bases base + if foldCase last = foldCase base then 1 else 0 := by
        simp [sameBases, List.countP_append, List.countP_cons]
      rw [claimAll_append, List.map_append, List.mem_append, ih hearlier hbase hnumber, hcount]
      simp only [claimAll, claimTypeName, List.map_cons, List.map_nil, List.mem_singleton, hname,
        hmeets]
      by_cases hsame : foldCase last = foldCase base
      · have hcounts : sameBases bases last = sameBases bases base := by
          rw [sameBases, sameBases, hsame]
        rw [if_pos hsame, hcounts]
        constructor
        · intro hcases
          rcases hcases with hle | ⟨_, heq⟩ <;> omega
        · intro hle
          rcases Nat.lt_or_eq_of_le hle with hlt | heq
          · exact .inl (by omega)
          · exact .inr ⟨hsame.symm, heq⟩
      · rw [if_neg hsame, Nat.add_zero]
        exact or_iff_left fun hgiven => hsame hgiven.1.symm

/-- **Names for equal bases are numbered in order.**  A base is given the number after those of the
equal bases before it. -/
theorem firstFree_numbered {base : String} (hbase : Unnumbered (foldCase base))
    (hclear : Clear taken base) :
    firstFree base 1 (((claimAll taken bases).map foldCase).reverse ++ taken) =
      proposal base (sameBases bases base + 1) :=
  firstFree_of_mem_claimAll_iff hclear fun _ hnumber => mem_claimAll_iff h hbase hnumber

end Numbering

end AliasCatalog.Accessor
