import Mathlib.Data.Finset.Card
import AliasCatalog.Proofs.Accessor.Proposals

/-!
# The search for a free name

A name is looked for by a loop over a counter: as long as the folded candidate is among the taken names,
the candidate becomes the base with the number of the counter, and the counter goes up.  Nothing in the
loop gets smaller.  It ends because no two candidates fold alike, so that the taken names can refuse at
most as many candidates as there are of them.  `claimTypeName_eq_search` says that the loop, run for any
number of rounds, ends in the round of the first free proposal with the name that is claimed, and in no
round before.
-/

namespace AliasCatalog.Accessor

open Text

/-- The loop with a limit on its rounds: a candidate whose folded form is taken gives way to the base with
the number of the counter, a free one ends the search and its folded form is added to the taken names.
There is no result when the rounds are used up. -/
def search (base : String) (taken : Finset String) :
    Nat → String → Nat → Option (String × Finset String)
  | 0, _, _ => none
  | rounds + 1, candidate, counter =>
      if foldCase candidate ∈ taken then
        search base taken rounds (base ++ toString counter) (counter + 1)
      else some (candidate, insert (foldCase candidate) taken)

variable {base : String} {taken : Finset String} {number : Nat}

/-! ## One round -/

/-- In a round with a refused proposal the search moves on to the next one. -/
theorem search_of_mem (h : foldCase (proposal base number) ∈ taken) (hnumber : 1 ≤ number)
    (rounds : Nat) :
    search base taken (rounds + 1) (proposal base number) (number + 1) =
      search base taken rounds (proposal base (number + 1)) (number + 2) := by
  rw [search, if_pos h, proposal_of_lt (show 1 < number + 1 by omega)]

/-- In a round with a free candidate the search ends with it. -/
theorem search_of_notMem {candidate : String} (h : foldCase candidate ∉ taken)
    (rounds counter : Nat) :
    search base taken (rounds + 1) candidate counter =
      some (candidate, insert (foldCase candidate) taken) := by
  rw [search, if_neg h]

/-! ## All rounds -/

/-- The search passes over refused proposals and ends with the first free one, if it has a round left
for that. -/
theorem search_eq_ite {refused : Nat} (hnumber : 1 ≤ number)
    (hrefused : ∀ k < refused, foldCase (proposal base (number + k)) ∈ taken)
    (hfree : foldCase (proposal base (number + refused)) ∉ taken) (rounds : Nat) :
    search base taken rounds (proposal base number) (number + 1) =
      if refused < rounds then
        some (proposal base (number + refused),
          insert (foldCase (proposal base (number + refused))) taken)
      else none := by
  induction rounds generalizing number refused with
  | zero => rfl
  | succ rounds ih =>
      cases refused with
      | zero =>
          rw [Nat.add_zero] at hfree
          rw [search_of_notMem hfree, if_pos (Nat.succ_pos rounds)]
          rfl
      | succ refused =>
          have hnext : ∀ k, number + 1 + k = number + (k + 1) := by omega
          have hlater : ∀ k < refused, foldCase (proposal base (number + 1 + k)) ∈ taken := by
            intro k hk
            rw [hnext]
            exact hrefused (k + 1) (by omega)
          have hfirst : foldCase (proposal base number) ∈ taken := hrefused 0 (by omega)
          rw [search_of_mem hfirst hnumber, @ih (number + 1) refused (by omega) hlater (by rwa [hnext]),
            hnext]
          simp only [Nat.add_lt_add_iff_right]

/-- **There are no more refused proposals than taken names**, for no two proposals fold alike. -/
theorem refused_le_card {refused : Nat}
    (h : ∀ k < refused, foldCase (proposal base (1 + k)) ∈ taken) : refused ≤ taken.card := by
  have hinto : ∀ k ∈ Finset.range refused, foldCase (proposal base (1 + k)) ∈ taken :=
    fun k hk => h k (Finset.mem_range.mp hk)
  have hapart : Set.InjOn (fun k => foldCase (proposal base (1 + k))) (Finset.range refused) := by
    intro m _ n _ hsame
    have := foldCase_proposal_inj (by omega) (by omega) hsame
    omega
  have hcard := Finset.card_le_card_of_injOn _ hinto hapart
  rwa [Finset.card_range] at hcard

/-! ## The claimed name -/

/-- **The search ends with the claimed name**, which is the first proposal whose folded form is not taken.
It takes one round for each refused proposal and one for the claimed name, and no more proposals are
refused than names are taken; the folded form of the claimed name alone is then added to the taken
names. -/
theorem claimTypeName_eq_search (base : String) (taken : List String) :
    ∃ refused ≤ taken.toFinset.card,
      (claimTypeName base taken).1 = proposal base (refused + 1) ∧
      foldCase (claimTypeName base taken).1 ∉ taken ∧
      (∀ number, 1 ≤ number → number ≤ refused → foldCase (proposal base number) ∈ taken) ∧
      (claimTypeName base taken).2.toFinset =
        insert (foldCase (claimTypeName base taken).1) taken.toFinset ∧
      ∀ rounds, search base taken.toFinset rounds base 2 =
        if refused < rounds then
          some ((claimTypeName base taken).1, (claimTypeName base taken).2.toFinset)
        else none := by
  obtain ⟨number, hnumber, hname, hfree, hearlier⟩ := isFirstFree_firstFree base taken
  obtain ⟨refused, rfl⟩ : ∃ refused, number = 1 + refused := ⟨number - 1, by omega⟩
  have hrefused : ∀ k < refused, foldCase (proposal base (1 + k)) ∈ taken.toFinset :=
    fun k hk => List.mem_toFinset.mpr (hearlier (1 + k) (by omega) (by omega))
  have hlast : foldCase (proposal base (1 + refused)) ∉ taken.toFinset :=
    mt List.mem_toFinset.mp (hname ▸ hfree)
  have hclaimed : (claimTypeName base taken).1 = proposal base (1 + refused) := hname
  have htaken : (claimTypeName base taken).2.toFinset =
      insert (foldCase (claimTypeName base taken).1) taken.toFinset := List.toFinset_cons
  refine ⟨refused, refused_le_card hrefused, ?_, hfree, ?_, htaken, fun rounds => ?_⟩
  · rw [hclaimed, Nat.add_comm]
  · exact fun number hone hle => hearlier number hone (by omega)
  · rw [htaken, hclaimed]
    exact search_eq_ite (Nat.le_refl 1) hrefused hlast rounds

end AliasCatalog.Accessor
