import AliasCatalog.Text.Case

/-!
# Unique type names

Different paths may run together to one type name (`foo.bar` and `fooBar`).  Names are told apart
without regard to ASCII case: the first of `Base`, `Base2`, `Base3`, … whose folded form is not taken
yet is used.
-/

namespace AliasCatalog.Accessor

open Text

/-- The proposals for a type name, counted from one: the base itself, then the base with a
number. -/
def proposal (base : String) (number : Nat) : String :=
  if number ≤ 1 then base else base ++ toString number

/-- The first proposal from `number` on whose folded form is not in `taken`.  Proposals differ from
each other, so a name that was met once need not be kept in mind for the next proposal: the list
gets shorter with every refusal. -/
def firstFree (base : String) (number : Nat) (taken : List String) : String :=
  let name := proposal base number
  if _met : foldCase name ∈ taken then firstFree base (number + 1) (taken.erase (foldCase name))
  else name
termination_by taken.length
decreasing_by
  rw [List.length_erase_of_mem _met]
  have := List.length_pos_of_mem _met
  omega

/-- A type name for `base` that differs from all the taken ones, and the taken ones after it is
given. -/
def claimTypeName (base : String) (taken : List String) : String × List String :=
  let name := firstFree base 1 taken
  (name, foldCase name :: taken)

/-- A name is free if its folded form is not taken. -/
theorem firstFree_of_not_mem {base : String} {number : Nat} {taken : List String}
    (free : foldCase (proposal base number) ∉ taken) :
    firstFree base number taken = proposal base number := by
  rw [firstFree]
  simp [free]

end AliasCatalog.Accessor
