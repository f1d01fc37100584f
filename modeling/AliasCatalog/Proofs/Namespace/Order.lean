import AliasCatalog.Proofs.Namespace.Build

/-!
# Trees and the order of declarations

A permuted list of declarations makes the same tree, or fails in the same way
(`ofDeclarations_perm`).  Validation and insertion stop at a place that depends on the order, so
their errors agree in cause and kind only; a collision is found in the gathered forest, which does
not depend on the order, and is the same in every field.
-/

namespace AliasCatalog

open Naming

namespace Naming.NamingError

/-- The errors have one cause and one kind; collisions are equal. -/
inductive Agrees : NamingError → NamingError → Prop where
  | invalidName (kind : Kind) (name other : String) (reason otherReason : InvalidReason) :
      Agrees (.invalidName kind name reason) (.invalidName kind other otherReason)
  | duplicateAlias (kind : Kind) (name other : String) :
      Agrees (.duplicateAlias kind name) (.duplicateAlias kind other)
  | collision (kind : Kind) (parent first second : String) (identifier : Identifier) :
      Agrees (.collision kind parent first second identifier)
        (.collision kind parent first second identifier)

/-- Every error agrees with itself. -/
theorem Agrees.refl (error : NamingError) : error.Agrees error := by
  cases error with
  | invalidName kind name reason => exact .invalidName _ _ _ _ _
  | duplicateAlias kind name => exact .duplicateAlias _ _ _
  | collision kind parent first second identifier => exact .collision _ _ _ _ _

end Naming.NamingError

namespace Namespace.Tree

variable {kind : Kind} {declarations others : List Declaration}

/-- Admissible declarations end in one result in any order. -/
theorem ofDeclarations_eq_of_perm (h : Admissible kind declarations)
    (hperm : declarations.Perm others) :
    ofDeclarations kind declarations = ofDeclarations kind others := by
  obtain ⟨forest, hgathers, hbuild⟩ := exists_gathers h
  obtain ⟨other, hgathers', hbuild'⟩ := exists_gathers (h.perm hperm)
  rw [hbuild, hbuild', hgathers.eq_of_perm hgathers' (hperm.map located)]

/-- **A tree does not depend on the order of the declarations**, and how a build fails does not
either. -/
theorem ofDeclarations_perm (hperm : declarations.Perm others) :
    Alike NamingError.Agrees (ofDeclarations kind declarations) (ofDeclarations kind others) := by
  by_cases hread : ∀ d ∈ declarations, Readable kind d
  · have hread' : ∀ d ∈ others, Readable kind d := fun d hd => hread d (hperm.mem_iff.mpr hd)
    by_cases hnodup : (declarations.map (·.name)).Nodup
    · rw [ofDeclarations_eq_of_perm ⟨hread, hnodup⟩ hperm]
      exact .refl NamingError.Agrees.refl _
    · have hnodup' : ¬ (others.map (·.name)).Nodup :=
        fun h => hnodup ((hperm.map _).nodup_iff.mpr h)
      obtain ⟨d, hrepeat⟩ := exists_isFirstRepeat hnodup
      obtain ⟨e, hrepeat'⟩ := exists_isFirstRepeat hnodup'
      exact .inr ⟨_, _, ofDeclarations_repeated hread hrepeat,
        ofDeclarations_repeated hread' hrepeat', .duplicateAlias kind d.name e.name⟩
  · have hread' : ¬ ∀ d ∈ others, Readable kind d :=
      fun h => hread fun d hd => h d (hperm.mem_iff.mp hd)
    obtain ⟨name, reason, hrun⟩ := ofDeclarations_isInvalid hread
    obtain ⟨other, otherReason, hrun'⟩ := ofDeclarations_isInvalid hread'
    exact .inr ⟨_, _, hrun, hrun', .invalidName kind name other reason otherReason⟩

end Namespace.Tree

end AliasCatalog
