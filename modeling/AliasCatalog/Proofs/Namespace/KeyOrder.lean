import AliasCatalog.Proofs.Namespace.Declared
import AliasCatalog.Proofs.Naming.Siblings

/-!
# Keys among siblings

The allocation of identifiers visits every set of siblings.  It goes through exactly when siblings
have different keys everywhere (`checkBelow_eq_ok`, `checkBelow_isCollision`).  Sorting the siblings
by key afterwards loses no declaration, and with different keys the order is strict
(`ordered_sortByKey`).
-/

namespace AliasCatalog.Namespace

open Naming

/-! ## Allocation -/

/-- The allocation of siblings is that of their segments. -/
theorem checkSiblings_eq_map {kind : Kind} {parent : List Segment} {siblings : Forest Entry} :
    checkSiblings kind parent siblings =
      ((Allocator.start kind (pathText parent)).allocateAll
        ((siblings.roots.map (·.segment)).map (·.text))).map fun _ => () := by
  rw [List.map_map, checkSiblings]
  rfl

/-- Siblings are apart when their segments have different keys. -/
theorem nodup_keys_iff {siblings : Forest Entry} :
    ((siblings.roots.map (·.segment)).map (·.key)).Nodup ↔ siblings.roots.Pairwise Entry.Apart := by
  rw [List.map_map, List.Nodup, List.pairwise_map]
  rfl

/-- Siblings with different keys all get their identifiers. -/
theorem checkSiblings_eq_ok {kind : Kind} {parent : List Segment} {siblings : Forest Entry}
    (h : siblings.roots.Pairwise Entry.Apart) : checkSiblings kind parent siblings = .ok () := by
  rw [checkSiblings_eq_map, Allocator.allocateAll_eq_ok (nodup_keys_iff.mpr h)]
  rfl

/-- Siblings that share a key are refused for a collision. -/
theorem checkSiblings_isCollision {kind : Kind} {parent : List Segment} {siblings : Forest Entry}
    (h : ¬ siblings.roots.Pairwise Entry.Apart) :
    ∃ error, checkSiblings kind parent siblings = .error error ∧ error.IsCollision kind := by
  have hnot : ¬ ((siblings.roots.map (·.segment)).map (·.key)).Nodup := by
    intro hnodup
    exact h (nodup_keys_iff.mp hnodup)
  obtain ⟨error, hrun, hcollision⟩ :=
    @Allocator.allocateAll_isCollision kind (pathText parent) _ hnot
  refine ⟨error, ?_, hcollision⟩
  rw [checkSiblings_eq_map, hrun]
  rfl

/-- Below siblings everything is named when keys differ everywhere. -/
theorem checkBelow_eq_ok {kind : Kind} {parent : List Segment} {forest : Forest Entry}
    (h : ∀ tree ∈ forest.trees, tree.2.Ordered Entry.Apart) :
    checkBelow kind parent forest = .ok () := by
  induction forest generalizing parent with
  | nil => rfl
  | cons entry children siblings below beside =>
      obtain ⟨hchildren, hsiblings⟩ := List.forall_mem_cons.mp h
      obtain ⟨hroots, hbelow⟩ := Forest.ordered_iff.mp hchildren
      rw [checkBelow, beside hsiblings, checkSiblings_eq_ok hroots, below hbelow]
      rfl

/-- A collision below some siblings is found. -/
theorem checkBelow_isCollision {kind : Kind} {parent : List Segment} {forest : Forest Entry}
    (h : ¬ ∀ tree ∈ forest.trees, tree.2.Ordered Entry.Apart) :
    ∃ error, checkBelow kind parent forest = .error error ∧ error.IsCollision kind := by
  induction forest generalizing parent with
  | nil => exact absurd (by simp [Forest.trees]) h
  | cons entry children siblings below beside =>
      unfold checkBelow
      by_cases hsiblings : ∀ tree ∈ siblings.trees, tree.2.Ordered Entry.Apart
      · rw [checkBelow_eq_ok hsiblings]
        have hchildren : ¬ children.Ordered Entry.Apart :=
          fun hord => h (List.forall_mem_cons.mpr ⟨hord, hsiblings⟩)
        by_cases hroots : children.roots.Pairwise Entry.Apart
        · obtain ⟨error, hrun, hcollision⟩ := @below (parent ++ [entry.segment])
            fun hbelow => hchildren (Forest.ordered_iff.mpr ⟨hroots, hbelow⟩)
          refine ⟨error, ?_, hcollision⟩
          rw [checkSiblings_eq_ok hroots]
          exact hrun
        · obtain ⟨error, hrun, hcollision⟩ :=
            @checkSiblings_isCollision kind (parent ++ [entry.segment]) _ hroots
          refine ⟨error, ?_, hcollision⟩
          rw [hrun]
          rfl
      · obtain ⟨error, hrun, hcollision⟩ := @beside parent hsiblings
        refine ⟨error, ?_, hcollision⟩
        rw [hrun]
        rfl

/-! ## Sorting -/

/-- Placing a tree adds its root to the others. -/
theorem roots_placeByKey (entry : Entry) (children forest : Forest Entry) :
    (placeByKey entry children forest).roots.Perm (entry :: forest.roots) := by
  induction forest with
  | nil => exact .refl _
  | cons other below beside _ ih =>
      unfold placeByKey
      split
      · exact .refl _
      · exact (ih.cons other).trans (.swap _ _ _)

/-- Placing a tree adds its declarations to the others. -/
theorem declared_placeByKey (entry : Entry) (children forest : Forest Entry) :
    (declared (placeByKey entry children forest)).Perm
      (declared (.cons entry children forest)) := by
  induction forest with
  | nil => exact .refl _
  | cons other below beside _ ih =>
      unfold placeByKey
      split
      · exact .refl _
      · refine ((ih.append_left _).trans ?_)
        simp only [declared]
        exact List.perm_append_comm_assoc _ _ _

/-- Placing a tree keeps a forest grounded. -/
theorem grounded_placeByKey {entry : Entry} {children forest : Forest Entry}
    (h : Grounded (.cons entry children forest)) :
    Grounded (placeByKey entry children forest) := by
  induction forest with
  | nil => exact h
  | cons other below beside _ ih =>
      obtain ⟨hroot, hchildren, hother⟩ := h
      unfold placeByKey
      split
      · exact ⟨hroot, hchildren, hother⟩
      · exact ⟨hother.1, hother.2.1, ih ⟨hroot, hchildren, hother.2.2⟩⟩

/-- Placing a tree whose root is apart from all others keeps the order of keys. -/
theorem ordered_placeByKey {entry : Entry} {children forest : Forest Entry}
    (hapart : ∀ other ∈ forest.roots, Entry.Apart entry other)
    (hchildren : children.Ordered Entry.KeyBefore) (hforest : forest.Ordered Entry.KeyBefore) :
    (placeByKey entry children forest).Ordered Entry.KeyBefore := by
  induction forest with
  | nil => exact ⟨by simp [Forest.roots], hchildren, hforest⟩
  | cons other below beside _ ih =>
      obtain ⟨hfirst, hbelow, hbeside⟩ := hforest
      obtain ⟨hother, hlater⟩ := List.forall_mem_cons.mp hapart
      unfold placeByKey
      split
      case isTrue hle =>
          have hlt : Entry.KeyBefore entry other :=
            String.not_le.mp fun hge => hother (String.le_antisymm hle hge)
          refine ⟨fun root hroot => ?_, hchildren, hfirst, hbelow, hbeside⟩
          rcases List.mem_cons.mp hroot with rfl | hroot
          · exact hlt
          · exact String.lt_trans hlt (hfirst root hroot)
      case isFalse hgt =>
          refine ⟨fun root hroot => ?_, hbelow, ih hlater hbeside⟩
          rcases List.mem_cons.mp ((roots_placeByKey _ _ _).mem_iff.mp hroot) with rfl | hroot
          · exact String.not_le.mp hgt
          · exact hfirst root hroot

/-- Sorting keeps the roots. -/
theorem roots_sortByKey (forest : Forest Entry) :
    (sortByKey forest).roots.Perm forest.roots := by
  induction forest with
  | nil => exact .refl _
  | cons entry children siblings _ beside =>
      exact (roots_placeByKey _ _ _).trans (beside.cons entry)

/-- **Sorting loses no declaration.** -/
theorem declared_sortByKey (forest : Forest Entry) :
    (declared (sortByKey forest)).Perm (declared forest) := by
  induction forest with
  | nil => exact .refl _
  | cons entry children siblings below beside =>
      apply (declared_placeByKey _ _ _).trans
      simp only [declared, declaredFrom]
      exact ((below.append_left _).map _).append beside

/-- Sorting keeps a forest grounded. -/
theorem grounded_sortByKey {forest : Forest Entry} (h : Grounded forest) :
    Grounded (sortByKey forest) := by
  induction forest with
  | nil => trivial
  | cons entry children siblings below beside =>
      refine grounded_placeByKey ⟨fun hleaf hnil => ?_, below h.2.1, beside h.2.2⟩
      obtain ⟨path, d, hmem⟩ := exists_mem_declared h.2.1 (h.1 hleaf)
      have hsorted := (declared_sortByKey children).mem_iff.mpr hmem
      simp [hnil, declared] at hsorted

/-- **Sorting puts siblings with different keys in strict order.** -/
theorem ordered_sortByKey {forest : Forest Entry} (h : forest.Ordered Entry.Apart) :
    (sortByKey forest).Ordered Entry.KeyBefore := by
  induction forest with
  | nil => trivial
  | cons entry children siblings below beside =>
      refine ordered_placeByKey (fun other hother => ?_) (below h.2.1) (beside h.2.2)
      exact h.1 other ((roots_sortByKey siblings).mem_iff.mp hother)

end AliasCatalog.Namespace
