import AliasCatalog.Proofs.Namespace.Declared

/-!
# Clashing names

Two names clash when they go the same way for a while and then on to different segments with one
key.  Whether siblings somewhere in a forest share a key can be read off the declared names alone:
it is the case exactly when two of them clash (`ordered_apart_iff`).
-/

namespace AliasCatalog.Namespace

open Naming

/-- The paths agree up to some segment; the next segments are different and have one key. -/
def PathClash (p q : List Segment) : Prop :=
  ∃ shared a b restp restq, p = shared ++ a :: restp ∧ q = shared ++ b :: restq ∧
    a ≠ b ∧ a.key = b.key

/-- The names agree up to some part; the next parts of both are different texts with one key. -/
def Clash (name other : String) : Prop :=
  ∃ shared a b resta restb, splitDots name = shared ++ a :: resta ∧
    splitDots other = shared ++ b :: restb ∧ a ≠ b ∧ key? a = key? b

/-- Accepted names clash as their paths do. -/
theorem clash_iff {name other : String} (hname : Accepted name) (hother : Accepted other) :
    Clash name other ↔ PathClash (segmentsOf name) (segmentsOf other) := by
  constructor
  · intro hgiven
    obtain ⟨shared, a, b, resta, restb, ha, hb, hne, hkey⟩ := hgiven
    rw [← hname.texts_segmentsOf] at ha
    rw [← hother.texts_segmentsOf] at hb
    obtain ⟨p, p', hp, rfl, hp'⟩ := List.map_eq_append_iff.mp ha
    obtain ⟨q, q', hq, hshared, hq'⟩ := List.map_eq_append_iff.mp hb
    obtain ⟨a, resta, rfl, rfl, rfl⟩ := List.map_eq_cons_iff.mp hp'
    obtain ⟨b, restb, rfl, rfl, rfl⟩ := List.map_eq_cons_iff.mp hq'
    have hsame : q = p := (List.map_inj_right fun _ _ => Segment.eq_of_text).mp hshared
    subst hsame
    refine ⟨q, a, b, resta, restb, hp, hq, fun heq => hne (heq ▸ rfl), ?_⟩
    simpa using hkey
  · intro hgiven
    obtain ⟨shared, a, b, resta, restb, ha, hb, hne, hkey⟩ := hgiven
    refine ⟨shared.map (·.text), a.text, b.text, resta.map (·.text), restb.map (·.text), ?_, ?_,
      fun heq => hne (Segment.eq_of_text heq), by simp [hkey]⟩
    · rw [← hname.texts_segmentsOf, ha]
      simp
    · rw [← hother.texts_segmentsOf, hb]
      simp

/-- No name clashes with itself. -/
theorem not_clash_self (name : String) : ¬ Clash name name := by
  rintro ⟨shared, a, b, resta, restb, ha, hb, hne, _⟩
  rw [ha] at hb
  exact hne (List.cons.inj (List.append_cancel_left hb)).1

/-- Clashing does not depend on the order of the two paths. -/
theorem PathClash.symm {p q : List Segment} (h : PathClash p q) : PathClash q p := by
  obtain ⟨shared, a, b, restp, restq, hp, hq, hne, hkey⟩ := h
  exact ⟨shared, b, a, restq, restp, hq, hp, hne.symm, hkey.symm⟩

/-- The empty path clashes with none. -/
theorem not_pathClash_nil {p : List Segment} : ¬ PathClash [] p := by
  intro hgiven
  obtain ⟨shared, a, b, restp, restq, hp, -⟩ := hgiven
  simp at hp

/-- Paths that start with one segment clash as they go on. -/
theorem pathClash_cons_self {s : Segment} {p q : List Segment} :
    PathClash (s :: p) (s :: q) ↔ PathClash p q := by
  constructor
  · intro hgiven
    obtain ⟨shared, a, b, restp, restq, hp, hq, hne, hkey⟩ := hgiven
    cases shared with
    | nil => exact absurd ((List.cons.inj hp).1.symm.trans (List.cons.inj hq).1) hne
    | cons first shared =>
        exact ⟨shared, a, b, restp, restq, (List.cons.inj hp).2, (List.cons.inj hq).2, hne, hkey⟩
  · intro hgiven
    obtain ⟨shared, a, b, restp, restq, rfl, rfl, hne, hkey⟩ := hgiven
    exact ⟨s :: shared, a, b, restp, restq, rfl, rfl, hne, hkey⟩

/-- Paths with different first segments clash when these have one key. -/
theorem pathClash_cons_of_ne {s t : Segment} {p q : List Segment} (hne : s ≠ t) :
    PathClash (s :: p) (t :: q) ↔ s.key = t.key := by
  constructor
  · intro hgiven
    obtain ⟨shared, a, b, restp, restq, hp, hq, _, hkey⟩ := hgiven
    cases shared with
    | nil => rw [(List.cons.inj hp).1, (List.cons.inj hq).1, hkey]
    | cons first shared =>
        exact absurd ((List.cons.inj hp).1.trans (List.cons.inj hq).1.symm) hne
  · exact fun hkey => ⟨[], s, t, p, q, rfl, rfl, hne, hkey⟩

/-- What goes through one of several siblings apart clashes with nothing below the others. -/
theorem not_pathClash_siblings {entry : Entry} {siblings : Forest Entry} {p q : List Segment}
    {e : Declaration} (hdist : ∀ other ∈ siblings.roots, Entry.Distinct entry other)
    (hapart : ∀ other ∈ siblings.roots, Entry.Apart entry other)
    (hq : (q, e) ∈ declared siblings) : ¬ PathClash (entry.segment :: p) q := by
  obtain ⟨tree, htree, rest, rfl, _⟩ := mem_declared_iff.mp hq
  have hroot := Forest.mem_roots_of_mem_trees htree
  rw [pathClash_cons_of_ne (hdist _ hroot)]
  exact hapart _ hroot

/-- A declaration at a node clashes with nothing below the node. -/
theorem not_pathClash_declaredFrom {leaf : Option Declaration} {children : Forest Entry}
    {p q : List Segment} {d e : Declaration}
    (hnone : ∀ p d q e, (p, d) ∈ declared children → (q, e) ∈ declared children → ¬ PathClash p q)
    (hp : (p, d) ∈ declaredFrom leaf (declared children))
    (hq : (q, e) ∈ declaredFrom leaf (declared children)) : ¬ PathClash p q := by
  rcases mem_declaredFrom.mp hp with ⟨rfl, _⟩ | hp
  · exact not_pathClash_nil
  rcases mem_declaredFrom.mp hq with ⟨rfl, _⟩ | hq
  · exact fun hclash => not_pathClash_nil hclash.symm
  exact hnone p d q e hp hq

/-- Two siblings with one key show as two names that clash. -/
theorem apart_of_not_pathClash {entry : Entry} {children siblings : Forest Entry}
    (hdist : ∀ other ∈ siblings.roots, Entry.Distinct entry other)
    (hground : Grounded (.cons entry children siblings))
    (hnone : ∀ p d q e, (p, d) ∈ declared (.cons entry children siblings) →
      (q, e) ∈ declared (.cons entry children siblings) → ¬ PathClash p q) :
    ∀ other ∈ siblings.roots, Entry.Apart entry other := by
  intro other hother hkey
  rw [Forest.roots_eq_map_trees] at hother
  obtain ⟨tree, htree, rfl⟩ := List.mem_map.mp hother
  have hroot := Forest.mem_roots_of_mem_trees htree
  obtain ⟨p, d, hp⟩ := hground.exists_mem_tree List.mem_cons_self
  obtain ⟨q, e, hq⟩ := hground.2.2.exists_mem_tree htree
  have hfirst : (entry.segment :: p, d) ∈ declared (.cons entry children siblings) :=
    mem_declared_cons.mpr (.inl ⟨p, rfl, hp⟩)
  have hlater : (tree.1.segment :: q, e) ∈ declared (.cons entry children siblings) :=
    mem_declared_cons.mpr (.inr (mem_declared_iff.mpr ⟨tree, htree, q, rfl, hq⟩))
  exact hnone _ d _ e hfirst hlater ((pathClash_cons_of_ne (hdist _ hroot)).mpr hkey)

/-- **Common keys show in the names.**  Siblings have different keys everywhere exactly when no two
declared paths clash. -/
theorem ordered_apart_iff {forest : Forest Entry} (hdist : forest.Ordered Entry.Distinct)
    (hground : Grounded forest) :
    forest.Ordered Entry.Apart ↔
      ∀ p d q e, (p, d) ∈ declared forest → (q, e) ∈ declared forest → ¬ PathClash p q := by
  induction forest with
  | nil => simp [Forest.Ordered, declared]
  | cons entry children siblings below beside =>
      have hinner := below hdist.2.1 hground.2.1
      have houter := beside hdist.2.2 hground.2.2
      constructor
      · intro hgiven p d q e hp hq
        obtain ⟨hfirst, hchildren, hsiblings⟩ := hgiven
        rcases mem_declared_cons.mp hp with ⟨restp, rfl, hbelowp⟩ | hbesidep <;>
          rcases mem_declared_cons.mp hq with ⟨restq, rfl, hbelowq⟩ | hbesideq
        · rw [pathClash_cons_self]
          exact not_pathClash_declaredFrom (hinner.mp hchildren) hbelowp hbelowq
        · exact not_pathClash_siblings hdist.1 hfirst hbesideq
        · exact fun hclash => not_pathClash_siblings hdist.1 hfirst hbesidep hclash.symm
        · exact houter.mp hsiblings p d q e hbesidep hbesideq
      · intro hnone
        refine ⟨apart_of_not_pathClash hdist.1 hground hnone, hinner.mpr ?_, houter.mpr ?_⟩
        · intro p d q e hp hq hclash
          have hfirst : (entry.segment :: p, d) ∈ declared (.cons entry children siblings) :=
            mem_declared_cons.mpr (.inl ⟨p, rfl, mem_declaredFrom.mpr (.inr hp)⟩)
          have hother : (entry.segment :: q, e) ∈ declared (.cons entry children siblings) :=
            mem_declared_cons.mpr (.inl ⟨q, rfl, mem_declaredFrom.mpr (.inr hq)⟩)
          exact hnone _ d _ e hfirst hother (pathClash_cons_self.mpr hclash)
        · intro p d q e hp hq
          exact hnone p d q e (mem_declared_cons.mpr (.inr hp)) (mem_declared_cons.mpr (.inr hq))

end AliasCatalog.Namespace
