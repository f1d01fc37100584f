import AliasCatalog.Naming.Allocator
import AliasCatalog.Proofs.Runs

/-!
# Identifiers of siblings

Segments that are handed to an allocator one after the other get their identifiers as long as their
keys are new.  The first segment whose key was claimed before ends the run with a report on the two
segments (`allocateAll_eq_error`); no other error is possible, since every segment has an
identifier.
-/

namespace AliasCatalog.Naming

/-- The error reports two siblings of a kind with one key. -/
def NamingError.IsCollision (kind : Kind) (error : NamingError) : Prop :=
  ∃ parent first second identifier, error = .collision kind parent first second identifier

namespace Allocator

/-- The allocator after some segments claimed their keys. -/
def claimed (allocator : Allocator) (segments : List Segment) : Allocator :=
  { allocator with
    claims := (segments.map fun s => (s.key, s.text)).reverse ++ allocator.claims }

/-- The keys of the segments are new and different from each other. -/
def Free (allocator : Allocator) (segments : List Segment) : Prop :=
  (segments.map (·.key)).Nodup ∧ ∀ s ∈ segments, s.key ∉ allocator.claims.map (·.1)

/-- A key has no claimant exactly when it is not among the claims. -/
theorem claimant?_eq_none_iff {allocator : Allocator} {key : String} :
    allocator.claimant? key = none ↔ key ∉ allocator.claims.map (·.1) := by
  rw [claimant?, List.lookup_eq_none_iff, List.mem_map]
  constructor
  · rintro hnone ⟨claim, hmem, rfl⟩
    exact absurd (hnone claim hmem) (by simp)
  · intro hnot claim hmem
    exact bne_iff_ne.mpr fun heq => hnot ⟨claim, hmem, heq.symm⟩

/-- A segment with a new key gets its identifier and claims the key. -/
theorem allocate_of_new {allocator : Allocator} {segment : Segment}
    (h : segment.key ∉ allocator.claims.map (·.1)) :
    allocator.allocate segment.text = .ok (segment.identifier, allocator.claimed [segment]) := by
  have hnone : allocator.claimant? segment.identifier.key = none := claimant?_eq_none_iff.mpr h
  simp [allocate, hnone, claimed, Segment.key]

/-- A segment with a claimed key is reported together with the claimant. -/
theorem allocate_of_claimed {allocator : Allocator} {segment : Segment} {claimant : String}
    (h : allocator.claimant? segment.key = some claimant) :
    allocator.allocate segment.text =
      .error (allocator.clash claimant segment.text segment.identifier) := by
  have hsome : allocator.claimant? segment.identifier.key = some claimant := h
  simp [allocate, hsome]

/-- **Segments with new keys get their identifiers**, and the run goes on from their claims. -/
theorem allocateAll_append {allocator : Allocator} {segments : List Segment}
    (h : allocator.Free segments) (more : List String) :
    allocator.allocateAll (segments.map (·.text) ++ more) =
      ((allocator.claimed segments).allocateAll more).map
        (segments.map (·.identifier) ++ ·) := by
  induction segments generalizing allocator with
  | nil => cases hmore : allocator.allocateAll more <;> simp [claimed, hmore, Except.map]
  | cons segment rest ih =>
      have hnodup := List.nodup_cons.mp h.1
      have hrest : (allocator.claimed [segment]).Free rest := by
        refine ⟨hnodup.2, fun s hs => ?_⟩
        have hne : s.key ≠ segment.key := fun heq => hnodup.1 (List.mem_map.mpr ⟨s, hs, heq⟩)
        simpa [claimed, hne] using h.2 s (List.mem_cons_of_mem _ hs)
      have hclaimed : (allocator.claimed [segment]).claimed rest =
          allocator.claimed (segment :: rest) := by
        simp [claimed]
      rw [List.map_cons, List.cons_append, allocateAll,
        allocate_of_new (h.2 segment List.mem_cons_self)]
      simp only [bind, Except.bind, ih hrest, hclaimed]
      cases (allocator.claimed (segment :: rest)).allocateAll more <;> rfl

/-- **Segments with different keys all get their identifiers.** -/
theorem allocateAll_eq_ok {kind : Kind} {parent : String} {segments : List Segment}
    (h : (segments.map (·.key)).Nodup) :
    (start kind parent).allocateAll (segments.map (·.text)) =
      .ok (segments.map (·.identifier)) := by
  have hrun := @allocateAll_append (start kind parent) segments ⟨h, by simp [start]⟩ []
  simpa [allocateAll, Except.map] using hrun

/-- A claimed key leads to its one claimant. -/
theorem claimant?_claimed {kind : Kind} {parent : String} {segments : List Segment}
    {claimant : Segment} (h : (segments.map (·.key)).Nodup) (hmem : claimant ∈ segments) :
    ((start kind parent).claimed segments).claimant? claimant.key = some claimant.text := by
  obtain ⟨before, after, rfl⟩ := List.append_of_mem hmem
  rw [claimant?, List.lookup_eq_some_iff]
  refine ⟨(after.map fun s => (s.key, s.text)).reverse,
    (before.map fun s => (s.key, s.text)).reverse, by simp [claimed, start], ?_⟩
  intro claim hclaim
  obtain ⟨s, hs, rfl⟩ := List.mem_map.mp (List.mem_reverse.mp hclaim)
  have hafter := (List.nodup_append.mp (by simpa using h)).2.1
  have hne : claimant.key ≠ s.key := by
    intro heq
    exact (List.nodup_cons.mp hafter).1 (heq ▸ List.mem_map_of_mem hs)
  simpa using hne

/-- **The first repeated key ends the run** with a report on its segment and the claimant. -/
theorem allocateAll_eq_error {kind : Kind} {parent : String} {before after : List Segment}
    {claimant segment : Segment} (h : (before.map (·.key)).Nodup) (hmem : claimant ∈ before)
    (hkey : claimant.key = segment.key) :
    (start kind parent).allocateAll ((before ++ segment :: after).map (·.text)) =
      .error ((start kind parent).clash claimant.text segment.text segment.identifier) := by
  have hclaimant := @claimant?_claimed kind parent before claimant h hmem
  rw [hkey] at hclaimant
  rw [List.map_append, allocateAll_append ⟨h, by simp [start]⟩, List.map_cons, allocateAll,
    allocate_of_claimed hclaimant]
  rfl

/-- A report names the two segments in text order. -/
theorem exists_clash_eq (allocator : Allocator) (claimant segment : String)
    (identifier : Identifier) :
    ∃ first second, (first = claimant ∧ second = segment ∨ first = segment ∧ second = claimant) ∧
      first ≤ second ∧ allocator.clash claimant segment identifier =
        .collision allocator.kind allocator.parent first second identifier := by
  by_cases hle : claimant ≤ segment
  · exact ⟨claimant, segment, .inl ⟨rfl, rfl⟩, hle, if_pos hle⟩
  · have hge : segment ≤ claimant := (String.le_total claimant segment).resolve_left hle
    exact ⟨segment, claimant, .inr ⟨rfl, rfl⟩, hge, if_neg hle⟩

/-- A report on two segments is a collision of the allocator's kind. -/
theorem isCollision_clash (allocator : Allocator) (claimant segment : String)
    (identifier : Identifier) :
    (allocator.clash claimant segment identifier).IsCollision allocator.kind := by
  obtain ⟨first, second, _, _, hclash⟩ := exists_clash_eq allocator claimant segment identifier
  exact ⟨allocator.parent, first, second, identifier, hclash⟩

/-- Segments that share a key are refused for a collision. -/
theorem allocateAll_isCollision {kind : Kind} {parent : String} {segments : List Segment}
    (h : ¬ (segments.map (·.key)).Nodup) :
    ∃ error, (start kind parent).allocateAll (segments.map (·.text)) = .error error ∧
      error.IsCollision kind := by
  obtain ⟨segment, before, after, rfl, hnodup, hrepeat⟩ := exists_isFirstRepeat h
  obtain ⟨claimant, hmem, hkey⟩ := List.mem_map.mp hrepeat
  exact ⟨_, allocateAll_eq_error hnodup hmem hkey, isCollision_clash _ _ _ _⟩

end Allocator

end AliasCatalog.Naming
