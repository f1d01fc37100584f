import Mathlib.Data.Finset.Card
import AliasCatalog.Proofs.Naming.Siblings

/-!
# First come, first served

An allocator is asked for one identifier after the other and goes on after refusals.  It remembers for each
key the first segment that asked for it (`Remembers`), and a refusal changes nothing, so every answer can be
told from the segments before: a segment gets its identifier when it is the first with its key, and is
reported together with that first one otherwise (`serves_attempts`).
-/

namespace AliasCatalog.Naming

/-- What is answered to a segment after some earlier ones. -/
structure Answers (kind : Kind) (parent : String) (earlier : List String) (segment : String)
    (answer : Except NamingError Identifier) : Prop where
  /-- The normal form is handed out to the first segment with its key. -/
  ok_iff : ∀ identifier, answer = .ok identifier ↔
    normalize segment = some identifier ∧ ∀ other ∈ earlier, key? other ≠ key? segment
  /-- A segment is invalid exactly when it has no normal form. -/
  invalid_iff : (∃ kind name reason, answer = .error (.invalidName kind name reason)) ↔
    normalize segment = none
  invalid_eq : normalize segment = none → answer = .error (.invalidName kind segment .wordless)
  /-- A later segment with a key is reported with the first one, in text order. -/
  collision : ∀ identifier, normalize segment = some identifier →
    (∃ other ∈ earlier, key? other = key? segment) →
    ∃ claimant first second, IsFirst (fun other => key? other = key? segment) earlier claimant ∧
      (first = claimant ∧ second = segment ∨ first = segment ∧ second = claimant) ∧
      first ≤ second ∧ answer = .error (.collision kind parent first second identifier)

namespace Answers

variable {kind : Kind} {parent segment : String} {earlier : List String} {identifier : Identifier}

/-- A segment without a normal form is answered as invalid. -/
theorem wordless (h : normalize segment = none) :
    Answers kind parent earlier segment (.error (.invalidName kind segment .wordless)) where
  ok_iff identifier := by simp [h]
  invalid_iff := by simp [h]
  invalid_eq _ := rfl
  collision identifier hnormal := by simp [h] at hnormal

/-- The first segment with its key is answered by its identifier. -/
theorem named (h : normalize segment = some identifier)
    (hnew : ∀ other ∈ earlier, key? other ≠ key? segment) :
    Answers kind parent earlier segment (.ok identifier) where
  ok_iff other := by simpa [h] using fun _ => hnew
  invalid_iff := by simp [h]
  invalid_eq hnone := by simp [h] at hnone
  collision _ _ hclaimed := by
    obtain ⟨other, hmem, hsame⟩ := hclaimed
    exact absurd hsame (hnew other hmem)

/-- A later segment with a key is answered by a report on it and the first. -/
theorem reported {claimant first second : String} (h : normalize segment = some identifier)
    (hclaimant : IsFirst (fun other => key? other = key? segment) earlier claimant)
    (hnames : first = claimant ∧ second = segment ∨ first = segment ∧ second = claimant)
    (hle : first ≤ second) :
    Answers kind parent earlier segment (.error (.collision kind parent first second identifier)) where
  ok_iff other := by simpa [h] using fun _ => ⟨claimant, hclaimant.mem⟩
  invalid_iff := by simp [h]
  invalid_eq hnone := by simp [h] at hnone
  collision other hother _ := by
    obtain rfl : identifier = other := Option.some.inj (h.symm.trans hother)
    exact ⟨claimant, first, second, hclaimant, hnames, hle, rfl⟩

end Answers

namespace Allocator

/-- The allocator after some attempts, whatever their outcomes. -/
def after (allocator : Allocator) : List String → Allocator
  | [] => allocator
  | segment :: rest => (allocator.attempt segment).2.after rest

def keys (allocator : Allocator) : List String :=
  allocator.claims.map (·.1)

/-- How a new allocator serves some segments, one after the other. -/
structure Serves (kind : Kind) (parent : String) (segments : List String) : Prop where
  /-- Each segment gets its answer from the segments before it, and a refusal changes nothing. -/
  answer : ∀ earlier segment later, segments = earlier ++ segment :: later →
    ∃ answer next, ((start kind parent).attempts segments)[earlier.length]? = some (answer, next) ∧
      Answers kind parent earlier segment answer ∧
      next = (start kind parent).after (earlier ++ [segment]) ∧
      ∀ error, answer = .error error → next = (start kind parent).after earlier
  /-- In the end there are as many claims as different keys. -/
  size_eq : ((start kind parent).after segments).size = (segments.filterMap key?).toFinset.card
  isEmpty_iff : ((start kind parent).after segments).isEmpty = true ↔
    ∀ segment ∈ segments, normalize segment = none
  /-- No two identifiers that were handed out have one key. -/
  nodup_keys : (((start kind parent).attempts segments).filterMap
    fun attempt => attempt.1.toOption.map Identifier.key).Nodup
  /-- In any order the same keys are claimed. -/
  keys_perm : ∀ other, segments.Perm other → ∀ key,
    key ∈ ((start kind parent).after segments).keys ↔ key ∈ ((start kind parent).after other).keys

/-! ## One attempt -/

variable {allocator : Allocator} {kind : Kind} {parent segment : String} {attempted : List String}

/-- A segment without a word is refused, one whose key is claimed is reported, and any other claims its
key. -/
theorem attempt_cases (allocator : Allocator) (segment : String) :
    (normalize segment = none ∧ allocator.attempt segment =
      (.error (.invalidName allocator.kind segment .wordless), allocator)) ∨
    (∃ identifier claimant, normalize segment = some identifier ∧
      allocator.claimant? identifier.key = some claimant ∧ allocator.attempt segment =
        (.error (allocator.clash claimant segment identifier), allocator)) ∨
    ∃ identifier, normalize segment = some identifier ∧
      allocator.claimant? identifier.key = none ∧ allocator.attempt segment =
        (.ok identifier,
          { allocator with claims := (identifier.key, segment) :: allocator.claims }) := by
  cases hnormal : normalize segment with
  | none => exact .inl ⟨rfl, attempt_of_error (by simp [allocate, hnormal])⟩
  | some identifier =>
      refine .inr ?_
      cases hclaimant : allocator.claimant? identifier.key with
      | none => exact .inr ⟨identifier, rfl, hclaimant, by simp [attempt, allocate, hnormal, hclaimant]⟩
      | some claimant =>
          exact .inl ⟨identifier, claimant, rfl, hclaimant,
            attempt_of_error (by simp [allocate, hnormal, hclaimant])⟩

/-- The claims are those of the first segments with their keys among the attempted ones. -/
structure Remembers (kind : Kind) (parent : String) (attempted : List String)
    (allocator : Allocator) : Prop where
  kind_eq : allocator.kind = kind
  parent_eq : allocator.parent = parent
  nodup : allocator.keys.Nodup
  claimant?_eq : ∀ key, allocator.claimant? key = attempted.find? (key? · == some key)

namespace Remembers

/-- The claimed keys are those of the attempted segments. -/
theorem mem_keys (h : Remembers kind parent attempted allocator) {key : String} :
    key ∈ allocator.keys ↔ ∃ segment ∈ attempted, key? segment = some key := by
  rw [← not_iff_not, keys, ← claimant?_eq_none_iff, h.claimant?_eq, List.find?_eq_none]
  simp

/-- A segment whose key is claimed already is the first with no key. -/
theorem refused (h : Remembers kind parent attempted allocator)
    (hclaimed : ∀ key, key? segment = some key → allocator.claimant? key ≠ none) :
    Remembers kind parent (attempted ++ [segment]) allocator := by
  refine ⟨h.kind_eq, h.parent_eq, h.nodup, fun key => ?_⟩
  rw [List.find?_append, ← h.claimant?_eq]
  by_cases hkey : key? segment = some key
  · obtain ⟨claimant, hclaimant⟩ := Option.ne_none_iff_exists'.mp (hclaimed key hkey)
    rw [hclaimant, Option.some_or]
  · simp [hkey]

/-- A segment with a free key is the first with this one. -/
theorem claimed (h : Remembers kind parent attempted allocator) {key : String}
    (hkey : key? segment = some key) (hfree : allocator.claimant? key = none) :
    Remembers kind parent (attempted ++ [segment])
      { allocator with claims := (key, segment) :: allocator.claims } := by
  refine ⟨h.kind_eq, h.parent_eq, ?_, fun other => ?_⟩
  · exact List.nodup_cons.mpr ⟨claimant?_eq_none_iff.mp hfree, h.nodup⟩
  · rw [List.find?_append, ← h.claimant?_eq, claimant?, List.lookup_cons]
    by_cases hsame : other = key
    · subst hsame
      simp [hfree, hkey]
    · have hlast : key? segment ≠ some other :=
        fun heq => hsame (Option.some.inj (heq.symm.trans hkey))
      simp [beq_false_of_ne hsame, hlast, claimant?]

/-- Another attempt is remembered too. -/
theorem attempt (h : Remembers kind parent attempted allocator) (segment : String) :
    Remembers kind parent (attempted ++ [segment]) (allocator.attempt segment).2 := by
  rcases attempt_cases allocator segment with ⟨hnone, hattempt⟩ |
    ⟨identifier, claimant, hnormal, hclaimant, hattempt⟩ | ⟨identifier, hnormal, hfree, hattempt⟩
  · rw [hattempt]
    refine h.refused fun key hkey => ?_
    rw [key?_eq_none_iff.mpr hnone] at hkey
    cases hkey
  · rw [hattempt]
    refine h.refused fun key hkey => ?_
    rw [key?_of_normalize hnormal, Option.some.injEq] at hkey
    rw [← hkey, hclaimant]
    exact Option.some_ne_none claimant
  · rw [hattempt]
    exact h.claimed (key?_of_normalize hnormal) hfree

/-- A claimant is the first of the attempted segments with its key. -/
theorem isFirst (h : Remembers kind parent attempted allocator) {key claimant : String}
    (hclaimant : allocator.claimant? key = some claimant) :
    IsFirst (fun other => key? other = some key) attempted claimant := by
  rw [h.claimant?_eq, List.find?_eq_some_iff_append] at hclaimant
  obtain ⟨hkey, before, after, hsplit, hbefore⟩ := hclaimant
  exact ⟨before, after, hsplit, by simpa using hkey, fun other hmem => by simpa using hbefore other hmem⟩

/-- **What is remembered decides the answer**, and the claims change with a name alone. -/
theorem answers (h : Remembers kind parent attempted allocator) (segment : String) :
    Answers kind parent attempted segment (allocator.attempt segment).1 ∧
      ∀ error, (allocator.attempt segment).1 = .error error →
        (allocator.attempt segment).2 = allocator := by
  rcases attempt_cases allocator segment with ⟨hnone, hattempt⟩ |
    ⟨identifier, claimant, hnormal, hclaimant, hattempt⟩ | ⟨identifier, hnormal, hfree, hattempt⟩
  · rw [hattempt, h.kind_eq]
    exact ⟨.wordless hnone, fun _ _ => rfl⟩
  · have hkey := key?_of_normalize hnormal
    obtain ⟨first, second, hnames, hle, hclash⟩ := exists_clash_eq allocator claimant segment identifier
    rw [hattempt, hclash, h.kind_eq, h.parent_eq]
    exact ⟨.reported hnormal (hkey ▸ h.isFirst hclaimant) hnames hle, fun _ _ => rfl⟩
  · have hkey := key?_of_normalize hnormal
    rw [hattempt]
    refine ⟨.named hnormal fun other hmem hsame => ?_, fun error herror => by cases herror⟩
    exact claimant?_eq_none_iff.mp hfree (h.mem_keys.mpr ⟨other, hmem, hsame.trans hkey⟩)

end Remembers

/-! ## All attempts -/

/-- Attempts can be made in two parts. -/
theorem after_append (allocator : Allocator) (segments more : List String) :
    allocator.after (segments ++ more) = (allocator.after segments).after more := by
  induction segments generalizing allocator with
  | nil => rfl
  | cons segment rest ih => exact ih _

/-- The outcomes of two parts follow each other. -/
theorem attempts_append (allocator : Allocator) (segments more : List String) :
    allocator.attempts (segments ++ more) =
      allocator.attempts segments ++ (allocator.after segments).attempts more := by
  induction segments generalizing allocator with
  | nil => rfl
  | cons segment rest ih => exact congrArg (_ :: ·) (ih _)

/-- **Every attempt is remembered.**  The last attempt finds what is remembered of those before, so the
induction is from the right. -/
theorem remembers_after (kind : Kind) (parent : String) (segments : List String) :
    Remembers kind parent segments ((start kind parent).after segments) := by
  induction segments using List.reverseRecOn with
  | nil => exact ⟨rfl, rfl, List.nodup_nil, fun _ => rfl⟩
  | append_singleton segments segment ih =>
      rw [after_append]
      exact ih.attempt segment

/-- The keys that were handed out are the new claims. -/
theorem keys_after (allocator : Allocator) (segments : List String) :
    (allocator.after segments).keys =
      ((allocator.attempts segments).filterMap
        fun attempt => attempt.1.toOption.map Identifier.key).reverse ++ allocator.keys := by
  induction segments generalizing allocator with
  | nil => rfl
  | cons segment rest ih =>
      rw [after, attempts, ih]
      rcases attempt_cases allocator segment with ⟨_, hattempt⟩ | ⟨_, _, _, _, hattempt⟩ |
        ⟨_, _, _, hattempt⟩ <;> simp [hattempt, Except.toOption, keys]

/-- **An allocator serves segments in the order in which they come.** -/
theorem serves_attempts (kind : Kind) (parent : String) (segments : List String) :
    Serves kind parent segments := by
  have hend := remembers_after kind parent segments
  refine ⟨?_, ?_, ?_, ?_, ?_⟩
  · rintro earlier segment later rfl
    obtain ⟨hanswer, hrefused⟩ := (remembers_after kind parent earlier).answers segment
    refine ⟨_, _, ?_, hanswer, (after_append _ _ _).symm, hrefused⟩
    rw [attempts_append, List.getElem?_append_right (by simp), length_attempts, Nat.sub_self]
    rfl
  · have hkeys : ((start kind parent).after segments).keys.toFinset =
        (segments.filterMap key?).toFinset := by
      ext key
      rw [List.mem_toFinset, hend.mem_keys, List.mem_toFinset, List.mem_filterMap]
    rw [← hkeys, List.toFinset_card_of_nodup hend.nodup, keys, List.length_map, size]
  · have hnone : ∀ segment, normalize segment = none ↔ ∀ key, key? segment ≠ some key := by
      intro segment
      rw [← key?_eq_none_iff, Option.eq_none_iff_forall_ne_some]
    rw [isEmpty, List.isEmpty_iff, ← List.map_eq_nil_iff (f := (·.1)), ← keys,
      List.eq_nil_iff_forall_not_mem]
    simp only [hend.mem_keys, hnone]
    grind
  · have hnodup := hend.nodup
    rw [keys_after] at hnodup
    exact List.nodup_reverse.mp (List.nodup_append.mp hnodup).1
  · intro other hperm key
    rw [hend.mem_keys, (remembers_after kind parent other).mem_keys]
    exact exists_congr fun segment => and_congr_left fun _ => hperm.mem_iff

end Allocator

end AliasCatalog.Naming
