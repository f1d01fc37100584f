import AliasCatalog.Proofs.Namespace.Declared

/-!
# Insertion

Inserting a declaration adds it to the declarations of a forest and changes no other
(`Gathers.insert`); it is refused exactly when its path is taken (`Gathers.insert_eq_none_iff`).
Both facts carry over to a run of insertions: the run goes through when all paths are different, and
otherwise stops at the first path that occurred before.
-/

namespace AliasCatalog.Namespace

open Naming

variable {d : Declaration} {segment : Segment} {rest : List Segment}

/-! ## New branches -/

/-- A new branch has the one declaration at its path. -/
theorem declared_branch (d : Declaration) (segment : Segment) (rest : List Segment)
    (siblings : Forest Entry) :
    declared (branch d segment rest siblings) = (segment :: rest, d) :: declared siblings := by
  induction rest generalizing segment siblings with
  | nil => rfl
  | cons next rest ih => simp [branch, declared, declaredFrom, ih]

/-- A new branch has one root, with the segment it starts at. -/
theorem roots_branch (d : Declaration) (segment : Segment) (rest : List Segment)
    (siblings : Forest Entry) :
    ∃ entry, entry.segment = segment ∧
      (branch d segment rest siblings).roots = entry :: siblings.roots := by
  cases rest with
  | nil => exact ⟨_, rfl, rfl⟩
  | cons next rest => exact ⟨_, rfl, rfl⟩

/-- A new branch is grounded. -/
theorem grounded_branch {siblings : Forest Entry} (h : Grounded siblings) :
    Grounded (branch d segment rest siblings) := by
  induction rest generalizing segment siblings with
  | nil => exact ⟨by simp, trivial, h⟩
  | cons next rest ih =>
      refine ⟨fun _ => ?_, ih trivial, h⟩
      cases rest <;> simp [branch]

/-- A new branch keeps the text order when its segment comes before all others. -/
theorem ordered_branch {siblings : Forest Entry} (h : siblings.Ordered Entry.TextBefore)
    (hlt : ∀ other ∈ siblings.roots, segment.text < other.segment.text) :
    (branch d segment rest siblings).Ordered Entry.TextBefore := by
  induction rest generalizing segment siblings with
  | nil => exact ⟨hlt, trivial, h⟩
  | cons next rest ih => exact ⟨hlt, ih trivial (by simp [Forest.roots]), h⟩

/-! ## One insertion -/

/-- A path that does not start at the first tree makes a branch before it, or goes on to the siblings. -/
theorem insert_cons_of_ne {entry : Entry} {children siblings : Forest Entry}
    (hne : segment ≠ entry.segment) :
    insert d segment rest (.cons entry children siblings) =
      if segment.text < entry.segment.text then
        some (branch d segment rest (.cons entry children siblings))
      else (insert d segment rest siblings).map fun grown => .cons entry children grown := by
  rw [insert.eq_def]
  simp only [if_neg hne]

/-- All that an insertion into a forest with a first tree can do. -/
theorem insert_cons_cases {entry : Entry} {children siblings grown : Forest Entry}
    (h : insert d segment rest (.cons entry children siblings) = some grown) :
    (segment = entry.segment ∧ rest = [] ∧ entry.leaf = none ∧
      grown = .cons { entry with leaf := some d } children siblings) ∨
    (segment = entry.segment ∧ ∃ next more inner, rest = next :: more ∧
      insert d next more children = some inner ∧ grown = .cons entry inner siblings) ∨
    (segment.text < entry.segment.text ∧
      grown = branch d segment rest (.cons entry children siblings)) ∨
    (entry.segment.text < segment.text ∧ ∃ beside,
      insert d segment rest siblings = some beside ∧ grown = .cons entry children beside) := by
  by_cases hsame : segment = entry.segment
  · cases rest with
    | nil =>
        cases hleaf : entry.leaf with
        | some other => simp [insert, hsame, hleaf] at h
        | none =>
            refine .inl ⟨hsame, rfl, rfl, ?_⟩
            simpa [insert, hsame, hleaf] using h.symm
    | cons next more =>
        rw [insert, if_pos hsame] at h
        obtain ⟨inner, hinner, rfl⟩ := Option.map_eq_some_iff.mp h
        exact .inr (.inl ⟨hsame, next, more, inner, rfl, hinner, rfl⟩)
  · rw [insert_cons_of_ne hsame] at h
    by_cases hlt : segment.text < entry.segment.text
    · rw [if_pos hlt] at h
      exact .inr (.inr (.inl ⟨hlt, (Option.some.inj h).symm⟩))
    · rw [if_neg hlt] at h
      obtain ⟨beside, hbeside, rfl⟩ := Option.map_eq_some_iff.mp h
      have hgt : entry.segment.text < segment.text := by
        refine String.not_le.mp fun hle => hsame (Segment.eq_of_text ?_)
        exact String.le_antisymm hle (String.not_lt.mp hlt)
      exact .inr (.inr (.inr ⟨hgt, beside, hbeside, rfl⟩))

/-- An insertion adds its declaration and keeps all others. -/
theorem declared_insert {forest grown : Forest Entry}
    (h : insert d segment rest forest = some grown) :
    (declared grown).Perm ((segment :: rest, d) :: declared forest) := by
  induction forest generalizing segment rest grown with
  | nil =>
      cases h
      exact .of_eq (declared_branch d segment rest .nil)
  | cons entry children siblings below beside =>
      obtain ⟨rfl, rfl, hleaf, rfl⟩ | ⟨rfl, next, more, inner, rfl, hinner, rfl⟩ | ⟨_, rfl⟩ |
        ⟨_, later, hlater, rfl⟩ := insert_cons_cases h
      · simp [declared, declaredFrom, hleaf]
      · have hperm := (below hinner).map fun found => (entry.segment :: found.1, found.2)
        simp only [declared, declaredFrom, List.map_append, List.map_cons, List.append_assoc] at hperm ⊢
        exact ((hperm.append_right _).append_left _).trans (by simp)
      · exact .of_eq (declared_branch d segment rest _)
      · simp only [declared]
        exact ((beside hlater).append_left _).trans (by simp)

/-- An insertion adds no root but the first segment of its path. -/
theorem mem_roots_insert {forest grown : Forest Entry}
    (h : insert d segment rest forest = some grown) {root : Entry} (hroot : root ∈ grown.roots) :
    root.segment = segment ∨ ∃ old ∈ forest.roots, old.segment = root.segment := by
  induction forest generalizing segment rest grown with
  | nil =>
      cases h
      obtain ⟨entry, hentry, hroots⟩ := roots_branch d segment rest .nil
      rw [hroots] at hroot
      left
      simpa [Forest.roots] using (List.mem_singleton.mp hroot) ▸ hentry
  | cons entry children siblings _ beside =>
      obtain ⟨rfl, rfl, hleaf, rfl⟩ | ⟨rfl, next, more, inner, rfl, hinner, rfl⟩ | ⟨_, rfl⟩ |
        ⟨_, later, hlater, rfl⟩ := insert_cons_cases h
      · rcases List.mem_cons.mp hroot with rfl | hlater
        · exact .inl rfl
        · exact .inr ⟨root, List.mem_cons_of_mem _ hlater, rfl⟩
      · exact .inr ⟨root, hroot, rfl⟩
      · obtain ⟨first, hfirst, hroots⟩ := roots_branch d segment rest (.cons entry children siblings)
        rw [hroots] at hroot
        rcases List.mem_cons.mp hroot with rfl | hold
        · exact .inl hfirst
        · exact .inr ⟨root, hold, rfl⟩
      · rcases List.mem_cons.mp hroot with rfl | hroot
        · exact .inr ⟨root, List.mem_cons_self, rfl⟩
        · rcases beside hlater hroot with heq | ⟨old, hold, heq⟩
          · exact .inl heq
          · exact .inr ⟨old, List.mem_cons_of_mem _ hold, heq⟩

/-- **Insertion keeps the text order.** -/
theorem ordered_insert {forest grown : Forest Entry} (hord : forest.Ordered Entry.TextBefore)
    (h : insert d segment rest forest = some grown) : grown.Ordered Entry.TextBefore := by
  induction forest generalizing segment rest grown with
  | nil =>
      cases h
      exact ordered_branch trivial (by simp [Forest.roots])
  | cons entry children siblings below beside =>
      obtain ⟨rfl, rfl, hleaf, rfl⟩ | ⟨rfl, next, more, inner, rfl, hinner, rfl⟩ | ⟨hlt, rfl⟩ |
        ⟨hgt, later, hlater, rfl⟩ := insert_cons_cases h
      · exact hord
      · exact ⟨hord.1, below hord.2.1 hinner, hord.2.2⟩
      · apply ordered_branch hord
        intro other hother
        rcases List.mem_cons.mp hother with rfl | hother
        · exact hlt
        · exact String.lt_trans hlt (hord.1 other hother)
      · refine ⟨fun other hother => ?_, hord.2.1, beside hord.2.2 hlater⟩
        rcases mem_roots_insert hlater hother with heq | ⟨old, hold, heq⟩
        · rw [Entry.TextBefore, heq]
          exact hgt
        · have hbefore := hord.1 old hold
          rw [Entry.TextBefore, heq] at hbefore
          exact hbefore

/-- **Insertion keeps a forest grounded.** -/
theorem grounded_insert {forest grown : Forest Entry} (hground : Grounded forest)
    (h : insert d segment rest forest = some grown) : Grounded grown := by
  induction forest generalizing segment rest grown with
  | nil =>
      cases h
      exact grounded_branch trivial
  | cons entry children siblings below beside =>
      obtain ⟨rfl, rfl, hleaf, rfl⟩ | ⟨rfl, next, more, inner, rfl, hinner, rfl⟩ | ⟨_, rfl⟩ |
        ⟨_, later, hlater, rfl⟩ := insert_cons_cases h
      · exact ⟨by simp, hground.2⟩
      · refine ⟨fun _ hnil => ?_, below hground.2.1 hinner, hground.2.2⟩
        have hperm := declared_insert hinner
        simp [hnil, declared] at hperm
      · exact grounded_branch hground
      · exact ⟨hground.1, hground.2.1, beside hground.2.2 hlater⟩

/-- **An insertion is refused exactly when its path holds a declaration.** -/
theorem insert_eq_none_iff {forest : Forest Entry} (hord : forest.Ordered Entry.TextBefore) :
    insert d segment rest forest = none ↔ ∃ e, (segment :: rest, e) ∈ declared forest := by
  induction forest generalizing segment rest with
  | nil => simp [insert, declared]
  | cons entry children siblings below beside =>
      have hdist := hord.imp fun _ _ => Entry.TextBefore.distinct
      by_cases hsame : segment = entry.segment
      · subst hsame
        simp only [mem_declared_tree hdist List.mem_cons_self, mem_declaredFrom]
        cases rest with
        | nil => cases hleaf : entry.leaf <;> simp [insert, hleaf, nil_notMem_declared]
        | cons next more => simp [insert, below hord.2.1]
      · by_cases hlt : segment.text < entry.segment.text
        · rw [insert_cons_of_ne hsame, if_pos hlt]
          constructor
          · intro h
            cases h
          · intro hgiven
            obtain ⟨e, hmem⟩ := hgiven
            have hle := text_le_of_mem_declared hord.1 hmem
            exact absurd hlt (String.not_lt.mpr hle)
        · rw [insert_cons_of_ne hsame, if_neg hlt, Option.map_eq_none_iff, beside hord.2.2]
          simp [mem_declared_cons, hsame]

/-! ## Runs of insertions -/

/-- A forest in text order, without bare branches, that holds the given declarations at their
paths. -/
structure Gathers (forest : Forest Entry) (found : List (List Segment × Declaration)) : Prop where
  ordered : forest.Ordered Entry.TextBefore
  grounded : Grounded forest
  declared : (declared forest).Perm found

namespace Gathers

variable {forest : Forest Entry} {found : List (List Segment × Declaration)}

/-- The empty forest gathers no declarations. -/
theorem nil : Gathers .nil [] := ⟨trivial, trivial, .refl _⟩

/-- **One step.**  An insertion adds its declaration to what is gathered. -/
theorem insert (h : Gathers forest found) {grown : Forest Entry}
    (hinsert : Namespace.insert d segment rest forest = some grown) :
    Gathers grown ((segment :: rest, d) :: found) where
  ordered := ordered_insert h.ordered hinsert
  grounded := grounded_insert h.grounded hinsert
  declared := (declared_insert hinsert).trans (h.declared.cons _)

/-- An insertion is refused exactly when its path is taken. -/
theorem insert_eq_none_iff (h : Gathers forest found) :
    Namespace.insert d segment rest forest = none ↔ segment :: rest ∈ found.map (·.1) := by
  rw [Namespace.insert_eq_none_iff h.ordered]
  simp [h.declared.mem_iff]

/-- Forests that gather the same declarations are equal. -/
theorem eq_of_perm (h : Gathers forest found) {other : Forest Entry}
    {found' : List (List Segment × Declaration)} (hother : Gathers other found')
    (hperm : found.Perm found') : forest = other := by
  apply eq_of_mem_declared_iff h.ordered hother.ordered h.grounded hother.grounded
  intro path e
  rw [h.declared.mem_iff, hperm.mem_iff, hother.declared.mem_iff]

end Gathers

/-- A declaration at the path of its name. -/
def locate (named : DottedName × Declaration) : List Segment × Declaration :=
  (named.1.segments, named.2)

/-- **A run of insertions goes through** when all paths are different, and gathers every
declaration. -/
theorem foldlM_insertNamed_eq_ok {kind : Kind} {named : List (DottedName × Declaration)}
    {forest : Forest Entry} {found : List (List Segment × Declaration)} (h : Gathers forest found)
    (hnodup : (found.map (·.1) ++ named.map (·.1.segments)).Nodup) :
    ∃ grown, named.foldlM (Tree.insertNamed kind) forest = .ok grown ∧
      Gathers grown (found ++ named.map locate) := by
  induction named generalizing forest found with
  | nil => exact ⟨forest, rfl, by simpa using h⟩
  | cons next rest ih =>
      cases hinsert : insert next.2 next.1.first next.1.rest forest with
      | none =>
          have htaken := h.insert_eq_none_iff.mp hinsert
          exact absurd rfl ((List.nodup_append.mp hnodup).2.2 _ htaken _ List.mem_cons_self)
      | some larger =>
          have hlarger := h.insert hinsert
          have hperm : (locate next :: found).Perm (found ++ [locate next]) :=
            (List.perm_append_singleton _ _).symm
          obtain ⟨grown, hrun, hgrown⟩ := ih
            ⟨hlarger.ordered, hlarger.grounded, hlarger.declared.trans hperm⟩
            (by simpa [locate, List.append_assoc] using hnodup)
          refine ⟨grown, ?_, by simpa [List.append_assoc] using hgrown⟩
          rw [List.foldlM_cons, Tree.insertNamed, hinsert]
          exact hrun

/-- **A run of insertions stops at the first path that occurred before.** -/
theorem foldlM_insertNamed_eq_error {kind : Kind} {before after : List (DottedName × Declaration)}
    {next : DottedName × Declaration} (hnodup : (before.map (·.1.segments)).Nodup)
    (htaken : next.1.segments ∈ before.map (·.1.segments)) :
    (before ++ next :: after).foldlM (Tree.insertNamed kind) .nil =
      .error (.duplicateAlias kind next.1.text) := by
  obtain ⟨grown, hrun, hgrown⟩ :=
    @foldlM_insertNamed_eq_ok kind before _ _ Gathers.nil (by simpa using hnodup)
  have hrefused : insert next.2 next.1.first next.1.rest grown = none := by
    apply hgrown.insert_eq_none_iff.mpr
    rw [List.nil_append, List.map_map]
    exact htaken
  rw [List.foldlM_append, hrun]
  show List.foldlM (Tree.insertNamed kind) grown (next :: after) = _
  rw [List.foldlM_cons, Tree.insertNamed, hrefused]
  rfl

end AliasCatalog.Namespace
