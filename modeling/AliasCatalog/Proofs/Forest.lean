import AliasCatalog.Forest

/-!
# Relations among siblings

A relation between labels can hold throughout a forest: in every set of siblings, from each root to
the roots after it.  Order of siblings and their being apart are both of this form, so what is said
here serves for either.

A forest is also read as the list of all its trees, those that lie below others included, and labels
can be replaced one by one without changing the shape of the forest.
-/

namespace AliasCatalog.Forest

variable {α β : Type} {r s : α → α → Prop}

/-- In every set of siblings each root stands in `r` to the roots after it. -/
def Ordered (r : α → α → Prop) : Forest α → Prop
  | nil => True
  | cons label children siblings =>
      (∀ other ∈ siblings.roots, r label other) ∧ children.Ordered r ∧ siblings.Ordered r

theorem mem_roots_of_mem_trees {forest : Forest α} {tree : α × Forest α}
    (h : tree ∈ forest.trees) : tree.1 ∈ forest.roots := by
  rw [roots_eq_map_trees]
  exact List.mem_map_of_mem h

theorem isEmpty_eq_false_iff {forest : Forest α} : forest.isEmpty = false ↔ forest ≠ nil := by
  cases forest <;> simp [isEmpty]

/-- A forest that is ordered in a strong sense is ordered in a weaker one. -/
theorem Ordered.imp {forest : Forest α} (h : forest.Ordered r)
    (hsub : ∀ a b, r a b → s a b) : forest.Ordered s := by
  induction forest with
  | nil => trivial
  | cons label children siblings below beside =>
      exact ⟨fun other hother => hsub _ _ (h.1 other hother), below h.2.1, beside h.2.2⟩

/-- A relation holds throughout a forest when it holds between the roots and throughout the children
of each tree. -/
theorem ordered_iff {forest : Forest α} :
    forest.Ordered r ↔ forest.roots.Pairwise r ∧ ∀ tree ∈ forest.trees, tree.2.Ordered r := by
  induction forest with
  | nil => simp [Ordered, roots, trees]
  | cons label children siblings _ beside =>
      simp only [Ordered, roots, trees, beside, List.pairwise_cons, List.forall_mem_cons]
      constructor
      · intro hgiven
        obtain ⟨hfirst, hbelow, hroots, hlater⟩ := hgiven
        exact ⟨⟨hfirst, hroots⟩, hbelow, hlater⟩
      · intro hgiven
        obtain ⟨⟨hfirst, hroots⟩, hbelow, hlater⟩ := hgiven
        exact ⟨hfirst, hbelow, hroots, hlater⟩

/-- All trees of a forest, each before those below it, as its root's label and children. -/
def subtrees : Forest α → List (α × Forest α)
  | nil => []
  | cons label children siblings =>
      (label, children) :: (children.subtrees ++ siblings.subtrees)

/-- The trees, taken by their labels, are the labels of the forest. -/
theorem map_fst_subtrees (forest : Forest α) : forest.subtrees.map (·.1) = forest.toList := by
  induction forest with
  | nil => rfl
  | cons label children siblings below beside => simp [subtrees, toList, below, beside]

/-! ## Replacing labels -/

/-- The forest with each label replaced. -/
def map (f : α → β) : Forest α → Forest β
  | nil => nil
  | cons label children siblings => cons (f label) (children.map f) (siblings.map f)

theorem map_map {γ : Type} (f : α → β) (g : β → γ) (forest : Forest α) :
    (forest.map f).map g = forest.map (g ∘ f) := by
  induction forest with
  | nil => rfl
  | cons label children siblings below beside => simp [map, below, beside]

theorem size_map (f : α → β) (forest : Forest α) : (forest.map f).size = forest.size := by
  induction forest with
  | nil => rfl
  | cons label children siblings below beside => simp [map, size, below, beside]

theorem isEmpty_map (f : α → β) (forest : Forest α) : (forest.map f).isEmpty = forest.isEmpty := by
  cases forest <;> rfl

theorem roots_map (f : α → β) (forest : Forest α) : (forest.map f).roots = forest.roots.map f := by
  induction forest with
  | nil => rfl
  | cons label children siblings _ beside => simp [map, roots, beside]

theorem trees_map (f : α → β) (forest : Forest α) :
    (forest.map f).trees = forest.trees.map fun tree => (f tree.1, tree.2.map f) := by
  induction forest with
  | nil => rfl
  | cons label children siblings _ beside => simp [map, trees, beside]

theorem toList_map (f : α → β) (forest : Forest α) :
    (forest.map f).toList = forest.toList.map f := by
  induction forest with
  | nil => rfl
  | cons label children siblings below beside => simp [map, toList, below, beside]

/-- A relation that the new labels have as the old ones did stays throughout. -/
theorem Ordered.map {f : α → β} {t : β → β → Prop} {forest : Forest α} (h : forest.Ordered r)
    (hkept : ∀ a b, r a b → t (f a) (f b)) : (forest.map f).Ordered t := by
  induction forest with
  | nil => trivial
  | cons label children siblings below beside =>
      refine ⟨fun other hother => ?_, below h.2.1, beside h.2.2⟩
      rw [roots_map] at hother
      obtain ⟨root, hroot, rfl⟩ := List.mem_map.mp hother
      exact hkept _ _ (h.1 root hroot)

end AliasCatalog.Forest
