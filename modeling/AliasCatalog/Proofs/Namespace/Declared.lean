import AliasCatalog.Namespace.Tree
import AliasCatalog.Proofs.Forest
import AliasCatalog.Proofs.Naming.Reading

/-!
# The declarations of a forest

A forest of entries is read as a list of declarations, each with the path of segments that leads to
it.  This reading forgets all structure, and still it determines the forest: when siblings stand in
text order and no branch is bare, two forests with the same declarations are equal
(`eq_of_mem_declared_iff`).  So whatever is computed from such a forest is a function of the set of
declarations alone.
-/

namespace AliasCatalog.Namespace

open Naming

/-! ## Relations between entries -/

namespace Entry

/-- The two entries stand in text order. -/
def TextBefore (a b : Entry) : Prop := a.segment.text < b.segment.text

/-- The two entries stand in the order of their keys. -/
def KeyBefore (a b : Entry) : Prop := a.key < b.key

/-- The two entries have different keys. -/
def Apart (a b : Entry) : Prop := a.key ≠ b.key

/-- The two entries have different segments. -/
def Distinct (a b : Entry) : Prop := a.segment ≠ b.segment

/-- Entries in strict text order have different segments. -/
theorem TextBefore.distinct {a b : Entry} (h : TextBefore a b) : Distinct a b := by
  intro heq
  rw [TextBefore, heq] at h
  exact String.lt_irrefl _ h

/-- Entries in the strict order of keys have different keys. -/
theorem KeyBefore.apart {a b : Entry} (h : KeyBefore a b) : Apart a b := by
  intro heq
  rw [KeyBefore, heq] at h
  exact String.lt_irrefl _ h

/-- Entries with different keys have different segments. -/
theorem Apart.distinct {a b : Entry} (h : Apart a b) : Distinct a b :=
  fun heq => h (congrArg Segment.key heq)

end Entry

/-! ## Declarations with their paths -/

/-- The declarations at a node and below it, by the path from the node: its own declaration has the
empty path. -/
def declaredFrom (leaf : Option Declaration) (below : List (List Segment × Declaration)) :
    List (List Segment × Declaration) :=
  (leaf.map fun declaration => ([], declaration)).toList ++ below

/-- The declarations of a forest, each with the path that leads to it. -/
def declared : Forest Entry → List (List Segment × Declaration)
  | .nil => []
  | .cons entry children siblings =>
      (declaredFrom entry.leaf (declared children)).map
          (fun found => (entry.segment :: found.1, found.2))
        ++ declared siblings

/-- Every entry holds a declaration or has children. -/
def Grounded : Forest Entry → Prop
  | .nil => True
  | .cons entry children siblings =>
      (entry.leaf = none → children ≠ .nil) ∧ Grounded children ∧ Grounded siblings

/-- What is declared from a node is its own declaration or lies below. -/
theorem mem_declaredFrom {leaf : Option Declaration} {below : List (List Segment × Declaration)}
    {path : List Segment} {d : Declaration} :
    (path, d) ∈ declaredFrom leaf below ↔ (path = [] ∧ leaf = some d) ∨ (path, d) ∈ below := by
  cases leaf <;> simp [declaredFrom, eq_comm]

/-- Membership follows the shape of a forest. -/
theorem mem_declared_cons {entry : Entry} {children siblings : Forest Entry}
    {path : List Segment} {d : Declaration} :
    (path, d) ∈ declared (.cons entry children siblings) ↔
      (∃ rest, path = entry.segment :: rest ∧
        (rest, d) ∈ declaredFrom entry.leaf (declared children)) ∨
      (path, d) ∈ declared siblings := by
  simp only [declared, List.mem_append, List.mem_map, Prod.mk.injEq, Prod.exists]
  constructor
  · intro hcases
    rcases hcases with ⟨rest, found, hmem, rfl, rfl⟩ | hlater
    · exact .inl ⟨rest, rfl, hmem⟩
    · exact .inr hlater
  · intro hcases
    rcases hcases with ⟨rest, rfl, hmem⟩ | hlater
    · exact .inl ⟨rest, d, hmem, rfl, rfl⟩
    · exact .inr hlater

/-- A declaration of a forest lies in one of its trees. -/
theorem mem_declared_iff {forest : Forest Entry} {path : List Segment} {d : Declaration} :
    (path, d) ∈ declared forest ↔
      ∃ tree ∈ forest.trees, ∃ rest, path = tree.1.segment :: rest ∧
        (rest, d) ∈ declaredFrom tree.1.leaf (declared tree.2) := by
  induction forest with
  | nil => simp [declared, Forest.trees]
  | cons entry children siblings _ beside =>
      simp [mem_declared_cons, beside, Forest.trees]

/-- No declaration of a forest has the empty path. -/
theorem nil_notMem_declared {forest : Forest Entry} {d : Declaration} :
    ([], d) ∉ declared forest := by
  simp [mem_declared_iff]

/-- The path of a declaration starts at a root. -/
theorem exists_root_of_mem_declared {forest : Forest Entry} {segment : Segment}
    {rest : List Segment} {d : Declaration} (h : (segment :: rest, d) ∈ declared forest) :
    ∃ entry ∈ forest.roots, entry.segment = segment := by
  obtain ⟨tree, hmem, _, hpath, _⟩ := mem_declared_iff.mp h
  exact ⟨tree.1, Forest.mem_roots_of_mem_trees hmem, (List.cons.inj hpath).1.symm⟩

/-- Below each of its trees a grounded forest is grounded. -/
theorem Grounded.of_mem_trees {forest : Forest Entry} {tree : Entry × Forest Entry}
    (hground : Grounded forest) (hmem : tree ∈ forest.trees) : Grounded tree.2 := by
  induction forest with
  | nil => cases hmem
  | cons entry children siblings _ beside =>
      rcases List.mem_cons.mp hmem with rfl | hlater
      · exact hground.2.1
      · exact beside hground.2.2 hlater

/-- A root of a grounded forest that holds no declaration has children. -/
theorem Grounded.root {forest : Forest Entry} {tree : Entry × Forest Entry}
    (hground : Grounded forest) (hmem : tree ∈ forest.trees) (hleaf : tree.1.leaf = none) :
    tree.2 ≠ .nil := by
  induction forest with
  | nil => cases hmem
  | cons entry children siblings _ beside =>
      rcases List.mem_cons.mp hmem with rfl | hlater
      · exact hground.1 hleaf
      · exact beside hground.2.2 hlater

/-- A node that holds a declaration, or has one below it, shows one. -/
theorem exists_mem_declaredFrom {leaf : Option Declaration} {children : Forest Entry}
    (hbelow : leaf = none → ∃ path d, (path, d) ∈ declared children) :
    ∃ path d, (path, d) ∈ declaredFrom leaf (declared children) := by
  cases leaf with
  | some d => exact ⟨[], d, mem_declaredFrom.mpr (.inl ⟨rfl, rfl⟩)⟩
  | none =>
      obtain ⟨path, d, hmem⟩ := hbelow rfl
      exact ⟨path, d, mem_declaredFrom.mpr (.inr hmem)⟩

/-- **A grounded forest has something to show.**  Unless it is empty, it holds a declaration. -/
theorem exists_mem_declared {forest : Forest Entry} (hground : Grounded forest)
    (hne : forest ≠ .nil) : ∃ path d, (path, d) ∈ declared forest := by
  induction forest with
  | nil => exact absurd rfl hne
  | cons entry children siblings below _ =>
      obtain ⟨path, d, hmem⟩ := @exists_mem_declaredFrom entry.leaf children
        fun hleaf => below hground.2.1 (hground.1 hleaf)
      exact ⟨entry.segment :: path, d, mem_declared_cons.mpr (.inl ⟨path, rfl, hmem⟩)⟩

/-- Each tree of a grounded forest has a declaration. -/
theorem Grounded.exists_mem_tree {forest : Forest Entry} {tree : Entry × Forest Entry}
    (hground : Grounded forest) (hmem : tree ∈ forest.trees) :
    ∃ path d, (path, d) ∈ declaredFrom tree.1.leaf (declared tree.2) :=
  exists_mem_declaredFrom fun hleaf =>
    exists_mem_declared (hground.of_mem_trees hmem) (hground.root hmem hleaf)

/-! ## Forests with distinct siblings -/

/-- The first of several distinct siblings does not show up below the others. -/
theorem notMem_declared_siblings {entry : Entry} {siblings : Forest Entry} {rest : List Segment}
    {d : Declaration} (hfirst : ∀ other ∈ siblings.roots, Entry.Distinct entry other) :
    (entry.segment :: rest, d) ∉ declared siblings := by
  intro hmem
  obtain ⟨other, hroot, heq⟩ := exists_root_of_mem_declared hmem
  exact hfirst other hroot heq.symm

/-- Among distinct siblings the first segment of a path tells the tree. -/
theorem mem_declared_tree {forest : Forest Entry} {tree : Entry × Forest Entry}
    {rest : List Segment} {d : Declaration} (hdist : forest.Ordered Entry.Distinct)
    (hmem : tree ∈ forest.trees) :
    (tree.1.segment :: rest, d) ∈ declared forest ↔
      (rest, d) ∈ declaredFrom tree.1.leaf (declared tree.2) := by
  induction forest with
  | nil => cases hmem
  | cons entry children siblings _ beside =>
      rw [mem_declared_cons]
      rcases List.mem_cons.mp hmem with rfl | hlater
      · constructor
        · intro hcases
          rcases hcases with ⟨_, heq, hfound⟩ | hother
          · exact (List.cons.inj heq).2 ▸ hfound
          · exact absurd hother (notMem_declared_siblings hdist.1)
        · exact fun hfound => .inl ⟨rest, rfl, hfound⟩
      · rw [← beside hdist.2.2 hlater]
        constructor
        · intro hcases
          rcases hcases with ⟨_, heq, _⟩ | hother
          · have hne := hdist.1 tree.1 (Forest.mem_roots_of_mem_trees hlater)
            exact absurd (List.cons.inj heq).1.symm hne
          · exact hother
        · exact .inr

/-! ## Declarations determine the forest -/

/-- Below a node are the declarations whose path is not empty. -/
theorem mem_declared_iff_ne_nil {leaf : Option Declaration} {children : Forest Entry}
    {path : List Segment} {d : Declaration} :
    (path, d) ∈ declared children ↔
      path ≠ [] ∧ (path, d) ∈ declaredFrom leaf (declared children) := by
  rw [mem_declaredFrom]
  constructor
  · intro hmem
    exact ⟨fun hnil => nil_notMem_declared (hnil ▸ hmem), .inr hmem⟩
  · intro hgiven
    obtain ⟨hne, ⟨hnil, _⟩ | hmem⟩ := hgiven
    · exact absurd hnil hne
    · exact hmem

/-- At a node is the declaration whose path is empty. -/
theorem leaf_eq_some_iff {leaf : Option Declaration} {children : Forest Entry} {d : Declaration} :
    leaf = some d ↔ ([], d) ∈ declaredFrom leaf (declared children) := by
  simp [mem_declaredFrom, nil_notMem_declared]

/-- The siblings have the declarations whose paths do not start with the first segment. -/
theorem mem_declared_siblings {entry : Entry} {children siblings : Forest Entry}
    {path : List Segment} {d : Declaration}
    (hfirst : ∀ other ∈ siblings.roots, Entry.Distinct entry other) :
    (path, d) ∈ declared siblings ↔
      (∀ rest, path ≠ entry.segment :: rest) ∧
        (path, d) ∈ declared (.cons entry children siblings) := by
  rw [mem_declared_cons]
  constructor
  · intro hmem
    refine ⟨?_, .inr hmem⟩
    intro rest hpath
    rw [hpath] at hmem
    exact notMem_declared_siblings hfirst hmem
  · intro hgiven
    obtain ⟨hother, ⟨rest, heq, _⟩ | hmem⟩ := hgiven
    · exact absurd heq (hother rest)
    · exact hmem

/-- In text order no path starts before the first root. -/
theorem text_le_of_mem_declared {entry : Entry} {children siblings : Forest Entry}
    {segment : Segment} {rest : List Segment} {d : Declaration}
    (hfirst : ∀ other ∈ siblings.roots, Entry.TextBefore entry other)
    (hmem : (segment :: rest, d) ∈ declared (.cons entry children siblings)) :
    entry.segment.text ≤ segment.text := by
  obtain ⟨root, hroot, rfl⟩ := exists_root_of_mem_declared hmem
  rcases List.mem_cons.mp hroot with rfl | hlater
  · exact String.le_refl _
  · exact String.not_lt.mp fun hlt => String.lt_irrefl _ (String.lt_trans (hfirst root hlater) hlt)

/-- A forest whose declarations all stand in another starts no earlier than the other. -/
theorem text_le_of_declared_subset {entry entry' : Entry}
    {children children' siblings siblings' : Forest Entry}
    (hfirst : ∀ root ∈ siblings'.roots, Entry.TextBefore entry' root)
    (hground : Grounded (.cons entry children siblings))
    (h : ∀ path d, (path, d) ∈ declared (.cons entry children siblings) →
      (path, d) ∈ declared (.cons entry' children' siblings')) :
    entry'.segment.text ≤ entry.segment.text := by
  obtain ⟨path, d, hmem⟩ := hground.exists_mem_tree List.mem_cons_self
  exact text_le_of_mem_declared hfirst (h _ d (mem_declared_cons.mpr (.inl ⟨path, rfl, hmem⟩)))

/-- **Declarations determine the forest.**  Two grounded forests in text order are equal when the
same declarations stand at the same paths. -/
theorem eq_of_mem_declared_iff {forest other : Forest Entry}
    (hforest : forest.Ordered Entry.TextBefore) (hother : other.Ordered Entry.TextBefore)
    (hground : Grounded forest) (hground' : Grounded other)
    (h : ∀ path d, (path, d) ∈ declared forest ↔ (path, d) ∈ declared other) :
    forest = other := by
  induction forest generalizing other with
  | nil =>
      cases other with
      | nil => rfl
      | cons entry children siblings =>
          obtain ⟨path, d, hmem⟩ := exists_mem_declared hground' (by simp)
          exact absurd ((h path d).mpr hmem) (by simp [declared])
  | cons entry children siblings below beside =>
      cases other with
      | nil =>
          obtain ⟨path, d, hmem⟩ := exists_mem_declared hground (by simp)
          exact absurd ((h path d).mp hmem) (by simp [declared])
      | cons entry' children' siblings' =>
          have hle := text_le_of_declared_subset hother.1 hground fun path d => (h path d).mp
          have hge := text_le_of_declared_subset hforest.1 hground' fun path d => (h path d).mpr
          have hsegment : entry.segment = entry'.segment :=
            Segment.eq_of_text (String.le_antisymm hge hle)
          have hdist := hforest.imp fun _ _ => Entry.TextBefore.distinct
          have hdist' := hother.imp fun _ _ => Entry.TextBefore.distinct
          have hfrom : ∀ path d, (path, d) ∈ declaredFrom entry.leaf (declared children) ↔
              (path, d) ∈ declaredFrom entry'.leaf (declared children') := by
            intro path d
            rw [← mem_declared_tree hdist List.mem_cons_self,
              ← mem_declared_tree hdist' List.mem_cons_self, h, hsegment]
          have hleaf : entry.leaf = entry'.leaf := by
            ext d
            rw [leaf_eq_some_iff, leaf_eq_some_iff, hfrom]
          have hentry : entry = entry' := by
            cases entry
            cases entry'
            cases hsegment
            cases hleaf
            rfl
          have hchildren : children = children' := by
            apply below hforest.2.1 hother.2.1 hground.2.1 hground'.2.1
            intro path d
            rw [mem_declared_iff_ne_nil, hfrom, ← mem_declared_iff_ne_nil]
          have hsiblings : siblings = siblings' := by
            apply beside hforest.2.2 hother.2.2 hground.2.2 hground'.2.2
            intro path d
            rw [mem_declared_siblings hdist.1, h, hsegment, ← mem_declared_siblings hdist'.1]
          rw [hentry, hchildren, hsiblings]

end AliasCatalog.Namespace
