import AliasCatalog.Proofs.Namespace.Mirror

/-!
# Bare trees

A bare tree keeps of each declaration its name only.  Two trees of one kind are the same when bare as
soon as the same names are declared in them (`bare_eq_of_same_names`), whatever the declarations say
and in whatever order they came.
-/

namespace AliasCatalog

open Naming

/-- Some declarations declare the same names as others. -/
def SameNames (declarations others : List Declaration) : Prop :=
  ∀ name, (∃ d ∈ declarations, d.name = name) ↔ ∃ d ∈ others, d.name = name

/-- A declaration of which only the name is kept. -/
def Declaration.bare (declaration : Declaration) : Declaration :=
  .bundle declaration.name []

namespace Namespace

def Entry.bare (entry : Entry) : Entry :=
  { entry with leaf := entry.leaf.map Declaration.bare }

def Node.bare (node : Node) : Node :=
  ⟨node.path, node.leaf.map Declaration.bare, node.children.map Entry.bare⟩

def Tree.bare (tree : Tree) : Tree :=
  { tree with forest := tree.forest.map Entry.bare }

/-! ## What bare trees keep -/

/-- The nodes of a bare tree are the bare nodes of the tree. -/
theorem preorder_bare (path : List Segment) (forest : Forest Entry) :
    preorder path (forest.map Entry.bare) = (preorder path forest).map Node.bare := by
  induction forest generalizing path with
  | nil => rfl
  | cons entry children siblings below beside =>
      have hsegment : entry.bare.segment = entry.segment := rfl
      simp only [Forest.map, preorder, hsegment, below, beside, List.map_cons, List.map_append]
      rfl

theorem Tree.nodes_bare (tree : Tree) : tree.bare.nodes = tree.nodes.map Node.bare := by
  unfold nodes
  rw [List.map_cons, ← preorder_bare]
  rfl

theorem Tree.nodeCount_bare (tree : Tree) : tree.bare.nodeCount = tree.nodeCount := by
  unfold nodeCount bare
  rw [Forest.size_map]

theorem Tree.leafCount_bare (tree : Tree) : tree.bare.leafCount = tree.leafCount := by
  unfold leafCount declarations bare
  rw [Forest.toList_map, List.filterMap_map]
  have hleaf : (fun entry : Entry => entry.leaf) ∘ Entry.bare =
      fun entry => entry.leaf.map Declaration.bare := rfl
  rw [hleaf, ← List.map_filterMap, List.length_map]

theorem Node.shape_bare (node : Node) : node.bare.shape = node.shape := by
  simp [shape, bare, Forest.isEmpty_map]

/-! ## Declarations of bare forests -/

/-- At a node and below it the same paths are declared. -/
theorem declaredFrom_bare (leaf : Option Declaration)
    (below : List (List Segment × Declaration)) :
    declaredFrom (leaf.map Declaration.bare) (below.map fun found => (found.1, found.2.bare)) =
      (declaredFrom leaf below).map fun found => (found.1, found.2.bare) := by
  cases leaf <;> simp [declaredFrom]

/-- A bare forest has the bare declarations at the same paths. -/
theorem declared_bare (forest : Forest Entry) :
    declared (forest.map Entry.bare) =
      (declared forest).map fun found => (found.1, found.2.bare) := by
  induction forest with
  | nil => rfl
  | cons entry children siblings below beside =>
      have hsegment : entry.bare.segment = entry.segment := rfl
      have hleaf : entry.bare.leaf = entry.leaf.map Declaration.bare := rfl
      simp only [Forest.map, declared, below, beside, hsegment, hleaf, declaredFrom_bare,
        List.map_append, List.map_map]
      rfl

/-- Text order does not depend on the payloads. -/
theorem ordered_bare {forest : Forest Entry} (h : forest.Ordered Entry.TextBefore) :
    (forest.map Entry.bare).Ordered Entry.TextBefore :=
  h.map fun _ _ hlt => hlt

/-- A bare forest is grounded when the forest is. -/
theorem grounded_bare {forest : Forest Entry} (h : Grounded forest) :
    Grounded (forest.map Entry.bare) := by
  induction forest with
  | nil => trivial
  | cons entry children siblings below beside =>
      refine ⟨fun hleaf hnil => ?_, below h.2.1, beside h.2.2⟩
      refine h.1 (Option.map_eq_none_iff.mp hleaf) ?_
      cases children with
      | nil => rfl
      | cons => cases hnil

/-- A tree is placed by its key whatever its payloads are. -/
theorem placeByKey_bare (entry : Entry) (children forest : Forest Entry) :
    placeByKey entry.bare (children.map Entry.bare) (forest.map Entry.bare) =
      (placeByKey entry children forest).map Entry.bare := by
  induction forest with
  | nil => rfl
  | cons other below beside _ ih =>
      have hkey : ∀ entry : Entry, entry.bare.key = entry.key := fun _ => rfl
      simp only [Forest.map, placeByKey, hkey, ih]
      split <;> rfl

/-- Sorting looks at no declaration. -/
theorem sortByKey_bare (forest : Forest Entry) :
    sortByKey (forest.map Entry.bare) = (sortByKey forest).map Entry.bare := by
  induction forest with
  | nil => rfl
  | cons entry children siblings below beside =>
      rw [Forest.map, sortByKey, sortByKey, below, beside, placeByKey_bare]

/-! ## Names determine the bare tree -/

/-- A bare forest in text order holds the bare declarations of the gathered names. -/
theorem mem_declared_bare {forest : Forest Entry} {declarations : List Declaration}
    (h : Gathers forest (declarations.map located)) {path : List Segment} {e : Declaration} :
    (path, e) ∈ declared (forest.map Entry.bare) ↔
      ∃ name, (∃ d ∈ declarations, d.name = name) ∧
        path = segmentsOf name ∧ e = Declaration.bundle name [] := by
  rw [declared_bare, (h.declared.map _).mem_iff, List.map_map, List.mem_map]
  constructor
  · intro hgiven
    obtain ⟨d, hd, heq⟩ := hgiven
    cases heq
    exact ⟨d.name, ⟨d, hd, rfl⟩, rfl, rfl⟩
  · intro hgiven
    obtain ⟨_, ⟨d, hd, rfl⟩, rfl, rfl⟩ := hgiven
    exact ⟨d, hd, rfl⟩

/-- Gathered forests with the same names are equal when bare. -/
theorem map_bare_eq_of_gathers {forest other : Forest Entry}
    {declarations others : List Declaration} (h : Gathers forest (declarations.map located))
    (hother : Gathers other (others.map located)) (hnames : SameNames declarations others) :
    forest.map Entry.bare = other.map Entry.bare := by
  apply eq_of_mem_declared_iff (ordered_bare h.ordered) (ordered_bare hother.ordered)
    (grounded_bare h.grounded) (grounded_bare hother.grounded)
  intro path e
  rw [mem_declared_bare h, mem_declared_bare hother]
  exact exists_congr fun name => and_congr_left fun _ => hnames name

namespace Tree

variable {kind : Kind} {declarations : List Declaration} {tree : Tree}

/-- A tree is the sorted forest that gathers its declarations. -/
theorem exists_gathers_of_ofDeclarations (h : ofDeclarations kind declarations = .ok tree) :
    ∃ forest, Gathers forest (declarations.map located) ∧ tree = ⟨kind, sortByKey forest⟩ := by
  obtain ⟨forest, hgathers, hbuild⟩ := exists_gathers (admissible_of_ofDeclarations h).1
  refine ⟨forest, hgathers, ?_⟩
  rw [h] at hbuild
  by_cases hapart : forest.Ordered Entry.Apart
  · rw [finish_eq_ok hapart] at hbuild
    exact Except.ok.inj hbuild
  · obtain ⟨error, hrun, _⟩ := @finish_isCollision kind _ hapart
    rw [hrun] at hbuild
    cases hbuild

/-- **The names that are declared determine the bare tree.** -/
theorem bare_eq_of_same_names {others : List Declaration} {other : Tree}
    (h : ofDeclarations kind declarations = .ok tree)
    (hother : ofDeclarations kind others = .ok other) (hnames : SameNames declarations others) :
    tree.bare = other.bare := by
  obtain ⟨forest, hgathers, rfl⟩ := exists_gathers_of_ofDeclarations h
  obtain ⟨forest', hgathers', rfl⟩ := exists_gathers_of_ofDeclarations hother
  rw [bare, bare, ← sortByKey_bare, ← sortByKey_bare,
    map_bare_eq_of_gathers hgathers hgathers' hnames]

end Tree

end Namespace

end AliasCatalog
