import AliasCatalog.Proofs.Namespace.Lookup

/-!
# The listing of a forest

The listing of a forest has a node for each beginning of a declared path (`exists_mem_preorder`), and
each of its nodes stands at such a beginning and holds what the declarations go on with there
(`holds_of_mem_preorder`).  It runs through the nodes in the order of their keys
(`pairwise_preorder`), so no node comes twice, and in the order in which a walk with a stack visits
them (`Walk.preorder`).
-/

namespace AliasCatalog.Namespace

open Naming

namespace Node

/-- The texts of the segments from the root down to the node. -/
def parts (node : Node) : List String :=
  node.path.map (·.text)

/-- The keys from the root down to the node. -/
def keys (node : Node) : List String :=
  node.path.map (·.key)

/-- The node stands at the end of a way and holds what some declarations go on with from there. -/
structure Holds (node : Node) (way : List Segment) (found : List (List Segment × Declaration)) :
    Prop where
  canonical : node.Canonical
  mem_declared : ∀ rest d, (rest, d) ∈ node.declared ↔ (way ++ rest, d) ∈ found

end Node

variable {forest : Forest Entry} {path : List Segment} {node : Node}

/-- The nodes of a forest are the first, those below it and those of its siblings. -/
theorem mem_preorder_cons {entry : Entry} {children siblings : Forest Entry} :
    node ∈ preorder path (.cons entry children siblings) ↔
      node = .below path entry children ∨ node ∈ preorder (path ++ [entry.segment]) children ∨
        node ∈ preorder path siblings := by
  simp [preorder]

/-- The path of a listed node goes on with the segment of a root. -/
theorem exists_root_of_mem_preorder (h : node ∈ preorder path forest) :
    ∃ entry ∈ forest.roots, ∃ rest, node.path = path ++ entry.segment :: rest := by
  induction forest generalizing path with
  | nil => cases h
  | cons entry children siblings below beside =>
      rcases mem_preorder_cons.mp h with rfl | hbelow | hbeside
      · exact ⟨entry, List.mem_cons_self, [], rfl⟩
      · obtain ⟨other, _, rest, hpath⟩ := below hbelow
        exact ⟨entry, List.mem_cons_self, other.segment :: rest, by simpa using hpath⟩
      · obtain ⟨other, hother, rest, hpath⟩ := beside hbeside
        exact ⟨other, List.mem_cons_of_mem _ hother, rest, hpath⟩

/-! ## What the nodes hold -/

/-- What goes on below the first tree goes on in the forest, one segment later. -/
theorem mem_declared_first {entry : Entry} {children siblings : Forest Entry}
    (hdist : (Forest.cons entry children siblings).Ordered Entry.Distinct)
    {way rest : List Segment} {d : Declaration} (hne : way ≠ []) :
    (way ++ rest, d) ∈ declared children ↔
      (entry.segment :: way ++ rest, d) ∈ declared (.cons entry children siblings) := by
  rw [List.cons_append, mem_declared_tree hdist List.mem_cons_self]
  exact mem_declared_iff_ne_nil.trans (and_iff_right (by simp [hne]))

/-- What goes on from a way among the siblings goes on there in the forest: a way that is taken among the
siblings cannot start like the first tree. -/
theorem mem_declared_beside {entry : Entry} {children siblings : Forest Entry}
    (hdist : ∀ other ∈ siblings.roots, Entry.Distinct entry other) {way : List Segment}
    (hne : way ≠ []) (hshown : ∃ rest d, (way ++ rest, d) ∈ declared siblings)
    {rest : List Segment} {d : Declaration} :
    (way ++ rest, d) ∈ declared siblings ↔
      (way ++ rest, d) ∈ declared (.cons entry children siblings) := by
  have hother : ∀ tail, way ++ rest ≠ entry.segment :: tail := by
    intro tail heq
    obtain ⟨segment, way, rfl⟩ := List.exists_cons_of_ne_nil hne
    obtain ⟨rfl, _⟩ := List.cons.inj heq
    obtain ⟨more, e, hmem⟩ := hshown
    exact notMem_declared_siblings hdist hmem
  rw [mem_declared_siblings hdist]
  exact and_iff_right hother

/-- **A listed node holds what the declarations go on with** from its path, and there is one.  Below
it siblings are related as in the forest. -/
theorem declared_of_mem_preorder {r : Entry → Entry → Prop}
    (hr : ∀ a b, r a b → Entry.Distinct a b) (hord : forest.Ordered r) (hground : Grounded forest)
    (h : node ∈ preorder path forest) :
    ∃ way, way ≠ [] ∧ node.path = path ++ way ∧ node.children.Ordered r ∧ Grounded node.children ∧
      (∀ rest d, (rest, d) ∈ node.declared ↔ (way ++ rest, d) ∈ declared forest) ∧
      ∃ rest d, (way ++ rest, d) ∈ declared forest := by
  induction forest generalizing path with
  | nil => cases h
  | cons entry children siblings below beside =>
      have hdist := hord.imp hr
      rcases mem_preorder_cons.mp h with rfl | hbelow | hbeside
      · have hfirst := fun rest d =>
          @mem_declared_tree _ (entry, children) rest d hdist List.mem_cons_self
        obtain ⟨rest, d, hmem⟩ := hground.exists_mem_tree List.mem_cons_self
        exact ⟨[entry.segment], by simp, rfl, hord.2.1, hground.2.1,
          fun rest d => (hfirst rest d).symm, rest, d, (hfirst rest d).mpr hmem⟩
      · obtain ⟨way, hne, hpath, hordered, hgrounded, hholds, rest, d, hmem⟩ :=
          below hord.2.1 hground.2.1 hbelow
        refine ⟨entry.segment :: way, by simp, by simpa using hpath, hordered, hgrounded, ?_,
          rest, d, (mem_declared_first hdist hne).mp hmem⟩
        intro rest d
        rw [hholds, mem_declared_first hdist hne]
      · obtain ⟨way, hne, hpath, hordered, hgrounded, hholds, hshown⟩ :=
          beside hord.2.2 hground.2.2 hbeside
        have houter := fun rest d =>
          @mem_declared_beside entry children siblings hdist.1 way hne hshown rest d
        obtain ⟨rest, d, hmem⟩ := hshown
        refine ⟨way, hne, hpath, hordered, hgrounded, ?_, rest, d, (houter rest d).mp hmem⟩
        intro rest d
        rw [hholds, houter]

/-- In the order of keys a listed node is canonical as well. -/
theorem holds_of_mem_preorder (hord : forest.Ordered Entry.KeyBefore) (hground : Grounded forest)
    (h : node ∈ preorder path forest) :
    ∃ way, way ≠ [] ∧ node.path = path ++ way ∧ node.Holds way (declared forest) ∧
      ∃ rest d, (way ++ rest, d) ∈ declared forest := by
  obtain ⟨way, hne, hpath, hordered, hgrounded, hholds, hshown⟩ :=
    declared_of_mem_preorder (fun _ _ hlt => hlt.apart.distinct) hord hground h
  exact ⟨way, hne, hpath, ⟨⟨hordered, hgrounded⟩, hholds⟩, hshown⟩

/-- **Every beginning of a declared path has a node.** -/
theorem exists_mem_preorder {way rest : List Segment} {d : Declaration} (hne : way ≠ [])
    (h : (way ++ rest, d) ∈ declared forest) :
    ∃ node ∈ preorder path forest, node.path = path ++ way := by
  induction forest generalizing path way with
  | nil => cases h
  | cons entry children siblings below beside =>
      rcases mem_declared_cons.mp h with ⟨tail, hsplit, hmem⟩ | hmem
      · obtain ⟨segment, way, rfl⟩ := List.exists_cons_of_ne_nil hne
        obtain ⟨rfl, rfl⟩ := List.cons.inj hsplit
        by_cases hway : way = []
        · subst hway
          exact ⟨_, mem_preorder_cons.mpr (.inl rfl), rfl⟩
        · have hinner := mem_declared_iff_ne_nil.mpr ⟨by simp [hway], hmem⟩
          obtain ⟨node, hnode, hpath⟩ := @below (path ++ [entry.segment]) way hway hinner
          exact ⟨node, mem_preorder_cons.mpr (.inr (.inl hnode)), by simpa using hpath⟩
      · obtain ⟨node, hnode, hpath⟩ := @beside path way hne hmem
        exact ⟨node, mem_preorder_cons.mpr (.inr (.inr hnode)), hpath⟩

/-- Below siblings all declarations are listed, in the order of their nodes. -/
theorem map_snd_declared : (declared forest).map (·.2) = forest.toList.filterMap (·.leaf) := by
  induction forest with
  | nil => rfl
  | cons entry children siblings below beside =>
      cases hleaf : entry.leaf <;>
        simp [declared, declaredFrom, Forest.toList, hleaf, ← below, ← beside, Function.comp_def]

/-- A listing has the declarations in the order of the forest. -/
theorem leaves_preorder (path : List Segment) (forest : Forest Entry) :
    (preorder path forest).map (·.leaf) = forest.toList.map (·.leaf) := by
  induction forest generalizing path with
  | nil => rfl
  | cons entry children siblings below beside =>
      simp [preorder, Forest.toList, below, beside, Node.below]

/-- The nodes hold the declarations of the tree. -/
theorem Tree.filterMap_leaf_nodes (tree : Tree) :
    tree.nodes.filterMap (·.leaf) = tree.declarations := by
  have hleaves := congrArg (List.filterMap id) (leaves_preorder [] tree.forest)
  rw [List.filterMap_map, List.filterMap_map] at hleaves
  exact hleaves

/-! ## The order of the nodes -/

/-- The keys of a node are those of its path, part by part. -/
theorem Node.keys_of_path_eq {segment : Segment} {rest : List Segment}
    (h : node.path = path ++ segment :: rest) :
    node.keys = path.map (·.key) ++ segment.key :: rest.map (·.key) := by
  rw [keys, h, List.map_append, List.map_cons]

/-- All that starts with the segment of the first tree has its keys before those of the siblings. -/
theorem keys_lt_of_mem_siblings {entry : Entry} {siblings : Forest Entry} {rest : List Segment}
    {other : Node} (hfirst : ∀ root ∈ siblings.roots, Entry.KeyBefore entry root)
    (hpath : node.path = path ++ entry.segment :: rest) (h : other ∈ preorder path siblings) :
    node.keys < other.keys := by
  obtain ⟨root, hroot, more, hother⟩ := exists_root_of_mem_preorder h
  rw [Node.keys_of_path_eq hpath, Node.keys_of_path_eq hother]
  exact List.append_left_lt (List.cons_lt_cons_iff.mpr (.inl (hfirst root hroot)))

/-- A node has its keys before those of the nodes below it. -/
theorem keys_lt_of_mem_below {entry : Entry} {children : Forest Entry}
    (h : node ∈ preorder (path ++ [entry.segment]) children) :
    (Node.below path entry children).keys < node.keys := by
  obtain ⟨root, _, rest, hpath⟩ := exists_root_of_mem_preorder h
  rw [List.append_assoc] at hpath
  have hparent : (Node.below path entry children).path = path ++ entry.segment :: [] := rfl
  rw [Node.keys_of_path_eq hparent, Node.keys_of_path_eq hpath]
  have htail : ([] : List String) < (root.segment :: rest).map (·.key) := List.nil_lt_cons _ _
  exact List.append_left_lt (List.cons_lt_cons_iff.mpr (.inr ⟨rfl, htail⟩))

/-- **The listing runs through the nodes in the order of their keys**, a node before those below
it. -/
theorem pairwise_preorder (hord : forest.Ordered Entry.KeyBefore) :
    (preorder path forest).Pairwise fun a b => a.keys < b.keys := by
  induction forest generalizing path with
  | nil => exact .nil
  | cons entry children siblings below beside =>
      rw [preorder, List.pairwise_cons, List.pairwise_append]
      refine ⟨?_, below hord.2.1, beside hord.2.2, ?_⟩
      · intro other hother
        rcases List.mem_append.mp hother with hbelow | hbeside
        · exact keys_lt_of_mem_below hbelow
        · exact keys_lt_of_mem_siblings hord.1 rfl hbeside
      · intro node hnode other hother
        obtain ⟨root, _, rest, hpath⟩ := exists_root_of_mem_preorder hnode
        rw [List.append_assoc] at hpath
        exact keys_lt_of_mem_siblings hord.1 hpath hother

/-! ## Families -/

/-- The roots of a forest are among its nodes. -/
theorem below_mem_preorder {tree : Entry × Forest Entry} (h : tree ∈ forest.trees) :
    Node.below path tree.1 tree.2 ∈ preorder path forest := by
  induction forest with
  | nil => cases h
  | cons entry children siblings _ beside =>
      rcases List.mem_cons.mp h with rfl | h
      · exact mem_preorder_cons.mpr (.inl rfl)
      · exact mem_preorder_cons.mpr (.inr (.inr (beside h)))

/-- What lies below a node of a forest lies in the forest. -/
theorem preorder_subset (h : node ∈ preorder path forest) :
    ∀ other ∈ preorder node.path node.children, other ∈ preorder path forest := by
  induction forest generalizing path with
  | nil => cases h
  | cons entry children siblings below beside =>
      intro other hother
      rcases mem_preorder_cons.mp h with rfl | hbelow | hbeside
      · exact mem_preorder_cons.mpr (.inr (.inl hother))
      · exact mem_preorder_cons.mpr (.inr (.inl (below hbelow other hother)))
      · exact mem_preorder_cons.mpr (.inr (.inr (beside hbeside other hother)))

/-- The members of a node are among the nodes below it. -/
theorem members_subset (h : node ∈ preorder path forest) :
    ∀ child ∈ node.members, child ∈ preorder path forest := by
  intro child hchild
  obtain ⟨tree, htree, rfl⟩ := List.mem_map.mp hchild
  exact preorder_subset h _ (below_mem_preorder htree)

/-- A greatest number is within a bound when all numbers are. -/
theorem foldl_max_le_iff {numbers : List Nat} {start bound : Nat} :
    numbers.foldl max start ≤ bound ↔ start ≤ bound ∧ ∀ n ∈ numbers, n ≤ bound := by
  induction numbers generalizing start with
  | nil => simp
  | cons n rest ih =>
      simp only [List.foldl_cons, ih, Nat.max_le, List.forall_mem_cons, and_assoc]

/-! ## Walks with a stack -/

/-- A walk that takes the first node off a stack, visits it, and puts its children in its place, until
the stack is empty. -/
inductive Walk : List Node → List Node → Prop where
  | done : Walk [] []
  | visit (node : Node) {stack visited : List Node} (rest : Walk (node.members ++ stack) visited) :
      Walk (node :: stack) (node :: visited)

/-- With the roots of a forest on its stack a walk visits the listing of the forest first. -/
theorem Walk.preorder {stack visited : List Node} (h : Walk stack visited) :
    Walk (forest.trees.map (fun tree => Node.below path tree.1 tree.2) ++ stack)
      (preorder path forest ++ visited) := by
  induction forest generalizing path stack visited with
  | nil => exact h
  | cons entry children siblings below beside =>
      have hbelow := @below (path ++ [entry.segment]) _ _ (@beside path _ _ h)
      rw [Namespace.preorder, List.cons_append, List.append_assoc]
      exact .visit (.below path entry children) hbelow

end AliasCatalog.Namespace
