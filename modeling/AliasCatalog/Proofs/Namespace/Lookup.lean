import AliasCatalog.Namespace.Node
import AliasCatalog.Proofs.Namespace.Build

/-!
# Lookup

A walk from a node by names goes as far as the keys of the names lead towards a declaration.  When
all of them do, the node reached holds just the declarations whose keys go on from there
(`descend_of_reaches`); otherwise the walk misses at the first name that leads nowhere
(`descend_of_not_reaches`).
-/

namespace AliasCatalog.Namespace

open Naming

/-- The keys of a path. -/
def pathKeys (path : List Segment) : List (Option String) :=
  path.map fun segment => some segment.key

namespace Node

/-- The declarations at a node and below it, by the path from the node. -/
def declared (node : Node) : List (List Segment × Declaration) :=
  declaredFrom node.leaf (Namespace.declared node.children)

/-- Below a node siblings stand in the strict order of their keys, and no branch is bare. -/
structure Canonical (node : Node) : Prop where
  ordered : node.children.Ordered Entry.KeyBefore
  grounded : Grounded node.children

/-- The names lead towards a declaration of the node. -/
def Reaches (node : Node) (names : List String) : Prop :=
  ∃ path d, (path, d) ∈ node.declared ∧ names.map key? <+: pathKeys path

variable {node child : Node} {name : String} {names resolved : List String}

/-! ## One step -/

/-- The trees below a canonical node start with different segments. -/
theorem Canonical.distinct (h : node.Canonical) : node.children.Ordered Entry.Distinct :=
  h.ordered.imp fun _ _ hlt => hlt.apart.distinct

/-- The nodes below a canonical node are canonical. -/
theorem Canonical.below (h : node.Canonical) {tree : Entry × Forest Entry}
    (hmem : tree ∈ node.children.trees) (path : List Segment) :
    (Node.below path tree.1 tree.2).Canonical :=
  ⟨(Forest.ordered_iff.mp h.ordered).2 tree hmem, h.grounded.of_mem_trees hmem⟩

/-- A declaration below a node lies in the tree of its first segment. -/
theorem exists_tree_of_mem_declared {segment : Segment} {rest : List Segment} {d : Declaration}
    (hmem : (segment :: rest, d) ∈ node.declared) :
    ∃ tree ∈ node.children.trees, tree.1.segment = segment := by
  have hbelow : (segment :: rest, d) ∈ Namespace.declared node.children := by
    simpa [declared, mem_declaredFrom] using hmem
  obtain ⟨tree, htree, _, hpath, _⟩ := mem_declared_iff.mp hbelow
  exact ⟨tree, htree, (List.cons.inj hpath).1.symm⟩

/-- The declarations of a child are those of the node whose path starts with its segment. -/
theorem mem_declared_below (h : node.Canonical) {tree : Entry × Forest Entry}
    (hmem : tree ∈ node.children.trees) {path : List Segment} {d : Declaration} :
    (tree.1.segment :: path, d) ∈ node.declared ↔
      (path, d) ∈ (Node.below node.path tree.1 tree.2).declared := by
  rw [declared, mem_declaredFrom]
  simp only [reduceCtorEq, false_and, false_or]
  exact mem_declared_tree h.distinct hmem

/-- In the order of keys a tree is told by its key. -/
theorem eq_of_key_eq {forest : Forest Entry} (h : forest.Ordered Entry.KeyBefore)
    {tree other : Entry × Forest Entry} (htree : tree ∈ forest.trees)
    (hother : other ∈ forest.trees) (hkey : tree.1.key = other.1.key) : tree = other := by
  induction forest with
  | nil => cases htree
  | cons entry children siblings _ beside =>
      have hapart : ∀ later ∈ siblings.trees, entry.key ≠ later.1.key := fun later hlater =>
        (h.1 later.1 (Forest.mem_roots_of_mem_trees hlater)).apart
      rcases List.mem_cons.mp htree with rfl | htree <;>
        rcases List.mem_cons.mp hother with rfl | hother
      · rfl
      · exact absurd hkey (hapart _ hother)
      · exact absurd hkey.symm (hapart _ htree)
      · exact beside h.2.2 htree hother

/-- A name with a key is looked for under this key. -/
theorem child?_of_key? {key : String} (hkey : key? name = some key) :
    node.child? name = (node.children.trees.find? (·.1.key == key)).map fun tree =>
      Node.below node.path tree.1 tree.2 := by
  rw [child?, hkey]
  cases hfind : node.children.trees.find? (·.1.key == key) <;> simp [hfind]

/-- **A child is found by its key** and by no other. -/
theorem child?_eq_some_iff (h : node.Canonical) :
    node.child? name = some child ↔
      ∃ tree ∈ node.children.trees, key? name = some tree.1.key ∧
        child = Node.below node.path tree.1 tree.2 := by
  cases hkey : key? name with
  | none => simp [child?, hkey]
  | some key =>
      simp only [child?_of_key? hkey, Option.map_eq_some_iff, Option.some.injEq]
      constructor
      · intro hgiven
        obtain ⟨tree, hfind, rfl⟩ := hgiven
        have hsame : tree.1.key = key := by simpa using List.find?_some hfind
        exact ⟨tree, List.mem_of_find?_eq_some hfind, hsame.symm, rfl⟩
      · intro hgiven
        obtain ⟨tree, hmem, rfl, rfl⟩ := hgiven
        have hfind : node.children.trees.find? (·.1.key == tree.1.key) = some tree := by
          cases hres : node.children.trees.find? (·.1.key == tree.1.key) with
          | none => exact absurd (List.find?_eq_none.mp hres tree hmem) (by simp)
          | some other =>
              have hother := List.mem_of_find?_eq_some hres
              have hsame : other.1.key = tree.1.key := by simpa using List.find?_some hres
              rw [eq_of_key_eq h.ordered hother hmem hsame]
        exact ⟨tree, hfind, rfl⟩

/-- A node reaches the empty rest when it has a declaration at it or below it. -/
theorem reaches_nil : node.Reaches [] ↔ ∃ path d, (path, d) ∈ node.declared := by
  simp [Reaches]

/-- A node reaches what its first child on the way reaches. -/
theorem reaches_cons_iff (h : node.Canonical) :
    node.Reaches (name :: names) ↔ ∃ child, node.child? name = some child ∧ child.Reaches names := by
  constructor
  · intro hgiven
    obtain ⟨path, d, hmem, hkeys⟩ := hgiven
    cases path with
    | nil => simp [pathKeys] at hkeys
    | cons segment rest =>
        obtain ⟨hkey, hrest⟩ := List.cons_prefix_cons.mp hkeys
        obtain ⟨tree, htree, rfl⟩ := exists_tree_of_mem_declared hmem
        exact ⟨_, (child?_eq_some_iff h).mpr ⟨tree, htree, hkey, rfl⟩, rest, d,
          (mem_declared_below h htree).mp hmem, hrest⟩
  · intro hgiven
    obtain ⟨child, hchild, path, d, hmem, hkeys⟩ := hgiven
    obtain ⟨tree, htree, hkey, rfl⟩ := (child?_eq_some_iff h).mp hchild
    refine ⟨tree.1.segment :: path, d, (mem_declared_below h htree).mpr hmem, ?_⟩
    exact List.cons_prefix_cons.mpr ⟨hkey, hkeys⟩

/-- Every child has a declaration at it or below it. -/
theorem reaches_nil_of_child? (h : node.Canonical) (hchild : node.child? name = some child) :
    child.Reaches [] := by
  obtain ⟨tree, htree, _, rfl⟩ := (child?_eq_some_iff h).mp hchild
  exact reaches_nil.mpr (h.grounded.exists_mem_tree htree)

/-! ## Walks -/

/-- **A walk whose names all lead on reaches its node**, which holds the declarations that go on from there:
those whose keys start with the keys of the names.  At each step the walk takes the tree of such a
declaration, for a key tells a sibling. -/
theorem descend_of_reaches (h : node.Canonical) (hreach : node.Reaches names) :
    ∃ found path, node.descend resolved names = .ok found ∧ found.path = node.path ++ path ∧
      pathKeys path = names.map key? ∧ found.Canonical ∧
      (∀ rest d, (rest, d) ∈ found.declared → (path ++ rest, d) ∈ node.declared) ∧
      ∀ full d, (full, d) ∈ node.declared → names.map key? <+: pathKeys full →
        ∃ rest, full = path ++ rest ∧ (rest, d) ∈ found.declared := by
  induction names generalizing node resolved with
  | nil =>
      exact ⟨node, [], rfl, by simp, rfl, h, fun _ _ hmem => hmem,
        fun full d hmem _ => ⟨full, rfl, hmem⟩⟩
  | cons name names ih =>
      obtain ⟨child, hchild, hnames⟩ := (reaches_cons_iff h).mp hreach
      obtain ⟨tree, htree, hkey, rfl⟩ := (child?_eq_some_iff h).mp hchild
      obtain ⟨found, path, hwalk, hpath, hkeys, hfound, hfrom, hinto⟩ :=
        @ih (Node.below node.path tree.1 tree.2) (resolved ++ [name]) (h.below htree node.path) hnames
      refine ⟨found, tree.1.segment :: path, ?_, ?_, ?_, hfound, ?_, ?_⟩
      · rw [descend, hchild]
        exact hwalk
      · simpa [Node.below, List.append_assoc] using hpath
      · rw [List.map_cons, hkey, ← hkeys]
        rfl
      · intro rest d hmem
        exact (mem_declared_below h htree).mpr (hfrom rest d hmem)
      · intro full d hmem hprefix
        cases full with
        | nil => simp [pathKeys] at hprefix
        | cons segment full =>
            obtain ⟨hsame, hrest⟩ := List.cons_prefix_cons.mp hprefix
            obtain ⟨other, hother, rfl⟩ := exists_tree_of_mem_declared hmem
            have hkeys' : other.1.key = tree.1.key :=
              (Option.some.inj (hkey.symm.trans hsame)).symm
            obtain rfl := eq_of_key_eq h.ordered hother htree hkeys'
            obtain ⟨rest, rfl, hdeclared⟩ :=
              hinto full d ((mem_declared_below h hother).mp hmem) hrest
            exact ⟨rest, rfl, hdeclared⟩

/-- **A walk misses at the first name that leads nowhere.** -/
theorem descend_of_not_reaches (h : node.Canonical) {before after : List String}
    (hbefore : ∀ front, front ≠ [] → front <+: before → node.Reaches front)
    (hmiss : ¬ node.Reaches (before ++ [name])) :
    node.descend resolved (before ++ name :: after) =
      .error ⟨name, joinDots (resolved ++ before)⟩ := by
  induction before generalizing node resolved with
  | nil =>
      have hnone : node.child? name = none := by
        cases hchild : node.child? name with
        | none => rfl
        | some child =>
            exact absurd ((reaches_cons_iff h).mpr
              ⟨child, hchild, reaches_nil_of_child? h hchild⟩) hmiss
      rw [List.nil_append, descend, hnone, List.append_nil]
  | cons first before ih =>
      obtain ⟨child, hchild, _⟩ := (reaches_cons_iff h).mp
        (hbefore [first] (by simp) (List.prefix_append [first] before))
      obtain ⟨tree, htree, _, rfl⟩ := (child?_eq_some_iff h).mp hchild
      have hstep : ∀ {rest}, node.Reaches (first :: rest) ↔
          (Node.below node.path tree.1 tree.2).Reaches rest := by
        intro rest
        simp [reaches_cons_iff h, hchild]
      rw [List.cons_append, descend, hchild]
      refine (ih (h.below htree node.path) (fun front hne hprefix => ?_) ?_).trans ?_
      · exact hstep.mp (hbefore (first :: front) (by simp) (List.cons_prefix_cons.mpr ⟨rfl, hprefix⟩))
      · exact fun hreach => hmiss (hstep.mpr hreach)
      · simp

end Node

/-- Names that do not lead to the end stop leading on at some first name. -/
theorem exists_first_miss {p : List String → Prop} {names : List String} (hne : names ≠ [])
    (h : ¬ p names) :
    ∃ before name after, names = before ++ name :: after ∧ ¬ p (before ++ [name]) ∧
      ∀ front, front ≠ [] → front <+: before → p front := by
  induction names generalizing p with
  | nil => exact absurd rfl hne
  | cons first rest ih =>
      by_cases hfirst : p [first]
      · have hrest : rest ≠ [] := by
          intro heq
          subst heq
          exact h hfirst
        obtain ⟨before, name, after, rfl, hmiss, hbefore⟩ := @ih (fun names => p (first :: names)) hrest h
        refine ⟨first :: before, name, after, rfl, hmiss, fun front hfront hprefix => ?_⟩
        cases front with
        | nil => exact absurd rfl hfront
        | cons x front =>
            obtain ⟨rfl, hrest'⟩ := List.cons_prefix_cons.mp hprefix
            by_cases hnil : front = []
            · exact hnil ▸ hfirst
            · exact hbefore front hnil hrest'
      · refine ⟨[], first, rest, rfl, hfirst, fun front hfront hprefix => ?_⟩
        exact absurd (List.prefix_nil.mp hprefix) hfront

/-! ## The root -/

namespace Tree.Represents

variable {tree : Tree} {declarations : List Declaration} {path : List Segment} {d : Declaration}

/-- The root of a tree of declarations is canonical. -/
theorem canonical_root (h : tree.Represents declarations) : tree.root.Canonical :=
  ⟨h.ordered, h.grounded⟩

/-- A tree holds each declaration at the path of its name. -/
theorem mem_declared (h : tree.Represents declarations) :
    (path, d) ∈ Namespace.declared tree.forest ↔ d ∈ declarations ∧ path = segmentsOf d.name := by
  rw [h.declared.mem_iff]
  simp only [List.mem_map, located, Prod.mk.injEq]
  constructor
  · intro hgiven
    obtain ⟨e, he, rfl, rfl⟩ := hgiven
    exact ⟨he, rfl⟩
  · intro hgiven
    obtain ⟨hd, rfl⟩ := hgiven
    exact ⟨d, hd, rfl, rfl⟩

/-- From the root every declaration is found at the path of its segments. -/
theorem mem_declared_root (h : tree.Represents declarations) :
    (path, d) ∈ tree.root.declared ↔ d ∈ declarations ∧ path = segmentsOf d.name := by
  rw [← h.mem_declared, Node.declared, mem_declaredFrom]
  simp [Tree.root]

end Tree.Represents

end AliasCatalog.Namespace
