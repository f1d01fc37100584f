import AliasCatalog.Plan.Basic
import AliasCatalog.Proofs.Namespace.Mirror

/-!
# What a plan exposes

A plan is walked from the root of a kind down through its groups; every accessor of a declaration that
is met is collected, together with the getters that lead to it.  The walk splits the members of each
group into leaves and nested groups and meets an ambiguous node as the self accessor of its group, and
still it collects exactly what a listing of the nodes holds (`exposedBelow_perm`).
-/

namespace AliasCatalog

open Accessor Namespace Naming

/-- An accessor of a declaration, with the getters that lead to it from the root of its kind. -/
structure Exposed where
  chain : List String
  /-- The alias of the declaration. -/
  name : String
  docs : List String
  deriving DecidableEq, Repr

namespace Plan

/-! ## The walk -/

/-- The accessors of declarations in a group, which is itself reached by a chain of getters: its own
declaration's and those of its leaves. -/
def ownExposed (chain : List String) (group : GroupPlan) : List Exposed :=
  (group.provider.toList ++ group.leaves).map fun leaf =>
    ⟨chain ++ [leaf.method], leaf.name, leaf.docs⟩

/-- The accessors of declarations in nested groups and below. -/
def nestedExposed (chain : List String) : Forest GroupPlan → List Exposed
  | .nil => []
  | .cons group inner beside =>
      let inside := chain ++ group.method.toList
      ownExposed inside group ++ nestedExposed inside inner ++ nestedExposed chain beside

/-- All accessors of declarations that a kind's plan has. -/
def exposed (plan : KindPlan) : List Exposed :=
  ownExposed [] plan.root ++ nestedExposed [] plan.groups

/-! ## The walk and the nodes -/

/-- The getters along a path. -/
def getters (path : List Segment) : List String :=
  path.map (·.identifier.method)

/-- The accessor of a node's declaration: a node with children shows it as a self accessor. -/
def exposedAt (footer : String) (node : Node) : Exposed where
  chain := getters node.path ++ if node.children.isEmpty then [] else [providerMethod]
  name := node.name
  docs := (describeNode? node).toList ++ [footer]

variable {surface : Surface} {footer : String} {path : List Segment}

/-- The getter of a node is that of its own segment. -/
theorem method_below (path : List Segment) (entry : Entry) (children : Forest Entry) :
    method (.below path entry children) = entry.segment.identifier.method := by
  simp [method, Node.identifier?, Node.identifiers, Node.below]

/-- The getters of a node are those of its parent, followed by the node's own. -/
theorem getters_below (path : List Segment) (entry : Entry) (children : Forest Entry) :
    getters (Node.below path entry children).path =
      getters path ++ [entry.segment.identifier.method] := by
  simp [getters, Node.below]

/-- The trees of a forest below a path, as nodes. -/
def firsts (path : List Segment) (forest : Forest Entry) : List Node :=
  forest.trees.map fun (entry, children) => .below path entry children

/-- The accessors of the leaves among the trees of a forest. -/
def leavesExposed (footer : String) (path : List Segment) (forest : Forest Entry) : List Exposed :=
  ((firsts path forest).filter (·.shape == .leaf)).map (exposedAt footer)

/-- The accessors of those of some nodes that hold a declaration. -/
def declaredExposed (footer : String) (nodes : List Node) : List Exposed :=
  (nodes.filter (·.leaf.isSome)).map (exposedAt footer)

/-- Nodes are collected part by part. -/
theorem declaredExposed_append (nodes others : List Node) :
    declaredExposed footer (nodes ++ others) =
      declaredExposed footer nodes ++ declaredExposed footer others := by
  simp [declaredExposed]

/-- The leaves of a group are reached by one more getter than the group. -/
theorem map_leaves (node : Node) (method : Option String) :
    ((group surface footer method node).leaves.map fun leaf =>
      (⟨getters node.path ++ [leaf.method], leaf.name, leaf.docs⟩ : Exposed)) =
        leavesExposed footer node.path node.children := by
  simp only [group, leavesExposed, firsts, Node.members, List.map_map]
  apply List.map_congr_left
  intro member hmember
  obtain ⟨hmem, hshape⟩ := List.mem_filter.mp hmember
  obtain ⟨⟨entry, children⟩, _, rfl⟩ := List.mem_map.mp hmem
  obtain rfl : children = .nil :=
    Classical.not_not.mp (Node.shape_eq_leaf_iff.mp (by simpa using hshape)).2
  simp only [Function.comp_apply, leaf, exposedAt, method_below, getters_below]
  simp [Node.below, Forest.isEmpty]

/-- The declaration of a group is reached by its self accessor. -/
theorem map_provider {node : Node} (hshape : node.shape ≠ .leaf) (method : Option String) :
    ((group surface footer method node).provider.toList.map fun leaf =>
      (⟨getters node.path ++ [leaf.method], leaf.name, leaf.docs⟩ : Exposed)) =
        declaredExposed footer [node] := by
  cases hleaf : node.leaf with
  | none => simp [group, declaredExposed, hleaf]
  | some d =>
      have hchildren : node.children.isEmpty = false := by
        cases hempty : node.children.isEmpty with
        | false => rfl
        | true => simp [Node.shape, hleaf, hempty] at hshape
      simp [group, declaredExposed, exposedAt, leaf, hleaf, hchildren]

/-- A group exposes its own declaration and those of its leaves. -/
theorem ownExposed_group {node : Node} (hshape : node.shape ≠ .leaf) (method : Option String) :
    ownExposed (getters node.path) (group surface footer method node) =
      declaredExposed footer [node] ++ leavesExposed footer node.path node.children := by
  rw [ownExposed, List.map_append, map_leaves, map_provider hshape]

/-- A leaf is no group. -/
theorem groups_cons_of_leaf {entry : Entry} {children siblings : Forest Entry}
    (hshape : (Node.below path entry children).shape = .leaf) :
    groups surface footer path (.cons entry children siblings) =
      groups surface footer path siblings := by
  simp [groups, hshape]

/-- A tree that is no leaf is a group with the groups below it nested in it. -/
theorem groups_cons_of_group {entry : Entry} {children siblings : Forest Entry}
    (hshape : (Node.below path entry children).shape ≠ .leaf) :
    groups surface footer path (.cons entry children siblings) =
      .cons (group surface footer (some (method (.below path entry children)))
          (.below path entry children))
        (groups surface footer (path ++ [entry.segment]) children)
        (groups surface footer path siblings) := by
  simp [groups, hshape]

/-- The walk enters a nested group by one more getter. -/
theorem nestedExposed_cons {entry : Entry} {children siblings : Forest Entry}
    (hshape : (Node.below path entry children).shape ≠ .leaf) :
    nestedExposed (getters path) (groups surface footer path (.cons entry children siblings)) =
      declaredExposed footer [.below path entry children] ++
        (leavesExposed footer (path ++ [entry.segment]) children ++
          nestedExposed (getters (path ++ [entry.segment]))
            (groups surface footer (path ++ [entry.segment]) children)) ++
        nestedExposed (getters path) (groups surface footer path siblings) := by
  have hchain : getters path ++ [method (.below path entry children)] =
      getters (path ++ [entry.segment]) := by
    rw [method_below, ← getters_below path entry children]
    rfl
  have hown := @ownExposed_group surface footer _ hshape
    (some (method (.below path entry children)))
  have hmethod : (group surface footer (some (method (.below path entry children)))
      (.below path entry children)).method.toList = [method (.below path entry children)] := rfl
  rw [groups_cons_of_group hshape, nestedExposed, hmethod, hchain, List.append_assoc,
    List.append_assoc, List.append_assoc, ← List.append_assoc (declaredExposed _ _)]
  exact congrArg (· ++ _) hown

/-- **The walk collects what the nodes hold.**  The leaves of a level and all that is nested in its groups
are the accessors of the nodes with a declaration, each once: a leaf is exposed on its level and has nothing
below it, and a group is exposed by what it holds itself and by what is nested in it. -/
theorem exposedBelow_perm (path : List Segment) (forest : Forest Entry) :
    (leavesExposed footer path forest ++
      nestedExposed (getters path) (groups surface footer path forest)).Perm
        (declaredExposed footer (preorder path forest)) := by
  induction forest generalizing path with
  | nil => exact .refl _
  | cons entry children siblings below beside =>
      have hbelow := below (path ++ [entry.segment])
      have hbeside := beside path
      have hlisted : declaredExposed footer (preorder path (.cons entry children siblings)) =
          declaredExposed footer [.below path entry children] ++
            (declaredExposed footer (preorder (path ++ [entry.segment]) children) ++
              declaredExposed footer (preorder path siblings)) := by
        rw [← declaredExposed_append, ← declaredExposed_append]
        rfl
      rw [hlisted]
      by_cases hshape : (Node.below path entry children).shape = .leaf
      · obtain ⟨⟨d, hleaf⟩, hnil⟩ := Node.shape_eq_leaf_iff.mp hshape
        obtain rfl : children = .nil := Classical.not_not.mp hnil
        have hlevel : leavesExposed footer path (.cons entry .nil siblings) =
            declaredExposed footer [.below path entry .nil] ++ leavesExposed footer path siblings := by
          simp [leavesExposed, declaredExposed, firsts, Forest.trees, hshape, hleaf]
        rw [hlevel, groups_cons_of_leaf hshape, List.append_assoc]
        exact hbeside.append_left _
      · have hlevel : leavesExposed footer path (.cons entry children siblings) =
            leavesExposed footer path siblings := by
          simp [leavesExposed, firsts, Forest.trees, hshape]
        rw [hlevel, nestedExposed_cons hshape]
        refine (List.perm_append_comm_assoc _ _ _).trans ?_
        rw [List.append_assoc]
        exact (hbelow.append hbeside).append_left _

/-- A plan exposes the declarations that the nodes of its tree hold, each once. -/
theorem exposed_perm (surface : Surface) (source : String) :
    (exposed (kind surface source)).Perm
      (declaredExposed (Plan.footer surface.kind source) surface.tree.nodes) := by
  have hroot : surface.tree.root.shape ≠ .leaf := by simp [Node.shape, Tree.root]
  have hown : ownExposed [] (kind surface source).root = _ := ownExposed_group hroot none
  have hbelow := @exposedBelow_perm surface (Plan.footer surface.kind source) [] surface.tree.forest
  have hnodes : surface.tree.nodes = [surface.tree.root] ++ preorder [] surface.tree.forest := rfl
  rw [exposed, hown, hnodes, declaredExposed_append, List.append_assoc]
  exact hbelow.append_left _

/-! ## The groups -/

/-- Every nested group comes from a node that is no leaf, and is nested as the node is. -/
theorem subtrees_groups (path : List Segment) (forest : Forest Entry) :
    (groups surface footer path forest).subtrees =
      ((preorder path forest).filter (·.shape != .leaf)).map fun node =>
        (group surface footer (some (method node)) node,
          groups surface footer node.path node.children) := by
  induction forest generalizing path with
  | nil => rfl
  | cons entry children siblings below beside =>
      by_cases hshape : (Node.below path entry children).shape = .leaf
      · obtain rfl : children = .nil :=
          Classical.not_not.mp (Node.shape_eq_leaf_iff.mp hshape).2
        rw [groups_cons_of_leaf hshape, beside]
        simp [preorder, hshape]
      · rw [groups_cons_of_group hshape, Forest.subtrees, below, beside, preorder,
          List.filter_cons_of_pos (by simpa using hshape), List.map_cons, List.filter_append,
          List.map_append]
        rfl

/-- The groups nested in a level come from those of its nodes that are no leaves. -/
theorem roots_groups (path : List Segment) (forest : Forest Entry) :
    (groups surface footer path forest).roots =
      ((firsts path forest).filter (·.shape != .leaf)).map fun node =>
        group surface footer (some (method node)) node := by
  induction forest with
  | nil => rfl
  | cons entry children siblings _ beside =>
      by_cases hshape : (Node.below path entry children).shape = .leaf
      · rw [groups_cons_of_leaf hshape, beside]
        simp [firsts, Forest.trees, hshape]
      · rw [groups_cons_of_group hshape, Forest.roots, beside]
        simp [firsts, Forest.trees, hshape]

end Plan

end AliasCatalog
