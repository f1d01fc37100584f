import AliasCatalog.Proofs.Catalog.Stages
import AliasCatalog.Proofs.Plan.Exposure

/-!
# A plan presents its declarations

The plan of a kind can be read off the declared names, as its tree can.  It exposes every declaration
once and nothing else; its groups are the proper fronts of the names; and within a group leaves and
nested groups stand in the order of their keys (`plan_presents`).
-/

namespace AliasCatalog

open Accessor Namespace Naming

/-- The getter of a part of an alias; a part without an identifier has none. -/
def getter? (part : String) : Option String :=
  (normalize part).map Identifier.method

/-- The parts of the path of a group; the root has none. -/
def partsOf (path : String) : List String :=
  if path.isEmpty then [] else splitDots path

/-- The last parts of the names have keys, and these stand in strict order. -/
def LastKeyBefore (name other : String) : Prop :=
  ∃ i j, key? (lastPart name) = some i ∧ key? (lastPart other) = some j ∧ i < j

/-- What the accessor of a declaration has to be: it is reached by the getters of the parts of the
alias, and then by the self accessor when another alias goes on from this one; it is described as the
declaration is. -/
structure Exposes (declarations : List Declaration) (footer : String) (d : Declaration)
    (accessor : Exposed) : Prop where
  name_eq : accessor.name = d.name
  docs_eq : accessor.docs = [describe d.name d.payload, footer]
  chain_of_not_continues : ¬ Continues declarations (splitDots d.name) →
    accessor.chain.map some = (splitDots d.name).map getter?
  chain_of_continues : Continues declarations (splitDots d.name) →
    accessor.chain.map some = (splitDots d.name).map getter? ++ [some providerMethod]

/-- The groups of a plan, the root's first, each with the groups nested in it. -/
def Plan.tables (plan : KindPlan) : List (GroupPlan × Forest GroupPlan) :=
  (plan.root, plan.groups) :: plan.groups.subtrees

/-- **A plan presents declarations** when what it exposes is what can be read off the declared
names. -/
structure Plan.Presents (plan : KindPlan) (declarations : List Declaration) (footer : String) :
    Prop where
  /-- There is one accessor for each declaration. -/
  exposed_perm : ∃ accessor : Declaration → Exposed,
    (Plan.exposed plan).Perm (declarations.map accessor) ∧
      ∀ d ∈ declarations, Exposes declarations footer d (accessor d)
  names_nodup : ((Plan.exposed plan).map (·.name)).Nodup
  root_path : plan.root.path = ""
  root_provider : plan.root.provider = none
  /-- No two groups have one path. -/
  paths_nodup : ((Plan.tables plan).map (·.1.path)).Nodup
  /-- The paths of the nested groups are the proper fronts of the declared names. -/
  mem_paths : ∀ path, path ∈ plan.groups.toList.map (·.path) ↔
    ∃ d ∈ declarations, path ∈ fronts d.name ∧ path ≠ d.name
  /-- A group has a self accessor when its path is declared, and that is the accessor of its path. -/
  provider_iff : ∀ table ∈ Plan.tables plan,
    table.1.provider.isSome ↔ ∃ d ∈ declarations, d.name = table.1.path
  provider_name : ∀ table ∈ Plan.tables plan, ∀ leaf, table.1.provider = some leaf →
    leaf.name = table.1.path ∧ leaf.method = providerMethod
  /-- The leaves of a group have one part more than the group, and so have the groups in it. -/
  leaves_within : ∀ table ∈ Plan.tables plan, ∀ leaf ∈ table.1.leaves,
    ∃ part, splitDots leaf.name = partsOf table.1.path ++ [part]
  groups_within : ∀ table ∈ Plan.tables plan, ∀ nested ∈ table.2.roots,
    ∃ part, splitDots nested.path = partsOf table.1.path ++ [part]
  /-- Both stand in the strict order of the keys of their last parts. -/
  leaves_sorted : ∀ table ∈ Plan.tables plan,
    table.1.leaves.Pairwise fun a b => LastKeyBefore a.name b.name
  groups_sorted : ∀ table ∈ Plan.tables plan,
    table.2.roots.Pairwise fun a b => LastKeyBefore a.path b.path

/-! ## Nodes and the parts of their names -/

namespace Namespace.Node

variable {node : Node}

/-- The parts of the name of a node are its parts, also at the root. -/
theorem partsOf_name (node : Node) : partsOf node.name = node.parts := by
  by_cases hpath : node.path = []
  · simp [partsOf, name_eq_empty hpath, parts, hpath]
  · have hne : node.name ≠ "" := joinDots_ne_empty hpath
    rw [partsOf, if_neg (by simpa using hne), splitDots_name hpath]

/-- The last part of a name has the key of the node's own identifier. -/
theorem key?_lastPart {identifier : Identifier} (h : node.identifier? = some identifier) :
    key? (lastPart node.name) = some identifier.key := by
  obtain ⟨path, segment, hpath⟩ : ∃ path segment, node.path = path ++ [segment] := by
    rcases List.eq_nil_or_concat node.path with hnil | ⟨path, segment, hconcat⟩
    · simp [identifier?, identifiers, hnil] at h
    · exact ⟨path, segment, by rw [hconcat, List.concat_eq_append]⟩
  have hown : segment.identifier = identifier := by simpa [identifier?, identifiers, hpath] using h
  rw [lastPart_name hpath, Segment.key?_text, Segment.key, hown]

/-- The getters along a path are those of its parts. -/
theorem map_some_getters (node : Node) :
    (Plan.getters node.path).map some = node.parts.map getter? := by
  simp [Plan.getters, parts, getter?]

end Namespace.Node

/-! ## Groups and nodes -/

namespace Plan

variable {tree : Tree} {declarations : List Declaration} {rootType source : String}

/-- Every group of a plan is that of a node, with what the node has for children nested in it. -/
theorem exists_node_of_mem_tables {surface : Surface} {table : GroupPlan × Forest GroupPlan}
    (h : table ∈ tables (kind surface source)) :
    ∃ node ∈ surface.tree.nodes, ∃ method,
      table = (group surface (Plan.footer surface.kind source) method node,
        groups surface (Plan.footer surface.kind source) node.path node.children) := by
  rcases List.mem_cons.mp h with rfl | hbelow
  · exact ⟨surface.tree.root, List.mem_cons_self, none, rfl⟩
  · have hsubtrees : (kind surface source).groups.subtrees = _ := subtrees_groups _ _
    rw [hsubtrees] at hbelow
    obtain ⟨node, hnode, rfl⟩ := List.mem_map.mp hbelow
    exact ⟨node, List.mem_cons_of_mem _ (List.mem_filter.mp hnode).1, _, rfl⟩

section Group

variable {surface : Surface} {footer : String} {method : Option String} {node : Node}

/-- The leaves of a group are named after those members of its node that are leaves. -/
theorem map_name_leaves :
    (group surface footer method node).leaves.map (·.name) =
      (node.members.filter (·.shape == .leaf)).map (·.name) := by
  rw [group, List.map_map]
  rfl

/-- The groups nested in a group have the names of the other members of its node. -/
theorem map_path_roots_groups :
    (groups surface footer node.path node.children).roots.map (·.path) =
      (node.members.filter (·.shape != .leaf)).map (·.name) := by
  rw [roots_groups, List.map_map]
  rfl

variable (h : tree.Represents declarations) (hnode : node ∈ tree.nodes)
include h hnode

/-- The name of a member has one part more. -/
theorem splitDots_name_of_mem_members {child : Node} (hchild : child ∈ node.members) :
    ∃ part, splitDots child.name = partsOf node.name ++ [part] := by
  obtain ⟨_, segment, hpath⟩ := (h.mem_members_iff hnode).mp hchild
  refine ⟨segment.text, ?_⟩
  rw [Node.splitDots_name (by simp [hpath]), Node.partsOf_name, Node.parts, Node.parts, hpath,
    List.map_append]
  rfl

/-- The names of some members of a node stand in the order of the keys of their last parts. -/
theorem pairwise_map_name_filter (p : Node → Bool) :
    ((node.members.filter p).map (·.name)).Pairwise LastKeyBefore := by
  refine List.pairwise_map.mpr (((h.pairwise_members hnode).filter p).imp fun hlt => ?_)
  obtain ⟨i, j, hi, hj, hkey⟩ := hlt
  exact ⟨i.key, j.key, Node.key?_lastPart hi, Node.key?_lastPart hj, hkey⟩

end Group

end Plan

/-! ## Declarations and their accessors -/

namespace Namespace.Tree.Represents

variable {tree : Tree} {declarations : List Declaration}

/-- The accessor of a declaration is that of the node at its path. -/
def accessorOf (tree : Tree) (footer : String) (d : Declaration) : Exposed :=
  Plan.exposedAt footer ((tree.node? (segmentsOf d.name)).getD tree.root)

/-- The accessor of a node's declaration is that of the node. -/
theorem accessorOf_eq (h : tree.Represents declarations) {node : Node} (hnode : node ∈ tree.nodes)
    {d : Declaration} (hleaf : node.leaf = some d) (footer : String) :
    accessorOf tree footer d = Plan.exposedAt footer node := by
  obtain ⟨_, hpath⟩ := (h.leaf_iff hnode).mp hleaf
  rw [accessorOf, hpath, h.node?_path hnode]
  rfl

/-- What the nodes hold are the accessors of the declarations. -/
theorem declaredExposed_perm (h : tree.Represents declarations) (footer : String) :
    (Plan.declaredExposed footer tree.nodes).Perm (declarations.map (accessorOf tree footer)) := by
  have hlist : ∀ nodes : List Node, (∀ node ∈ nodes, node ∈ tree.nodes) →
      Plan.declaredExposed footer nodes =
        (nodes.filterMap (·.leaf)).map (accessorOf tree footer) := by
    intro nodes
    induction nodes with
    | nil => intro _; rfl
    | cons node rest ih =>
        intro hall
        obtain ⟨hnode, hrest⟩ := List.forall_mem_cons.mp hall
        rw [← List.singleton_append, Plan.declaredExposed_append, ih hrest]
        cases hleaf : node.leaf with
        | none => simp [Plan.declaredExposed, hleaf]
        | some d => simp [Plan.declaredExposed, hleaf, h.accessorOf_eq hnode hleaf]
  rw [hlist tree.nodes fun _ hnode => hnode, filterMap_leaf_nodes]
  exact h.perm_declarations.map _

/-- The accessor of a declaration exposes it as the declared names say. -/
theorem exposes_accessorOf (h : tree.Represents declarations)
    (haccepted : ∀ d ∈ declarations, Accepted d.name) (footer : String) {d : Declaration}
    (hd : d ∈ declarations) : Exposes declarations footer d (accessorOf tree footer d) := by
  obtain ⟨node, hnode, hpath⟩ := @exists_node _ _ h d hd (segmentsOf d.name) [] (by simp)
  have hleaf := (h.leaf_iff hnode).mpr ⟨hd, hpath.symm⟩
  have hparts : splitDots d.name = node.parts := by
    rw [Node.parts, hpath, (haccepted d hd).texts_segmentsOf]
  have hcontinues := h.continues_iff haccepted hnode
  have hgetters := Node.map_some_getters node
  rw [h.accessorOf_eq hnode hleaf]
  refine ⟨?_, ?_, fun hnone => ?_, fun hsome => ?_⟩
  · exact ((Node.name_eq_iff (haccepted d hd)).mpr hpath.symm).symm
  · simp [Plan.exposedAt, describeNode?, hleaf]
  · rw [hparts, hcontinues, Classical.not_not] at hnone
    rw [hparts, ← hgetters]
    simp [Plan.exposedAt, hnone, Forest.isEmpty]
  · rw [hparts, hcontinues] at hsome
    rw [hparts, ← hgetters]
    simp [Plan.exposedAt, Forest.isEmpty_eq_false_iff.mpr hsome]

/-- The nodes that are neither the root nor leaves have the proper fronts of the declared names. -/
theorem mem_names_groups (h : tree.Represents declarations)
    (haccepted : ∀ d ∈ declarations, Accepted d.name) {name : String} :
    name ∈ ((preorder [] tree.forest).filter (·.shape != .leaf)).map (·.name) ↔
      ∃ d ∈ declarations, name ∈ fronts d.name ∧ name ≠ d.name := by
  rw [List.mem_map]
  constructor
  · intro hgiven
    obtain ⟨node, hfilter, rfl⟩ := hgiven
    obtain ⟨hlisted, hshape⟩ := List.mem_filter.mp hfilter
    have hnode : node ∈ tree.nodes := List.mem_cons_of_mem _ hlisted
    have hpath : node.path ≠ [] := by
      obtain ⟨_, _, _, hstart⟩ := exists_root_of_mem_preorder hlisted
      simp [hstart]
    have hchildren := h.children_ne_nil_of_shape hnode hpath (by simpa using hshape)
    obtain ⟨d, hd, rest, hrest, hsplit⟩ := (h.children_ne_nil_iff hnode).mp hchildren
    refine ⟨d, hd, (mem_fronts_iff (haccepted d hd)).mpr ⟨_, rest, hpath, hsplit, rfl⟩, ?_⟩
    intro heq
    have hsame := (Node.name_eq_iff (haccepted d hd)).mp heq.symm
    exact hrest (List.self_eq_append_right.mp (hsame.symm.trans hsplit))
  · intro hgiven
    obtain ⟨d, hd, hfront, hne⟩ := hgiven
    obtain ⟨way, rest, hway, hsplit, rfl⟩ := (mem_fronts_iff (haccepted d hd)).mp hfront
    obtain ⟨node, hnode, rfl⟩ := h.exists_node hd hsplit
    have hrest : rest ≠ [] := by
      rintro rfl
      rw [List.append_nil] at hsplit
      exact hne ((Node.name_eq_iff (haccepted d hd)).mpr hsplit).symm
    have hchildren := (h.children_ne_nil_iff hnode).mpr ⟨d, hd, rest, hrest, hsplit⟩
    have hshape : node.shape ≠ .leaf := fun hleaf => (Node.shape_eq_leaf_iff.mp hleaf).2 hchildren
    rcases List.mem_cons.mp hnode with rfl | hlisted
    · exact absurd rfl hway
    · exact ⟨node, List.mem_filter.mpr ⟨hlisted, by simpa using hshape⟩, rfl⟩

end Namespace.Tree.Represents

/-! ## The plan of a kind -/

namespace Plan

variable {surface : Surface} {declarations : List Declaration} {source : String}

/-- The nested groups have the names of the nodes that are no leaves. -/
theorem map_path_subtrees :
    (kind surface source).groups.subtrees.map (·.1.path) =
      ((preorder [] surface.tree.forest).filter (·.shape != .leaf)).map (·.name) := by
  have hsubtrees : (kind surface source).groups.subtrees = _ := subtrees_groups _ _
  rw [hsubtrees, List.map_map]
  rfl

/-- **The plan of a surface presents the declarations of its tree.** -/
theorem presents (h : surface.tree.Represents declarations)
    (haccepted : ∀ d ∈ declarations, Accepted d.name) (hnames : (declarations.map (·.name)).Nodup) :
    Presents (kind surface source) declarations (footer surface.kind source) where
  exposed_perm :=
    ⟨Tree.Represents.accessorOf surface.tree (footer surface.kind source),
      (Plan.exposed_perm surface source).trans (h.declaredExposed_perm _),
      fun _ hd => h.exposes_accessorOf haccepted _ hd⟩
  names_nodup := by
    have hperm := (Plan.exposed_perm surface source).trans (h.declaredExposed_perm _)
    have hsame : declarations.map
        ((·.name) ∘ Tree.Represents.accessorOf surface.tree (footer surface.kind source)) =
          declarations.map (·.name) :=
      List.map_congr_left fun d hd => (h.exposes_accessorOf haccepted _ hd).name_eq
    rw [(hperm.map _).nodup_iff, List.map_map, hsame]
    exact hnames
  root_path := rfl
  root_provider := rfl
  paths_nodup := by
    have hsublist : (((preorder [] surface.tree.forest).filter (·.shape != .leaf)).map
        (·.name)).Sublist ((preorder [] surface.tree.forest).map (·.name)) :=
      List.filter_sublist.map _
    rw [tables, List.map_cons, map_path_subtrees]
    exact (hsublist.cons_cons surface.tree.root.name).nodup h.nodup_names
  mem_paths path := by
    rw [← Forest.map_fst_subtrees, List.map_map, ← h.mem_names_groups haccepted]
    exact iff_of_eq (congrArg (path ∈ ·) map_path_subtrees)
  provider_iff table htable := by
    obtain ⟨node, hnode, method, rfl⟩ := exists_node_of_mem_tables htable
    have hsome : (group surface (footer surface.kind source) method node).provider.isSome ↔
        ∃ d, node.leaf = some d := by
      cases hleaf : node.leaf <;> simp [group, hleaf]
    refine hsome.trans (exists_congr fun d => (h.leaf_iff hnode).trans ?_)
    exact and_congr_right fun hd => (Node.name_eq_iff (haccepted d hd)).symm
  provider_name table htable leaf hleaf := by
    obtain ⟨node, _, method, rfl⟩ := exists_node_of_mem_tables htable
    obtain ⟨_, heq⟩ := Option.ite_none_right_eq_some.mp hleaf
    cases heq
    exact ⟨rfl, rfl⟩
  leaves_within table htable leaf hleaf := by
    obtain ⟨node, hnode, method, rfl⟩ := exists_node_of_mem_tables htable
    have hmem := List.mem_map_of_mem (f := (·.name)) hleaf
    rw [map_name_leaves] at hmem
    obtain ⟨child, hchild, heq⟩ := List.mem_map.mp hmem
    exact heq ▸ splitDots_name_of_mem_members h hnode (List.mem_filter.mp hchild).1
  groups_within table htable nested hnested := by
    obtain ⟨node, hnode, method, rfl⟩ := exists_node_of_mem_tables htable
    have hmem := List.mem_map_of_mem (f := (·.path)) hnested
    rw [map_path_roots_groups] at hmem
    obtain ⟨child, hchild, heq⟩ := List.mem_map.mp hmem
    exact heq ▸ splitDots_name_of_mem_members h hnode (List.mem_filter.mp hchild).1
  leaves_sorted table htable := by
    obtain ⟨node, hnode, method, rfl⟩ := exists_node_of_mem_tables htable
    have hsorted := pairwise_map_name_filter h hnode (·.shape == .leaf)
    rw [← map_name_leaves, List.pairwise_map] at hsorted
    exact hsorted
  groups_sorted table htable := by
    obtain ⟨node, hnode, method, rfl⟩ := exists_node_of_mem_tables htable
    have hsorted := pairwise_map_name_filter h hnode (·.shape != .leaf)
    rw [← map_path_roots_groups, List.pairwise_map] at hsorted
    exact hsorted

end Plan

/-! ## The plan of a catalog -/

namespace Catalog

variable {options : Options} {declarations : List Declaration} {catalog : Catalog}

/-- A plan has one part for each kind, that of the kind's surface. -/
theorem filter_kinds_of_build (h : build options declarations = .ok catalog) (kind : Kind) :
    catalog.plan.kinds.filter (·.kind == kind) =
      [Plan.kind (catalog.surface kind) catalog.options.source] := by
  have heach : ∀ other, (Plan.kind (catalog.surface other) catalog.options.source).kind = other :=
    fun other => (represents_of_build h other).1
  have hone : Kind.all.filter (· == kind) = [kind] := by cases kind <;> rfl
  simp only [Catalog.plan, List.filter_map, Function.comp_def, heach, hone]
  rfl

/-- The part of a kind presents the declarations of the kind. -/
theorem presents_of_build (h : build options declarations = .ok catalog) (kind : Kind) :
    Plan.Presents (Plan.kind (catalog.surface kind) catalog.options.source)
      (ofKind kind declarations) (Plan.footer kind options.source) := by
  have hadmissible := admissible_of_build h kind
  obtain ⟨hkind, hrepresents⟩ := represents_of_build h kind
  obtain ⟨_, _, hoptions, _⟩ := surface_of_build h
  have hpresents := @Plan.presents (catalog.surface kind) _ catalog.options.source hrepresents
    hadmissible.accepted hadmissible.nodup
  rw [show (catalog.surface kind).kind = kind from hkind, hoptions] at hpresents
  rw [hoptions]
  exact hpresents

/-- **A plan presents its declarations.**  The plan of a built catalog has one part for each kind, and
that exposes every declaration of the kind once, as the declared names say, and nothing else. -/
theorem plan_presents (h : build options declarations = .ok catalog) (kind : Kind) :
    ∃ plan, catalog.plan.kinds.filter (·.kind == kind) = [plan] ∧
      Plan.Presents plan (ofKind kind declarations) (Plan.footer kind options.source) :=
  ⟨_, filter_kinds_of_build h kind, presents_of_build h kind⟩

/-- Beside `ui.core` the library `ui` is the self accessor of a group, and only its name is a group's
path. -/
theorem plan_presents_ambiguous :
    ∃ catalog plan, build {} [.library "ui.core" "g" "c", .library "ui" "g" "u"] = .ok catalog ∧
      plan ∈ catalog.plan.kinds ∧ plan.kind = .library ∧
      (∃ accessor ∈ Plan.exposed plan, accessor.name = "ui" ∧
        accessor.chain = ["getUi", "asProvider"]) ∧
      ∀ path, path ∈ plan.groups.toList.map (·.path) ↔ path = "ui" := by
  have hkind : ofKind .library [.library "ui.core" "g" "c", .library "ui" "g" "u"] =
      [.library "ui.core" "g" "c", .library "ui" "g" "u"] := rfl
  obtain ⟨catalog, h⟩ :=
    @exists_of_isOk _ _ (build {} [.library "ui.core" "g" "c", .library "ui" "g" "u"])
      (by decide +kernel)
  obtain ⟨plan, hplan, hpresents⟩ := plan_presents h .library
  rw [hkind] at hpresents
  have hmem : plan ∈ catalog.plan.kinds.filter (·.kind == .library) := by simp [hplan]
  obtain ⟨hlisted, hlibrary⟩ := List.mem_filter.mp hmem
  refine ⟨catalog, plan, h, hlisted, by simpa using hlibrary, ?_, fun path => ?_⟩
  · obtain ⟨accessor, hperm, hexposes⟩ := hpresents.exposed_perm
    have hui := hexposes (.library "ui" "g" "u") (by simp)
    refine ⟨accessor (.library "ui" "g" "u"), ?_, hui.name_eq, ?_⟩
    · exact hperm.mem_iff.mpr (List.mem_map_of_mem (by simp))
    · have hcontinues : Continues [.library "ui.core" "g" "c", .library "ui" "g" "u"]
          (splitDots "ui") :=
        ⟨.library "ui.core" "g" "c", by simp, ["core"], by simp, by decide +kernel⟩
      have hchain : (accessor (.library "ui" "g" "u")).chain.map some =
          ["getUi", "asProvider"].map some :=
        (hui.chain_of_continues hcontinues).trans (by decide +kernel)
      exact (List.map_inj_right fun _ _ => Option.some.inj).mp hchain
  · rw [hpresents.mem_paths]
    have hcore : fronts "ui.core" = ["ui", "ui.core"] := by decide +kernel
    have hui : fronts "ui" = ["ui"] := by decide +kernel
    constructor
    · intro hgiven
      obtain ⟨d, hd, hfront, hproper⟩ := hgiven
      simp only [List.mem_cons, List.not_mem_nil, or_false] at hd
      rcases hd with rfl | rfl
      · have hcases : path = "ui" ∨ path = "ui.core" := by
          simpa [Declaration.library, hcore] using hfront
        exact hcases.resolve_right hproper
      · simpa [Declaration.library, hui] using hfront
    · rintro rfl
      exact ⟨.library "ui.core" "g" "c", by simp, by simp [Declaration.library, hcore], by decide⟩

end Catalog

end AliasCatalog
