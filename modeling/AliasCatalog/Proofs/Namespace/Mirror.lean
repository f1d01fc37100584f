import Mathlib.Data.List.Dedup
import AliasCatalog.Accessor.Value
import AliasCatalog.Proofs.Namespace.Listing

/-!
# A tree mirrors its declarations

Everything a tree shows can be read off the declared names: which nodes there are and in which order,
what they hold, how they are named and related (`mirrors_of_ofDeclarations`).  The work is done on
paths of segments; at the end it is said of names, cut at their dots.
-/

namespace AliasCatalog.Namespace

open Naming

/-! ## Nodes and their names -/

namespace Node

/-- The root has the empty name. -/
theorem name_eq_empty {node : Node} (h : node.path = []) : node.name = "" := by
  unfold name
  rw [h]
  rfl

/-- Nodes with one name stand at one path. -/
theorem path_eq_of_name_eq {a b : Node} (h : a.name = b.name) : a.path = b.path := by
  by_cases ha : a.path = [] <;> by_cases hb : b.path = []
  · rw [ha, hb]
  · exact absurd (h.symm.trans (name_eq_empty ha)) (joinDots_ne_empty hb)
  · exact absurd (h.trans (name_eq_empty hb)) (joinDots_ne_empty ha)
  · exact eq_of_joinDots_eq ha hb h

/-- A node has the name of a declaration when it stands at the declaration's path. -/
theorem name_eq_iff {node : Node} {d : Declaration} (h : Accepted d.name) :
    d.name = node.name ↔ segmentsOf d.name = node.path := by
  constructor
  · intro heq
    by_cases hpath : node.path = []
    · have hempty := h.joinDots_segmentsOf.trans (heq.trans (name_eq_empty hpath))
      exact absurd hempty (joinDots_ne_empty h.segmentsOf_ne_nil)
    · exact eq_of_joinDots_eq h.segmentsOf_ne_nil hpath (h.joinDots_segmentsOf.trans heq)
  · intro heq
    rw [name, pathText, ← heq, h.joinDots_segmentsOf]

/-- The parts of a name are those of the path. -/
theorem splitDots_name {node : Node} (h : node.path ≠ []) : splitDots node.name = node.parts :=
  splitDots_joinDots h

/-- The last part of a name is the text of the last segment. -/
theorem lastPart_name {node : Node} {path : List Segment} {segment : Segment}
    (h : node.path = path ++ [segment]) : Accessor.lastPart node.name = segment.text := by
  have hparts : splitDots node.name = path.map (·.text) ++ [segment.text] := by
    rw [splitDots_name (by simp [h]), parts, h, List.map_append]
    rfl
  simp [Accessor.lastPart, hparts]

/-- A name goes on from the parts of a node as its path goes on from the node's. -/
theorem splitDots_eq_append_iff {node : Node} {d : Declaration} (h : Accepted d.name)
    {more : List String} :
    splitDots d.name = node.parts ++ more ↔
      ∃ rest, segmentsOf d.name = node.path ++ rest ∧ rest.map (·.text) = more := by
  rw [← h.texts_segmentsOf]
  constructor
  · intro heq
    obtain ⟨front, rest, hsplit, hfront, hrest⟩ := List.map_eq_append_iff.mp heq
    have hsame : front = node.path := (List.map_inj_right fun _ _ => Segment.eq_of_text).mp hfront
    exact ⟨rest, hsame ▸ hsplit, hrest⟩
  · intro hgiven
    obtain ⟨rest, hsplit, rfl⟩ := hgiven
    rw [hsplit, parts, List.map_append]

section Shape

variable {node : Node}

/-- A leaf holds a declaration and has no children. -/
theorem shape_eq_leaf_iff :
    node.shape = .leaf ↔ (∃ d, node.leaf = some d) ∧ ¬ node.children ≠ .nil := by
  cases hleaf : node.leaf <;> cases hchildren : node.children <;>
    simp [shape, hleaf, hchildren, Forest.isEmpty]

/-- An ambiguous node holds a declaration and has children. -/
theorem shape_eq_ambiguous_iff :
    node.shape = .ambiguous ↔ (∃ d, node.leaf = some d) ∧ node.children ≠ .nil := by
  cases hleaf : node.leaf <;> cases hchildren : node.children <;>
    simp [shape, hleaf, hchildren, Forest.isEmpty]

/-- A group holds no declaration. -/
theorem shape_eq_group_iff : node.shape = .group ↔ ¬ ∃ d, node.leaf = some d := by
  cases hleaf : node.leaf <;> cases hchildren : node.children <;>
    simp [shape, hleaf, hchildren, Forest.isEmpty]

end Shape

/-- Nodes one segment apart are one part apart. -/
theorem parts_eq_append_iff {child node : Node} :
    (∃ part, child.parts = node.parts ++ [part]) ↔
      ∃ segment, child.path = node.path ++ [segment] := by
  constructor
  · intro hgiven
    obtain ⟨part, hparts⟩ := hgiven
    obtain ⟨front, last, hsplit, hfront, hlast⟩ := List.map_eq_append_iff.mp hparts
    obtain ⟨segment, rfl, _⟩ := List.map_eq_singleton_iff.mp hlast
    have hsame : front = node.path := (List.map_inj_right fun _ _ => Segment.eq_of_text).mp hfront
    exact ⟨segment, hsame ▸ hsplit⟩
  · intro hgiven
    obtain ⟨segment, hpath⟩ := hgiven
    exact ⟨segment.text, by rw [parts, hpath, List.map_append]; rfl⟩

end Node

/-! ## Nodes and declarations -/

namespace Tree.Represents

variable {tree : Tree} {declarations : List Declaration} {node : Node}

/-- Every node holds what the declarations go on with from its path. -/
theorem holds (h : tree.Represents declarations) (hnode : node ∈ tree.nodes) :
    node.Canonical ∧ ∀ rest d, (rest, d) ∈ node.declared ↔
      d ∈ declarations ∧ node.path ++ rest = segmentsOf d.name := by
  rcases List.mem_cons.mp hnode with rfl | hlisted
  · exact ⟨h.canonical_root, fun rest d => h.mem_declared_root⟩
  · obtain ⟨way, _, hpath, hholds, _⟩ := holds_of_mem_preorder h.ordered h.grounded hlisted
    refine ⟨hholds.canonical, fun rest d => ?_⟩
    rw [hholds.mem_declared, h.mem_declared, hpath, List.nil_append]

/-- Every node but the root stands at the beginning of a declared path. -/
theorem exists_declared (h : tree.Represents declarations) (hnode : node ∈ tree.nodes)
    (hpath : node.path ≠ []) :
    ∃ d ∈ declarations, ∃ rest, segmentsOf d.name = node.path ++ rest := by
  rcases List.mem_cons.mp hnode with rfl | hlisted
  · exact absurd rfl hpath
  · obtain ⟨way, _, hway, _, rest, d, hmem⟩ := holds_of_mem_preorder h.ordered h.grounded hlisted
    obtain ⟨hd, hsplit⟩ := h.mem_declared.mp hmem
    exact ⟨d, hd, rest, by rw [← hsplit, hway, List.nil_append]⟩

/-- Every beginning of a declared path has a node. -/
theorem exists_node (h : tree.Represents declarations) {d : Declaration} (hd : d ∈ declarations)
    {way rest : List Segment} (hsplit : segmentsOf d.name = way ++ rest) :
    ∃ node ∈ tree.nodes, node.path = way := by
  by_cases hway : way = []
  · exact ⟨tree.root, List.mem_cons_self, hway.symm⟩
  · obtain ⟨node, hnode, hpath⟩ :=
      @exists_mem_preorder tree.forest [] way rest d hway (h.mem_declared.mpr ⟨hd, hsplit.symm⟩)
    exact ⟨node, List.mem_cons_of_mem _ hnode, by rw [hpath, List.nil_append]⟩

/-- The nodes stand in the strict order of their keys. -/
theorem pairwise_nodes (h : tree.Represents declarations) :
    tree.nodes.Pairwise fun a b => a.keys < b.keys := by
  refine List.pairwise_cons.mpr ⟨fun node hnode => ?_, pairwise_preorder h.ordered⟩
  obtain ⟨entry, _, rest, hpath⟩ := exists_root_of_mem_preorder hnode
  unfold Node.keys
  rw [hpath]
  exact List.nil_lt_cons _ _

/-- No two nodes have one path. -/
theorem nodup_paths (h : tree.Represents declarations) : (tree.nodes.map (·.path)).Nodup := by
  refine List.pairwise_map.mpr (h.pairwise_nodes.imp fun hlt heq => ?_)
  unfold Node.keys at hlt
  rw [heq] at hlt
  exact List.lt_irrefl _ hlt

/-- A node is told by its path. -/
theorem eq_of_path_eq (h : tree.Represents declarations) {a b : Node} (ha : a ∈ tree.nodes)
    (hb : b ∈ tree.nodes) (hpath : a.path = b.path) : a = b :=
  List.inj_on_of_nodup_map h.nodup_paths ha hb hpath

/-- Only the root has the empty path. -/
theorem path_ne_nil (h : tree.Represents declarations) (hnode : node ∈ tree.nodes)
    (hroot : node ≠ tree.root) : node.path ≠ [] := by
  intro hnil
  exact hroot (h.eq_of_path_eq hnode List.mem_cons_self hnil)

/-! ## What stands at a node -/

/-- The declaration at a node is the one at its path. -/
theorem leaf_iff (h : tree.Represents declarations) (hnode : node ∈ tree.nodes) {d : Declaration} :
    node.leaf = some d ↔ d ∈ declarations ∧ segmentsOf d.name = node.path := by
  have hholds := (h.holds hnode).2 [] d
  rw [List.append_nil] at hholds
  exact leaf_eq_some_iff.trans (hholds.trans (and_congr_right fun _ => eq_comm))

/-- A node has children when a declared path goes on from its own. -/
theorem children_ne_nil_iff (h : tree.Represents declarations) (hnode : node ∈ tree.nodes) :
    node.children ≠ .nil ↔
      ∃ d ∈ declarations, ∃ rest, rest ≠ [] ∧ segmentsOf d.name = node.path ++ rest := by
  obtain ⟨hcanonical, hholds⟩ := h.holds hnode
  constructor
  · intro hne
    obtain ⟨rest, d, hmem⟩ := exists_mem_declared hcanonical.grounded hne
    obtain ⟨hrest, hfrom⟩ := (@mem_declared_iff_ne_nil node.leaf _ _ _).mp hmem
    obtain ⟨hd, hsplit⟩ := (hholds rest d).mp hfrom
    exact ⟨d, hd, rest, hrest, hsplit.symm⟩
  · intro hgiven hnil
    obtain ⟨d, hd, rest, hrest, hsplit⟩ := hgiven
    have hmem := (@mem_declared_iff_ne_nil node.leaf _ _ _).mpr
      ⟨hrest, (hholds rest d).mpr ⟨hd, hsplit.symm⟩⟩
    rw [hnil] at hmem
    cases hmem

/-- A node below the root is a leaf or has children. -/
theorem children_ne_nil_of_shape (h : tree.Represents declarations) (hnode : node ∈ tree.nodes)
    (hpath : node.path ≠ []) (hshape : node.shape ≠ .leaf) :
    node.children ≠ .nil := by
  intro hnil
  obtain ⟨d, hd, rest, hsplit⟩ := h.exists_declared hnode hpath
  by_cases hrest : rest = []
  · rw [hrest, List.append_nil] at hsplit
    have hleaf := (h.leaf_iff hnode).mpr ⟨hd, hsplit⟩
    exact hshape (Node.shape_eq_leaf_iff.mpr ⟨⟨d, hleaf⟩, fun hne => hne hnil⟩)
  · exact (h.children_ne_nil_iff hnode).mpr ⟨d, hd, rest, hrest, hsplit⟩ hnil

/-! ## Families -/

/-- The children of a node are the nodes one segment further: what goes on from such a node goes on from the
parent, which has a tree for it. -/
theorem mem_members_iff (h : tree.Represents declarations) (hnode : node ∈ tree.nodes)
    {child : Node} :
    child ∈ node.members ↔ child ∈ tree.nodes ∧ ∃ segment, child.path = node.path ++ [segment] := by
  have hlisted : ∀ child ∈ node.members, child ∈ tree.nodes := by
    intro child hchild
    rcases List.mem_cons.mp hnode with rfl | hnode
    · obtain ⟨below, hbelow, rfl⟩ := List.mem_map.mp hchild
      exact List.mem_cons_of_mem _ (below_mem_preorder hbelow)
    · exact List.mem_cons_of_mem _ (members_subset hnode child hchild)
  constructor
  · intro hchild
    refine ⟨hlisted child hchild, ?_⟩
    obtain ⟨below, _, rfl⟩ := List.mem_map.mp hchild
    exact ⟨below.1.segment, rfl⟩
  · intro hgiven
    obtain ⟨hchild, segment, hpath⟩ := hgiven
    obtain ⟨d, hd, rest, hsplit⟩ := h.exists_declared hchild (by simp [hpath])
    rw [hpath, List.append_assoc] at hsplit
    have hfrom := ((h.holds hnode).2 (segment :: rest) d).mpr ⟨hd, hsplit.symm⟩
    obtain ⟨below, htree, hstart⟩ := Node.exists_tree_of_mem_declared hfrom
    have hmember : Node.below node.path below.1 below.2 ∈ node.members :=
      List.mem_map.mpr ⟨below, htree, rfl⟩
    have hsame : child.path = (Node.below node.path below.1 below.2).path := by
      rw [hpath, ← hstart]
      rfl
    exact h.eq_of_path_eq hchild (hlisted _ hmember) hsame ▸ hmember

/-- The child that a name finds is the node one segment further with the key of the name. -/
theorem child?_iff (h : tree.Represents declarations) {parent : Node} {name : String}
    (hparent : parent ∈ tree.nodes) :
    parent.child? name = some node ↔
      node ∈ tree.nodes ∧
        ∃ segment, node.path = parent.path ++ [segment] ∧ key? name = some segment.key := by
  rw [Node.child?_eq_some_iff (h.holds hparent).1]
  constructor
  · rintro ⟨below, htree, hkey, rfl⟩
    have hmember : Node.below parent.path below.1 below.2 ∈ parent.members :=
      List.mem_map.mpr ⟨below, htree, rfl⟩
    exact ⟨((h.mem_members_iff hparent).mp hmember).1, below.1.segment, rfl, hkey⟩
  · rintro ⟨hnode, segment, hpath, hkey⟩
    obtain ⟨below, htree, rfl⟩ :=
      List.mem_map.mp ((h.mem_members_iff hparent).mpr ⟨hnode, segment, hpath⟩)
    obtain rfl := List.singleton_inj.mp (List.append_cancel_left hpath)
    exact ⟨below, htree, hkey, rfl⟩

/-- The members of a node stand in the strict order of the keys of their identifiers. -/
theorem pairwise_members (h : tree.Represents declarations) (hnode : node ∈ tree.nodes) :
    node.members.Pairwise fun a b =>
      ∃ i j, a.identifier? = some i ∧ b.identifier? = some j ∧ i.key < j.key := by
  have hroots := (Forest.ordered_iff.mp (h.holds hnode).1.ordered).1
  rw [Forest.roots_eq_map_trees, List.pairwise_map] at hroots
  refine List.pairwise_map.mpr (hroots.imp fun {a b} hlt => ?_)
  refine ⟨a.1.segment.identifier, b.1.segment.identifier, ?_, ?_, hlt⟩
  · simp [Node.identifier?, Node.identifiers, Node.below]
  · simp [Node.identifier?, Node.identifiers, Node.below]

/-- Each node is found at its path. -/
theorem node?_path (h : tree.Represents declarations) (hnode : node ∈ tree.nodes) :
    tree.node? node.path = some node := by
  rw [Tree.node?]
  cases hfind : tree.nodes.find? (·.path == node.path) with
  | none => exact absurd (List.find?_eq_none.mp hfind node hnode) (by simp)
  | some other =>
      have hpath : other.path = node.path := by simpa using List.find?_some hfind
      rw [h.eq_of_path_eq (List.mem_of_find?_eq_some hfind) hnode hpath]

/-- The parent of a member is the node it is a member of. -/
theorem parent?_member (h : tree.Represents declarations) (hnode : node ∈ tree.nodes) {child : Node}
    (hchild : child ∈ node.members) : tree.parent? child = some node := by
  obtain ⟨_, segment, hpath⟩ := (h.mem_members_iff hnode).mp hchild
  rw [Tree.parent?, Node.isRoot, hpath, List.dropLast_concat, h.node?_path hnode]
  simp

/-- Every node but the root is the child of a node listed before it, for the keys of the parent begin those
of the node. -/
theorem exists_parent_before (h : tree.Represents declarations) {before after : List Node}
    (hsplit : tree.nodes = before ++ node :: after) (hroot : node ≠ tree.root) :
    ∃ parent ∈ before, tree.parent? node = some parent := by
  have hnode : node ∈ tree.nodes := by simp [hsplit]
  have hpath := h.path_ne_nil hnode hroot
  obtain ⟨d, hd, rest, hdeclared⟩ := h.exists_declared hnode hpath
  have hlast : node.path = node.path.dropLast ++ [node.path.getLast hpath] :=
    (List.dropLast_concat_getLast hpath).symm
  rw [hlast, List.append_assoc] at hdeclared
  obtain ⟨parent, hparent, hfront⟩ := h.exists_node hd hdeclared
  have hmember := (h.mem_members_iff hparent).mpr ⟨hnode, _, hfront ▸ hlast⟩
  refine ⟨parent, ?_, h.parent?_member hparent hmember⟩
  have hlt : parent.keys < node.keys := by
    unfold Node.keys
    rw [hlast, hfront, List.map_append]
    have hstep := @List.append_left_lt _ _ (node.path.dropLast.map (·.key)) _ _
      (List.nil_lt_cons (node.path.getLast hpath).key [])
    rwa [List.append_nil] at hstep
  have hsorted := h.pairwise_nodes
  rw [hsplit] at hparent hsorted
  rcases List.mem_append.mp hparent with hbefore | hparent
  · exact hbefore
  · rcases List.mem_cons.mp hparent with rfl | hafter
    · exact absurd hlt (List.lt_irrefl _)
    · have hgt := (List.pairwise_cons.mp (List.pairwise_append.mp hsorted).2.1).1 parent hafter
      exact absurd (List.lt_trans hlt hgt) (List.lt_irrefl _)

/-! ## Counts -/

/-- **A tree holds its declarations, each once.** -/
theorem perm_declarations (h : tree.Represents declarations) :
    tree.declarations.Perm declarations := by
  unfold Tree.declarations
  rw [← map_snd_declared]
  refine (h.declared.map _).trans (.of_eq ?_)
  simp [located, Function.comp_def]

/-- A bound on the paths is a bound on the declared ones. -/
theorem depth_le_iff (h : tree.Represents declarations) {bound : Nat} :
    tree.depth ≤ bound ↔ ∀ d ∈ declarations, (segmentsOf d.name).length ≤ bound := by
  unfold Tree.depth
  rw [foldl_max_le_iff]
  simp only [Nat.zero_le, true_and, List.forall_mem_map]
  constructor
  · intro hbound d hd
    obtain ⟨node, hnode, hpath⟩ := @exists_node _ _ h d hd (segmentsOf d.name) [] (by simp)
    exact hpath ▸ hbound node hnode
  · intro hbound node hnode
    by_cases hpath : node.path = []
    · simp [hpath]
    · obtain ⟨d, hd, rest, hsplit⟩ := h.exists_declared hnode hpath
      have hlength := hbound d hd
      rw [hsplit, List.length_append] at hlength
      omega

end Tree.Represents

/-! ## Names -/

/-- The dotted names that a name begins with, the shortest first and the name itself last. -/
def fronts (name : String) : List String :=
  (List.range (splitDots name).length).map fun i => joinDots ((splitDots name).take (i + 1))

/-- The fronts of a name are its beginnings of at least one part. -/
theorem mem_fronts {name front : String} :
    front ∈ fronts name ↔ ∃ parts, parts ≠ [] ∧ parts <+: splitDots name ∧ joinDots parts = front := by
  simp only [fronts, List.mem_map, List.mem_range]
  constructor
  · intro hgiven
    obtain ⟨i, hi, rfl⟩ := hgiven
    refine ⟨(splitDots name).take (i + 1), fun hnil => ?_, List.take_prefix _ _, rfl⟩
    have hlength := congrArg List.length hnil
    rw [List.length_take, List.length_nil] at hlength
    omega
  · intro hgiven
    obtain ⟨parts, hne, hprefix, rfl⟩ := hgiven
    have hpos : 0 < parts.length := List.length_pos_iff.mpr hne
    refine ⟨parts.length - 1, by have := hprefix.length_le; omega, ?_⟩
    rw [Nat.sub_add_cancel hpos, ← List.prefix_iff_eq_take.mp hprefix]

/-- The fronts of an accepted name are the printed beginnings of its path. -/
theorem mem_fronts_iff {name front : String} (h : Accepted name) :
    front ∈ fronts name ↔
      ∃ way rest, way ≠ [] ∧ segmentsOf name = way ++ rest ∧ pathText way = front := by
  rw [mem_fronts, ← h.texts_segmentsOf]
  constructor
  · intro hgiven
    obtain ⟨parts, hne, ⟨more, hsplit⟩, rfl⟩ := hgiven
    obtain ⟨way, rest, hway, rfl, _⟩ := List.map_eq_append_iff.mp hsplit.symm
    exact ⟨way, rest, fun hnil => hne (by rw [hnil, List.map_nil]), hway, rfl⟩
  · intro hgiven
    obtain ⟨way, rest, hne, hsplit, rfl⟩ := hgiven
    refine ⟨way.map (·.text), by simpa using hne, ?_, rfl⟩
    rw [hsplit, List.map_append]
    exact List.prefix_append _ _

/-- Some declaration has exactly these parts. -/
def Declares (declarations : List Declaration) (parts : List String) : Prop :=
  ∃ d ∈ declarations, splitDots d.name = parts

/-- Some declaration has these parts and more. -/
def Continues (declarations : List Declaration) (parts : List String) : Prop :=
  ∃ d ∈ declarations, ∃ more, more ≠ [] ∧ splitDots d.name = parts ++ more

/-- **A tree mirrors its declarations**: what it shows is what can be read off the declared names. -/
structure Tree.Mirrors (tree : Tree) (declarations : List Declaration) : Prop where
  /-- No two nodes have one name. -/
  names_nodup : (tree.nodes.map (·.name)).Nodup
  /-- The names are the root's and the fronts of the declared names. -/
  mem_names : ∀ name, name ∈ tree.nodes.map (·.name) ↔
    name = "" ∨ ∃ d ∈ declarations, name ∈ fronts d.name
  /-- A node that is not the root has its parts between the dots of its name. -/
  splitDots_name : ∀ node ∈ tree.nodes, node ≠ tree.root → splitDots node.name = node.parts
  nodeCount_eq : tree.nodeCount = (declarations.flatMap (fronts ·.name)).dedup.length + 1
  /-- A node holds the declaration of its name. -/
  leaf_iff : ∀ node ∈ tree.nodes, ∀ d,
    node.leaf = some d ↔ d ∈ declarations ∧ d.name = node.name
  root_leaf : tree.root.leaf = none
  /-- No declaration is lost or repeated. -/
  declarations_perm : tree.declarations.Perm declarations
  leafCount_eq : tree.leafCount = declarations.length
  /-- No node but the root is an empty group. -/
  grounded : ∀ node ∈ tree.nodes, node ≠ tree.root →
    Declares declarations node.parts ∨ Continues declarations node.parts
  shape_leaf : ∀ node ∈ tree.nodes, node.shape = .leaf ↔
    Declares declarations node.parts ∧ ¬ Continues declarations node.parts
  shape_ambiguous : ∀ node ∈ tree.nodes, node.shape = .ambiguous ↔
    Declares declarations node.parts ∧ Continues declarations node.parts
  shape_group : ∀ node ∈ tree.nodes, node.shape = .group ↔ ¬ Declares declarations node.parts
  /-- The identifiers of a node are the normal forms of its parts. -/
  identifiers_eq : ∀ node ∈ tree.nodes, node.identifiers.map some = node.parts.map normalize
  /-- The children of a node are the nodes with one part more. -/
  mem_members : ∀ node ∈ tree.nodes, ∀ child,
    child ∈ node.members ↔ child ∈ tree.nodes ∧ ∃ part, child.parts = node.parts ++ [part]
  /-- Children stand in the strict order of the keys of their identifiers. -/
  members_sorted : ∀ node ∈ tree.nodes, node.members.Pairwise fun a b =>
    ∃ i j, a.identifier? = some i ∧ b.identifier? = some j ∧ i.key < j.key
  parent_member : ∀ node ∈ tree.nodes, ∀ child ∈ node.members, tree.parent? child = some node
  parent_root : tree.parent? tree.root = none
  /-- The listing is the walk that puts the children of a node in its place on the stack. -/
  walk : Walk [tree.root] tree.nodes
  /-- Parents are listed before their children. -/
  parents_first : ∀ before node after, tree.nodes = before ++ node :: after → node ≠ tree.root →
    ∃ parent ∈ before, tree.parent? node = some parent
  /-- The listing runs through the nodes in the order of their keys. -/
  sorted : tree.nodes.Pairwise fun a b => a.keys < b.keys
  depth_eq : tree.depth = (declarations.map fun d => (splitDots d.name).length).foldl max 0
  mem_ambiguousNodes : ∀ node, node ∈ tree.ambiguousNodes ↔
    node ∈ tree.nodes ∧ Declares declarations node.parts ∧ Continues declarations node.parts

namespace Tree

variable {tree : Tree} {declarations : List Declaration} {node : Node}

namespace Represents

/-- The parts of a node are declared exactly when it holds a declaration. -/
theorem declares_iff (h : tree.Represents declarations)
    (haccepted : ∀ d ∈ declarations, Accepted d.name) (hnode : node ∈ tree.nodes) :
    Declares declarations node.parts ↔ ∃ d, node.leaf = some d := by
  constructor
  · intro hgiven
    obtain ⟨d, hd, hparts⟩ := hgiven
    obtain ⟨rest, hsplit, hrest⟩ :=
      (Node.splitDots_eq_append_iff (haccepted d hd)).mp (hparts.trans (List.append_nil _).symm)
    rw [List.map_eq_nil_iff.mp hrest, List.append_nil] at hsplit
    exact ⟨d, (h.leaf_iff hnode).mpr ⟨hd, hsplit⟩⟩
  · intro hgiven
    obtain ⟨d, hleaf⟩ := hgiven
    obtain ⟨hd, hsplit⟩ := (h.leaf_iff hnode).mp hleaf
    exact ⟨d, hd, by rw [Node.parts, ← hsplit, (haccepted d hd).texts_segmentsOf]⟩

/-- A declared name goes on from the parts of a node exactly when it has children. -/
theorem continues_iff (h : tree.Represents declarations)
    (haccepted : ∀ d ∈ declarations, Accepted d.name) (hnode : node ∈ tree.nodes) :
    Continues declarations node.parts ↔ node.children ≠ .nil := by
  rw [h.children_ne_nil_iff hnode]
  constructor
  · intro hgiven
    obtain ⟨d, hd, more, hmore, hparts⟩ := hgiven
    obtain ⟨rest, hsplit, rfl⟩ := (Node.splitDots_eq_append_iff (haccepted d hd)).mp hparts
    exact ⟨d, hd, rest, fun hnil => hmore (by rw [hnil, List.map_nil]), hsplit⟩
  · intro hgiven
    obtain ⟨d, hd, rest, hrest, hsplit⟩ := hgiven
    exact ⟨d, hd, rest.map (·.text), by simpa using hrest,
      (Node.splitDots_eq_append_iff (haccepted d hd)).mpr ⟨rest, hsplit, rfl⟩⟩

/-- The names of the nodes are the fronts of the declared names, and the empty name of the root. -/
theorem mem_names (h : tree.Represents declarations)
    (haccepted : ∀ d ∈ declarations, Accepted d.name) {name : String} :
    name ∈ tree.nodes.map (·.name) ↔ name = "" ∨ ∃ d ∈ declarations, name ∈ fronts d.name := by
  rw [List.mem_map]
  constructor
  · intro hgiven
    obtain ⟨node, hnode, rfl⟩ := hgiven
    by_cases hpath : node.path = []
    · exact .inl (Node.name_eq_empty hpath)
    · obtain ⟨d, hd, rest, hsplit⟩ := h.exists_declared hnode hpath
      exact .inr ⟨d, hd, (mem_fronts_iff (haccepted d hd)).mpr ⟨_, rest, hpath, hsplit, rfl⟩⟩
  · intro hcases
    rcases hcases with rfl | ⟨d, hd, hfront⟩
    · exact ⟨tree.root, List.mem_cons_self, rfl⟩
    · obtain ⟨way, rest, _, hsplit, rfl⟩ := (mem_fronts_iff (haccepted d hd)).mp hfront
      obtain ⟨node, hnode, rfl⟩ := h.exists_node hd hsplit
      exact ⟨node, hnode, rfl⟩

/-- No two nodes have one name. -/
theorem nodup_names (h : tree.Represents declarations) : (tree.nodes.map (·.name)).Nodup := by
  have hpaths := List.pairwise_map.mp h.nodup_paths
  exact List.pairwise_map.mpr (hpaths.imp fun hne heq => hne (Node.path_eq_of_name_eq heq))

/-- Besides the root there are as many nodes as fronts, since no name comes twice. -/
theorem nodeCount_eq (h : tree.Represents declarations)
    (haccepted : ∀ d ∈ declarations, Accepted d.name) :
    tree.nodeCount = (declarations.flatMap (fronts ·.name)).dedup.length + 1 := by
  have hnames := h.nodup_names
  rw [nodes, List.map_cons, List.nodup_cons] at hnames
  have hperm : ((preorder [] tree.forest).map (·.name)).Perm
      (declarations.flatMap (fronts ·.name)).dedup := by
    apply (List.perm_ext_iff_of_nodup hnames.2 (List.nodup_dedup _)).mpr
    intro name
    have hmem := @mem_names _ _ h haccepted name
    rw [nodes, List.map_cons, List.mem_cons] at hmem
    rw [List.mem_dedup, List.mem_flatMap]
    constructor
    · intro hname
      rcases hmem.mp (.inr hname) with rfl | hfront
      · exact absurd hname hnames.1
      · exact hfront
    · intro hfront
      rcases hmem.mpr (.inr hfront) with rfl | hname
      · obtain ⟨d, hd, hfront⟩ := hfront
        obtain ⟨way, rest, hway, _, hempty⟩ := (mem_fronts_iff (haccepted d hd)).mp hfront
        exact absurd hempty (joinDots_ne_empty hway)
      · exact hname
  rw [← Tree.length_nodes, nodes, List.length_cons, ← hperm.length_eq, List.length_map]

/-- The depth of a tree is the length of its longest alias. -/
theorem depth_eq (h : tree.Represents declarations)
    (haccepted : ∀ d ∈ declarations, Accepted d.name) :
    tree.depth = (declarations.map fun d => (splitDots d.name).length).foldl max 0 := by
  have hlength : ∀ d ∈ declarations, (splitDots d.name).length = (segmentsOf d.name).length := by
    intro d hd
    rw [← (haccepted d hd).texts_segmentsOf, List.length_map]
  have hbound : ∀ bound, tree.depth ≤ bound ↔
      (declarations.map fun d => (splitDots d.name).length).foldl max 0 ≤ bound := by
    intro bound
    rw [h.depth_le_iff, foldl_max_le_iff]
    simp only [Nat.zero_le, true_and, List.forall_mem_map]
    exact forall_congr' fun d => forall_congr' fun hd => by rw [hlength d hd]
  exact Nat.le_antisymm ((hbound _).mpr (Nat.le_refl _)) ((hbound _).mp (Nat.le_refl _))

/-- **A tree that represents declarations mirrors them.** -/
theorem mirrors (h : tree.Represents declarations)
    (haccepted : ∀ d ∈ declarations, Accepted d.name) : tree.Mirrors declarations where
  names_nodup := h.nodup_names
  mem_names _ := h.mem_names haccepted
  splitDots_name _ hnode hroot := Node.splitDots_name (h.path_ne_nil hnode hroot)
  nodeCount_eq := h.nodeCount_eq haccepted
  leaf_iff node hnode d := by
    rw [h.leaf_iff hnode]
    exact and_congr_right fun hd => (Node.name_eq_iff (haccepted d hd)).symm
  root_leaf := rfl
  declarations_perm := h.perm_declarations
  leafCount_eq := h.perm_declarations.length_eq
  grounded node hnode hroot := by
    obtain ⟨d, hd, rest, hsplit⟩ := h.exists_declared hnode (h.path_ne_nil hnode hroot)
    have hparts := (Node.splitDots_eq_append_iff (haccepted d hd)).mpr ⟨rest, hsplit, rfl⟩
    by_cases hrest : rest = []
    · rw [hrest, List.map_nil, List.append_nil] at hparts
      exact .inl ⟨d, hd, hparts⟩
    · exact .inr ⟨d, hd, _, by simpa using hrest, hparts⟩
  shape_leaf node hnode := by
    rw [Node.shape_eq_leaf_iff, h.declares_iff haccepted hnode, h.continues_iff haccepted hnode]
  shape_ambiguous node hnode := by
    rw [Node.shape_eq_ambiguous_iff, h.declares_iff haccepted hnode, h.continues_iff haccepted hnode]
  shape_group node hnode := by
    rw [Node.shape_eq_group_iff, h.declares_iff haccepted hnode]
  identifiers_eq node _ := by
    simp [Node.identifiers, Node.parts]
  mem_members node hnode child := by
    rw [h.mem_members_iff hnode, Node.parts_eq_append_iff]
  members_sorted _ hnode := h.pairwise_members hnode
  parent_member _ hnode _ hchild := h.parent?_member hnode hchild
  parent_root := rfl
  walk := by
    have hwalk := @Walk.preorder tree.forest [] [] [] .done
    rw [List.append_nil, List.append_nil] at hwalk
    exact .visit tree.root (by rw [List.append_nil]; exact hwalk)
  parents_first _ _ _ hsplit hroot := h.exists_parent_before hsplit hroot
  sorted := h.pairwise_nodes
  depth_eq := h.depth_eq haccepted
  mem_ambiguousNodes node := by
    rw [ambiguousNodes, List.mem_filter, beq_iff_eq]
    apply and_congr_right
    intro hnode
    rw [Node.shape_eq_ambiguous_iff, h.declares_iff haccepted hnode, h.continues_iff haccepted hnode]

end Represents

variable {kind : Kind}

/-- **What is built mirrors its declarations.** -/
theorem mirrors_of_ofDeclarations (h : ofDeclarations kind declarations = .ok tree) :
    tree.kind = kind ∧ tree.Mirrors declarations := by
  obtain ⟨hkind, hrepresents⟩ := represents_of_ofDeclarations h
  exact ⟨hkind, hrepresents.mirrors (admissible_of_ofDeclarations h).1.accepted⟩

/-- A library below another makes that one ambiguous: with the root there are three nodes. -/
theorem nodeCount_nested :
    ∃ tree, ofDeclarations .library [.library "ui" "g" "a", .library "ui.core" "g" "b"] = .ok tree ∧
      tree.nodeCount = 3 ∧ tree.depth = 2 := by
  obtain ⟨tree, h⟩ :=
    @exists_of_isOk _ _
      (ofDeclarations .library [.library "ui" "g" "a", .library "ui.core" "g" "b"])
      (by decide +kernel)
  have hmirrors := (mirrors_of_ofDeclarations h).2
  refine ⟨tree, h, ?_, ?_⟩
  · rw [hmirrors.nodeCount_eq]
    decide +kernel
  · rw [hmirrors.depth_eq]
    decide +kernel

end Tree

end AliasCatalog.Namespace
