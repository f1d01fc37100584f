import AliasCatalog.Proofs.Accessor.Sharing
import AliasCatalog.Proofs.Accessor.TypeNames
import AliasCatalog.Proofs.Naming.Spelling

/-!
# Coherent views

A view answers in two ways: it lists its members, and it finds a child by name.  Whatever way a view is
reached on, the two ways agree with each other and with the declared names (`coherent_of_opens`): each
member is found under its identifier and its own part of the alias in any letter case, nothing else is
found, and what is found yields a value or a group as the names say.
-/

namespace AliasCatalog

open Naming Namespace Text

namespace Accessor

/-- The spelling differs from the member's identifier, or from the last part of its alias, in the case
of ASCII letters alone. -/
def Member.SpeltAs (member : Member) (spelling : String) : Prop :=
  foldCase spelling = foldCase member.identifier.text ∨
    foldCase spelling = foldCase (lastPart member.name)

/-- **A view agrees with its members** and with the declared names. -/
structure View.Coherent (view : View) (declarations : List Declaration) : Prop where
  root_or_children : view.node = view.surface.tree.root ∨ 0 < view.size
  /-- The group has a value and a description of its own exactly when it is ambiguous. -/
  provider_iff : view.provider?.isSome ↔ view.node.shape = .ambiguous
  description_iff : view.providerDescription?.isSome ↔ view.node.shape = .ambiguous
  root_not_ambiguous : view.isRoot = true → view.node.shape ≠ .ambiguous
  length_members : view.members.length = view.size
  members_sorted : view.members.Pairwise fun a b => a.identifier.key < b.identifier.key
  /-- A member is found under any of its spellings. -/
  get_member : ∀ member ∈ view.members, ∀ spelling, member.SpeltAs spelling →
    view.get? spelling = some member.child
  /-- Only members are found. -/
  exists_member : ∀ name child, view.get? name = some child →
    ∃ member ∈ view.members, member.child = child
  provider_iff_declares : ∀ member ∈ view.members,
    member.child.provider?.isSome ↔ Declares declarations (splitDots member.name)
  view_iff_continues : ∀ member ∈ view.members,
    member.child.view?.isSome ↔ Continues declarations (splitDots member.name)
  value_ok_iff : ∀ name, (∃ provider, view.value name = .ok provider) ↔
    ∃ member ∈ view.members, view.get? name = some member.child ∧
      Declares declarations (splitDots member.name)
  group_ok_iff : ∀ name, (∃ nested, view.group name = .ok nested) ↔
    ∃ member ∈ view.members, view.get? name = some member.child ∧
      Continues declarations (splitDots member.name)
  /-- The value of an ambiguous member is the object that its group has for its own. -/
  ambiguous_same : ∀ member ∈ view.members, ∀ provider nested,
    member.child = .ambiguous provider nested →
      ∃ own, nested.provider? = some own ∧ provider.same own = true ∧ provider = own

/-! ## Members -/

/-- A node has a value exactly when it holds a declaration. -/
theorem isSome_ofNode?_iff {node : Node} :
    (Provider.ofNode? node).isSome ↔ ∃ d, node.leaf = some d := by
  rw [Provider.ofNode?, Option.isSome_map, Option.isSome_iff_exists]

/-- A node is described exactly when it holds a declaration. -/
theorem isSome_describeNode?_iff {node : Node} :
    (describeNode? node).isSome ↔ ∃ d, node.leaf = some d := by
  rw [describeNode?, Option.isSome_map, Option.isSome_iff_exists]

namespace View

/-- The member of a tree below the group. -/
def memberOf (view : View) (tree : Entry × Forest Entry) : Member :=
  let node := Node.below view.node.path tree.1 tree.2
  ⟨tree.1.segment.identifier, node.name, describeNode? node, Child.ofNode view.surface node⟩

/-- There is one member for each tree below the group. -/
theorem members_eq_map (view : View) :
    view.members = view.node.children.trees.map view.memberOf := by
  rw [members, Node.members, List.filterMap_map, ← List.filterMap_eq_map]
  refine List.filterMap_congr fun tree _ => ?_
  simp [memberOf, Node.identifier?, Node.identifiers, Node.below]

variable {view : View} {member : Member} {name : String} {child : Child}

/-- The members are those of the trees below the group. -/
theorem mem_members_iff :
    member ∈ view.members ↔ ∃ tree ∈ view.node.children.trees, member = view.memberOf tree := by
  rw [members_eq_map, List.mem_map]
  exact exists_congr fun _ => and_congr_right fun _ => eq_comm

/-- Members stand in the strict order of their keys. -/
theorem members_sorted (h : view.node.Canonical) :
    view.members.Pairwise fun a b => a.identifier.key < b.identifier.key := by
  have hroots := (Forest.ordered_iff.mp h.ordered).1
  rw [Forest.roots_eq_map_trees, List.pairwise_map] at hroots
  rw [members_eq_map, List.pairwise_map]
  exact hroots

/-- **A name finds the child of the member with its key** and no other. -/
theorem get?_eq_some_iff (h : view.node.Canonical) :
    view.get? name = some child ↔
      ∃ member ∈ view.members, key? name = some member.identifier.key ∧ member.child = child := by
  rw [get?, Option.map_eq_some_iff]
  simp only [Node.child?_eq_some_iff h, mem_members_iff]
  constructor
  · rintro ⟨_, ⟨tree, htree, hkey, rfl⟩, rfl⟩
    exact ⟨_, ⟨tree, htree, rfl⟩, hkey, rfl⟩
  · rintro ⟨_, ⟨tree, htree, rfl⟩, hkey, rfl⟩
    exact ⟨_, ⟨tree, htree, hkey, rfl⟩, rfl⟩

/-- A spelling of a member has its key. -/
theorem key?_of_speltAs {spelling : String} (hmember : member ∈ view.members)
    (h : member.SpeltAs spelling) : key? spelling = some member.identifier.key := by
  obtain ⟨tree, _, rfl⟩ := mem_members_iff.mp hmember
  rcases h with hidentifier | hpart
  · exact Segment.key?_of_foldCase_eq_identifier hidentifier
  · have hlast : lastPart (view.memberOf tree).name = tree.1.segment.text :=
      @Node.lastPart_name (.below view.node.path tree.1 tree.2) view.node.path tree.1.segment rfl
    rw [hlast] at hpart
    exact Segment.key?_of_foldCase_eq hpart

section Represents

variable {declarations : List Declaration}
  (hrep : view.surface.tree.Represents declarations) (hnode : view.node ∈ view.surface.tree.nodes)
include hrep hnode

/-- The member of a tree is that of a node below the root, which has the parts of the member's name. -/
theorem exists_node_of_mem (hmember : member ∈ view.members) :
    ∃ node ∈ view.surface.tree.nodes, node.path ≠ [] ∧ splitDots member.name = node.parts ∧
      member.child = Child.ofNode view.surface node := by
  obtain ⟨node, hlisted, hname, hchild⟩ := exists_of_mem_members hmember
  obtain ⟨hbelow, segment, hpath⟩ := (hrep.mem_members_iff hnode).mp hlisted
  have hne : node.path ≠ [] := by simp [hpath]
  exact ⟨node, hbelow, hne, hname ▸ Node.splitDots_name hne, hchild⟩

/-- A member yields a value when its alias is declared. -/
theorem isSome_provider?_iff (haccepted : ∀ d ∈ declarations, Accepted d.name)
    (hmember : member ∈ view.members) :
    member.child.provider?.isSome ↔ Declares declarations (splitDots member.name) := by
  obtain ⟨node, hbelow, _, hparts, hchild⟩ := exists_node_of_mem hrep hnode hmember
  rw [hparts, hchild, Child.provider?_ofNode, isSome_ofNode?_iff,
    hrep.declares_iff haccepted hbelow]

/-- A member yields a group when a declared name goes on from its alias. -/
theorem isSome_view?_iff (haccepted : ∀ d ∈ declarations, Accepted d.name)
    (hmember : member ∈ view.members) :
    member.child.view?.isSome ↔ Continues declarations (splitDots member.name) := by
  obtain ⟨node, hbelow, hne, hparts, hchild⟩ := exists_node_of_mem hrep hnode hmember
  rw [hparts, hchild, Child.view?_ofNode, hrep.continues_iff haccepted hbelow]
  by_cases hshape : node.shape = .leaf
  · simpa [hshape] using (Node.shape_eq_leaf_iff.mp hshape).2
  · simpa [hshape] using hrep.children_ne_nil_of_shape hbelow hne hshape

end Represents

/-- What is the root or no leaf is ambiguous as soon as it holds a declaration. -/
theorem exists_leaf_iff (hroot : view.isRoot = true → view.node = view.surface.tree.root)
    (hgroup : view.isRoot = true ∨ view.node.shape ≠ .leaf) :
    (∃ d, view.node.leaf = some d) ↔ view.node.shape = .ambiguous := by
  rw [Node.shape_eq_ambiguous_iff]
  refine ⟨fun hleaf => ⟨hleaf, fun hnil => ?_⟩, And.left⟩
  rcases hgroup with hisRoot | hshape
  · obtain ⟨d, hleaf⟩ := hleaf
    rw [hroot hisRoot] at hleaf
    cases hleaf
  · exact hshape (Node.shape_eq_leaf_iff.mpr ⟨hleaf, fun hne => hne hnil⟩)

/-- What a found child yields is what its member yields. -/
theorem exists_yield_iff {α : Type} {yield : Child → Option α} {p : Member → Prop}
    (hfound : ∀ child, view.get? name = some child → ∃ member ∈ view.members, member.child = child)
    (hyield : ∀ member ∈ view.members, (yield member.child).isSome ↔ p member) :
    (∃ found child, view.get? name = some child ∧ yield child = some found) ↔
      ∃ member ∈ view.members, view.get? name = some member.child ∧ p member := by
  constructor
  · rintro ⟨found, child, hget, hyielded⟩
    obtain ⟨member, hmember, rfl⟩ := hfound child hget
    exact ⟨member, hmember, hget,
      (hyield member hmember).mp (Option.isSome_iff_exists.mpr ⟨found, hyielded⟩)⟩
  · rintro ⟨member, hmember, hget, hp⟩
    obtain ⟨found, hyielded⟩ := Option.isSome_iff_exists.mp ((hyield member hmember).mpr hp)
    exact ⟨found, member.child, hget, hyielded⟩

/-- A group below the root has children. -/
theorem isRoot_or_children {declarations : List Declaration}
    (hrep : view.surface.tree.Represents declarations) (hnode : view.node ∈ view.surface.tree.nodes)
    (hgroup : view.isRoot = true ∨ view.node.shape ≠ .leaf) :
    view.isRoot = true ∨ view.node.children ≠ .nil := by
  by_cases hisRoot : view.isRoot = true
  · exact .inl hisRoot
  · have hpath : view.node.path ≠ [] := fun hnil => hisRoot (List.isEmpty_iff.mpr hnil)
    exact .inr (hrep.children_ne_nil_of_shape hnode hpath (hgroup.resolve_left hisRoot))

/-- **The view of a node is coherent** when the node is the root or no leaf. -/
theorem coherent {declarations : List Declaration}
    (hrep : view.surface.tree.Represents declarations)
    (haccepted : ∀ d ∈ declarations, Accepted d.name) (hnode : view.node ∈ view.surface.tree.nodes)
    (hgroup : view.isRoot = true ∨ view.node.shape ≠ .leaf) : view.Coherent declarations := by
  have hcanonical := (hrep.holds hnode).1
  have hroot : view.isRoot = true → view.node = view.surface.tree.root := fun hisRoot =>
    hrep.eq_of_path_eq hnode List.mem_cons_self (List.isEmpty_iff.mp hisRoot)
  have hfound : ∀ name child, view.get? name = some child →
      ∃ member ∈ view.members, member.child = child := by
    intro name child hget
    obtain ⟨member, hmember, _, hchild⟩ := (get?_eq_some_iff hcanonical).mp hget
    exact ⟨member, hmember, hchild⟩
  constructor
  · rcases isRoot_or_children hrep hnode hgroup with hisRoot | hchildren
    · exact .inl (hroot hisRoot)
    · refine .inr (List.length_pos_iff.mpr fun hnil => hchildren ?_)
      cases hforest : view.node.children with
      | nil => rfl
      | cons => simp [Node.members, hforest, Forest.trees] at hnil
  · exact isSome_ofNode?_iff.trans (exists_leaf_iff hroot hgroup)
  · exact isSome_describeNode?_iff.trans (exists_leaf_iff hroot hgroup)
  · intro hisRoot hshape
    obtain ⟨⟨d, hleaf⟩, _⟩ := Node.shape_eq_ambiguous_iff.mp hshape
    rw [hroot hisRoot] at hleaf
    cases hleaf
  · rw [members_eq_map, size, Node.members, List.length_map, List.length_map]
  · exact members_sorted hcanonical
  · intro member hmember spelling hspelt
    exact (get?_eq_some_iff hcanonical).mpr
      ⟨member, hmember, key?_of_speltAs hmember hspelt, rfl⟩
  · exact hfound
  · exact fun member hmember => isSome_provider?_iff hrep hnode haccepted hmember
  · exact fun member hmember => isSome_view?_iff hrep hnode haccepted hmember
  · intro name
    simp only [value_eq_ok_iff]
    exact exists_yield_iff (hfound name) fun member hmember =>
      isSome_provider?_iff hrep hnode haccepted hmember
  · intro name
    simp only [group_eq_ok_iff]
    exact exists_yield_iff (hfound name) fun member hmember =>
      isSome_view?_iff hrep hnode haccepted hmember
  · intro member hmember provider nested hambiguous
    obtain ⟨node, _, _, _, hchild⟩ := exists_node_of_mem hrep hnode hmember
    have hvalue : Provider.ofNode? node = some provider := by
      rw [← @Child.provider?_ofNode view.surface, ← hchild, hambiguous]
      rfl
    have hnested : nested = ⟨view.surface, node⟩ := by
      apply Child.eq_of_view?
      rw [← hchild, hambiguous]
      rfl
    exact ⟨provider, by rw [hnested]; exact hvalue, by simp [Provider.same], rfl⟩

end View

/-! ## Opened views -/

section Opened

variable {surface : Surface} {declarations : List Declaration} {names : List String} {view : View}
  {member : Member}

/-- What is yielded as a group is no leaf. -/
theorem Child.shape_ne_leaf_of_view? {node : Node} {nested : View}
    (h : (ofNode surface node).view? = some nested) : nested.node.shape ≠ .leaf := by
  obtain rfl := eq_of_view? h
  intro hleaf
  rw [view?_ofNode, if_pos hleaf] at h
  cases h

/-- What is opened is the root or no leaf. -/
theorem Opens.isRoot_or_shape (h : Opens surface names view) :
    view.isRoot = true ∨ view.node.shape ≠ .leaf := by
  cases h with
  | root => exact .inl rfl
  | group _ found =>
      obtain ⟨_, hget, hyielded⟩ := View.group_eq_ok_iff.mp found
      obtain ⟨node, _, rfl⟩ := Option.map_eq_some_iff.mp hget
      exact .inr (Child.shape_ne_leaf_of_view? hyielded)
  | child _ found yielded =>
      obtain ⟨node, _, rfl⟩ := Option.map_eq_some_iff.mp found
      exact .inr (Child.shape_ne_leaf_of_view? yielded)
  | member _ listed yielded =>
      obtain ⟨node, _, _, hchild⟩ := View.exists_of_mem_members listed
      rw [hchild] at yielded
      exact .inr (Child.shape_ne_leaf_of_view? yielded)

/-- A number does not make a name empty. -/
theorem proposal_ne_empty {base : String} (h : base ≠ "") (number : Nat) :
    proposal base number ≠ "" := by
  unfold proposal
  split
  · exact h
  · simp [h]

/-- Only a root whose type is given no name has a type without a name. -/
theorem Surface.typeName_eq_empty_iff {tree : Tree} {rootType : String}
    (h : (tree.nodes.map (·.path)).Nodup) (hview : view ∈ (ofTree tree rootType).groups) :
    view.typeName = "" ↔ view.isRoot = true ∧ rootType = "" := by
  cases hcase : view.isRoot with
  | true =>
      obtain ⟨below, hgroups, hbelow⟩ := exists_groups_eq_cons tree rootType
      rw [hgroups] at hview
      rcases List.mem_cons.mp hview with rfl | hlater
      · rw [typeName_root h]
        exact (and_iff_right rfl).symm
      · rw [hbelow view hlater] at hcase
        cases hcase
  | false =>
      obtain ⟨before, after, hsplit⟩ := List.append_of_mem hview
      obtain ⟨number, _, hname, _⟩ := isFirstFree_typeName h hsplit
      obtain ⟨stem, hstem, hbase⟩ := @exists_stem_of_not_isRoot tree.kind view.node hcase
      have hne : view.typeName ≠ "" := by
        rw [hname, baseOf_of_not_isRoot hcase, hbase]
        apply proposal_ne_empty
        simp [hstem]
      simp [hne]

/-- A view that is reached from the root is one of the groups that have names. -/
theorem Opens.mem_groups (hrep : surface.tree.Represents declarations)
    (h : Opens surface names view) : view ∈ surface.groups := by
  obtain ⟨rfl, hreached⟩ := h.descend hrep
  have hnode := (hrep.descend_root_iff.mp hreached).1
  refine List.mem_map.mpr ⟨view.node, List.mem_filter.mpr ⟨hnode, ?_⟩, rfl⟩
  rw [isGroup, Bool.or_eq_true]
  rcases View.isRoot_or_children hrep hnode h.isRoot_or_shape with hisRoot | hchildren
  · exact .inl hisRoot
  · exact .inr (by simpa using Forest.isEmpty_eq_false_iff.mpr hchildren)

/-- **Every view that is opened is coherent**, and its type has a name unless the root was given
none. -/
theorem Opens.coherent {kind : Kind} {tree : Tree} {rootType : String}
    (htree : Tree.ofDeclarations kind declarations = .ok tree)
    (h : Opens (.ofTree tree rootType) names view) :
    view.Coherent declarations ∧ (view.typeName = "" ↔ view.isRoot = true ∧ rootType = "") := by
  have haccepted := (Tree.admissible_of_ofDeclarations htree).1.accepted
  have hrep : (Surface.ofTree tree rootType).tree.Represents declarations :=
    (Tree.represents_of_ofDeclarations htree).2
  refine ⟨?_, Surface.typeName_eq_empty_iff hrep.nodup_paths (h.mem_groups hrep)⟩
  obtain ⟨hsurface, hreached⟩ := h.descend hrep
  rw [← hsurface] at hrep hreached
  exact View.coherent hrep haccepted (hrep.descend_root_iff.mp hreached).1 h.isRoot_or_shape

end Opened

end Accessor

namespace Catalog

open Accessor

theorem typeSuffix_ne_empty (kind : Kind) : typeSuffix kind ≠ "" := by
  cases kind <;> decide

/-- The roots of all kinds have names that are not empty. -/
theorem rootTypeOf_ne_empty {name libraryType : String} (h : rootType name = .ok libraryType)
    (kind : Kind) : rootTypeOf libraryType kind ≠ "" := by
  cases kind with
  | library =>
      unfold rootType at h
      split at h
      · cases h
        simp [rootTypeOf]
      · cases h
  | version => exact typeSuffix_ne_empty .version
  | bundle => exact typeSuffix_ne_empty .bundle
  | plugin => exact typeSuffix_ne_empty .plugin

/-- **Every view of a surface is coherent**, whatever way it is reached on.  Its type has a name, unless
it is the root of a surface that was given none; in a built catalog all roots have names. -/
theorem coherent_of_opens :
    (∀ kind declarations tree rootType names view,
      Tree.ofDeclarations kind declarations = .ok tree →
      Opens (.ofTree tree rootType) names view →
        view.Coherent declarations ∧ (view.typeName = "" ↔ view.isRoot = true ∧ rootType = "")) ∧
    ∀ options declarations catalog kind names view, build options declarations = .ok catalog →
      Opens (catalog.surface kind) names view →
        view.Coherent (ofKind kind declarations) ∧ view.typeName ≠ "" := by
  refine ⟨fun _ _ _ _ _ _ htree hopens => hopens.coherent htree, ?_⟩
  intro options declarations catalog kind names view h hopens
  obtain ⟨libraryType, hname, _, hsurfaces⟩ := surface_of_build h
  obtain ⟨tree, htree, hsurface⟩ := hsurfaces kind
  rw [hsurface] at hopens
  obtain ⟨hcoherent, htype⟩ := hopens.coherent htree
  exact ⟨hcoherent, fun hempty => rootTypeOf_ne_empty hname kind (htype.mp hempty).2⟩

/-- The group of an ambiguous version is coherent, reached under another spelling. -/
theorem coherent_below_version :
    ∃ catalog view, build {} [.version "a-b" "1", .version "a-b.c" "2"] = .ok catalog ∧
      Opens (catalog.surface .version) ["A_B"] view ∧
      view.Coherent [.version "a-b" "1", .version "a-b.c" "2"] ∧ view.typeName ≠ "" := by
  obtain ⟨catalog, h⟩ :=
    @exists_of_isOk _ _ (build {} [.version "a-b" "1", .version "a-b.c" "2"]) (by decide +kernel)
  have hgroup : (build {} [.version "a-b" "1", .version "a-b.c" "2"]).map
      (fun catalog => ((catalog.surface .version).root.group "A_B").isOk) = .ok true := by
    decide +kernel
  rw [h] at hgroup
  obtain ⟨view, hview⟩ := exists_of_isOk (Except.ok.inj hgroup)
  have hopens : Opens (catalog.surface .version) ["A_B"] view := .group .root hview
  exact ⟨catalog, view, h, hopens, coherent_of_opens.2 _ _ _ _ _ _ h hopens⟩

end Catalog

end AliasCatalog
