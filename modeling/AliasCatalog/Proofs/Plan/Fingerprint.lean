import AliasCatalog.Plan.Basic
import AliasCatalog.Proofs.Namespace.CanonicalText

/-!
# Plans and fingerprints

A plan says nothing of a declaration but its name and its description.  With the descriptions left out
it is that of the bare tree (`group_bare`, `groups_bare`), so trees with one canonical text have one
plan up to descriptions (`fingerprint_identifies_names`).
-/

namespace AliasCatalog

open Accessor Namespace Naming

/-- The leaf with nothing in place of its description. -/
def LeafPlan.undescribed (leaf : LeafPlan) : LeafPlan :=
  { leaf with docs := leaf.docs.modifyHead fun _ => "" }

/-- The group with nothing in place of the descriptions of its accessors. -/
def GroupPlan.undescribed (group : GroupPlan) : GroupPlan :=
  { group with
    provider := group.provider.map LeafPlan.undescribed
    leaves := group.leaves.map LeafPlan.undescribed }

/-! ## Bare surfaces -/

/-- The members of a bare node are the bare members. -/
theorem Namespace.Node.members_bare (node : Node) : node.bare.members = node.members.map Node.bare := by
  unfold members
  rw [show node.bare.children = node.children.map Entry.bare from rfl, Forest.trees_map,
    List.map_map, List.map_map]
  rfl

/-- A bare node is a group when the node is. -/
theorem Accessor.isGroup_bare (node : Node) : isGroup node.bare = isGroup node := by
  simp [isGroup, Node.bare, Node.isRoot, Forest.isEmpty_map]

/-- Groups are named by their paths, whatever the nodes declare. -/
theorem Accessor.nameGroups_bare (kind : Kind) (rootType : String) (taken : List String)
    (nodes : List Node) :
    nameGroups kind rootType taken (nodes.map Node.bare) =
      nameGroups kind rootType taken nodes := by
  induction nodes generalizing taken with
  | nil => rfl
  | cons node rest ih =>
      have hroot : node.bare.isRoot = node.isRoot := rfl
      have hbase : typeBase kind node.bare = typeBase kind node := rfl
      have hpath : node.bare.path = node.path := rfl
      simp only [List.map_cons, nameGroups, isGroup_bare, hroot, hbase, hpath, ih]

/-- The types of a surface are those of the bare tree. -/
theorem Accessor.Surface.typeNames_bare (tree : Tree) (rootType : String) :
    (ofTree tree.bare rootType).typeNames = (ofTree tree rootType).typeNames := by
  unfold ofTree
  rw [Tree.nodes_bare]
  exact nameGroups_bare _ _ _ _

/-! ## Plans of bare trees -/

namespace Plan

variable {surface other : Surface} {footer : String}

/-- A leaf says nothing of a declaration but its name and description. -/
theorem leaf_bare (footer method : String) (node : Node) :
    (leaf footer method node.bare).undescribed = (leaf footer method node).undescribed := by
  cases hleaf : node.leaf <;>
    simp [leaf, LeafPlan.undescribed, describeNode?, Node.bare, Node.name, hleaf]

section Types

variable (htypes : surface.typeNames = other.typeNames)
include htypes

/-- **Up to descriptions a group is that of the bare node.** -/
theorem group_bare (method : Option String) (node : Node) :
    (group surface footer method node.bare).undescribed =
      (group other footer method node).undescribed := by
  have htype : surface.typeName? node.bare.path = other.typeName? node.path := by
    rw [Surface.typeName?, Surface.typeName?, htypes]
    rfl
  have hprovider : (group surface footer method node.bare).provider.map LeafPlan.undescribed =
      (group other footer method node).provider.map LeafPlan.undescribed := by
    have hsome : node.bare.leaf.isSome = node.leaf.isSome := Option.isSome_map
    simp only [group, hsome]
    split
    · exact congrArg some (leaf_bare footer providerMethod node)
    · rfl
  have hleaves : (group surface footer method node.bare).leaves.map LeafPlan.undescribed =
      (group other footer method node).leaves.map LeafPlan.undescribed := by
    simp only [group, Node.members_bare, List.filter_map, List.map_map]
    have hshape : (fun member : Node => member.shape == .leaf) ∘ Node.bare =
        fun member => member.shape == .leaf := by
      funext member
      simp [Node.shape_bare]
    rw [hshape]
    exact List.map_congr_left fun member _ => leaf_bare footer (Plan.method member) member
  simp only [GroupPlan.undescribed, hprovider, hleaves]
  simp only [group, htype]
  rfl

/-- The nested groups are those of the bare forest, up to descriptions. -/
theorem groups_bare (path : List Segment) (forest : Forest Entry) :
    (groups surface footer path (forest.map Entry.bare)).map GroupPlan.undescribed =
      (groups other footer path forest).map GroupPlan.undescribed := by
  induction forest generalizing path with
  | nil => rfl
  | cons entry children siblings below beside =>
      have hnode : Node.below path entry.bare (children.map Entry.bare) =
          (Node.below path entry children).bare := rfl
      have hsegment : entry.bare.segment = entry.segment := rfl
      simp only [Forest.map, groups, hnode, hsegment, Node.shape_bare]
      split
      · exact beside path
      · rw [Forest.map, Forest.map, group_bare htypes, below, beside]
        rfl

end Types

/-- Up to descriptions the plan of a tree is that of the bare tree. -/
theorem plan_bare (tree : Tree) (rootType footer : String) :
    (group (.ofTree tree.bare rootType) footer none tree.bare.root).undescribed =
        (group (.ofTree tree rootType) footer none tree.root).undescribed ∧
      (groups (.ofTree tree.bare rootType) footer [] tree.bare.forest).map GroupPlan.undescribed =
        (groups (.ofTree tree rootType) footer [] tree.forest).map GroupPlan.undescribed :=
  ⟨group_bare (Surface.typeNames_bare tree rootType) none tree.root,
    groups_bare (Surface.typeNames_bare tree rootType) [] tree.forest⟩

end Plan

/-! ## Fingerprints -/

namespace Namespace.Tree

variable {kind kind' : Kind} {declarations others : List Declaration} {tree other : Tree}

/-- The bytes of which a fingerprint is the digest. -/
def canonicalBytes (tree : Tree) : ByteArray :=
  (canonicalText tree.lines).toUTF8

/-- The hash of a fingerprint is the digest of these bytes, in hexadecimal. -/
theorem hash_fingerprint (tree : Tree) :
    tree.fingerprint.hash = Text.hexBytes (Sha256.digest tree.canonicalBytes.toList) :=
  rfl

/-- **A fingerprint identifies the declared names.** -/
theorem fingerprint_identifies_names (h : ofDeclarations kind declarations = .ok tree)
    (hother : ofDeclarations kind' others = .ok other) :
    (tree.canonicalBytes = other.canonicalBytes ↔ kind = kind' ∧ SameNames declarations others) ∧
    (tree.canonicalBytes = other.canonicalBytes →
      tree.nodeCount = other.nodeCount ∧ tree.leafCount = other.leafCount ∧
      ∀ rootType footer,
        (Plan.group (.ofTree tree rootType) footer none tree.root).undescribed =
          (Plan.group (.ofTree other rootType) footer none other.root).undescribed ∧
        (Plan.groups (.ofTree tree rootType) footer [] tree.forest).map GroupPlan.undescribed =
          (Plan.groups (.ofTree other rootType) footer [] other.forest).map
            GroupPlan.undescribed) ∧
    ((tree.fingerprint.hash = other.fingerprint.hash →
        tree.canonicalBytes = other.canonicalBytes) →
      (tree.fingerprint.agrees other.fingerprint = true ↔
        kind = kind' ∧ SameNames declarations others)) := by
  have hbytes : tree.canonicalBytes = other.canonicalBytes ↔
      kind = kind' ∧ SameNames declarations others := by
    rw [← canonicalText_lines_eq_iff h hother]
    exact String.toByteArray_inj
  refine ⟨hbytes, fun heq => ?_, fun hdigest => ?_⟩
  · obtain ⟨rfl, hnames⟩ := hbytes.mp heq
    have hbare := bare_eq_of_same_names h hother hnames
    refine ⟨?_, ?_, fun rootType footer => ?_⟩
    · rw [← nodeCount_bare, hbare, nodeCount_bare]
    · rw [← leafCount_bare, hbare, leafCount_bare]
    · obtain ⟨hroot, hgroups⟩ := Plan.plan_bare tree rootType footer
      obtain ⟨hroot', hgroups'⟩ := Plan.plan_bare other rootType footer
      rw [← hroot, ← hgroups, hbare, hroot', hgroups']
      exact ⟨rfl, rfl⟩
  · rw [← hbytes, Fingerprint.agrees, Bool.and_eq_true, beq_iff_eq, beq_iff_eq]
    constructor
    · intro hgiven
      exact hdigest hgiven.2
    · intro heq
      refine ⟨?_, by rw [hash_fingerprint, hash_fingerprint, heq]⟩
      exact (represents_of_ofDeclarations h).1.trans
        ((hbytes.mp heq).1.trans (represents_of_ofDeclarations hother).1.symm)

/-- Two libraries under one alias, one of them elsewhere, have one fingerprint. -/
theorem fingerprint_of_moved_library :
    ∃ tree other, ofDeclarations .library [.library "ui.core" "g" "a"] = .ok tree ∧
      ofDeclarations .library [.library "ui.core" "h" "b"] = .ok other ∧
      tree.canonicalBytes = other.canonicalBytes ∧ tree.nodeCount = other.nodeCount ∧
      tree.fingerprint.agrees other.fingerprint = true := by
  obtain ⟨tree, h⟩ :=
    @exists_of_isOk _ _ (ofDeclarations .library [.library "ui.core" "g" "a"]) (by decide +kernel)
  obtain ⟨other, hother⟩ :=
    @exists_of_isOk _ _ (ofDeclarations .library [.library "ui.core" "h" "b"]) (by decide +kernel)
  have hnames : SameNames [.library "ui.core" "g" "a"] [.library "ui.core" "h" "b"] := by
    simp [SameNames, Declaration.library]
  obtain ⟨hbytes, hcounts, hagrees⟩ := fingerprint_identifies_names h hother
  have heq := hbytes.mpr ⟨rfl, hnames⟩
  exact ⟨tree, other, h, hother, heq, (hcounts heq).1, (hagrees fun _ => heq).mpr ⟨rfl, hnames⟩⟩

end Namespace.Tree

end AliasCatalog
