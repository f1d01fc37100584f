import AliasCatalog.Proofs.Accessor.Coherence
import AliasCatalog.Proofs.Plan.Presentation

/-!
# Plans and views

A plan is made from the nodes of a tree, and what a consumer of the catalog walks through are views.  The
two tell the same: a group of a plan has what its view answers for itself, one leaf for each member that
is a leaf, and the groups of the other members nested in it, in the order of the members (`table_eq`).
The nested groups are again those of views, so all that a plan lists is what the views show
(`exists_view_of_mem_tables`).
-/

namespace AliasCatalog

open Accessor Namespace Naming

namespace Accessor

/-- The leaf of a plan for a member of a view. -/
def Member.leafPlan (footer : String) (member : Member) : LeafPlan :=
  ⟨member.name, member.method, member.description.toList ++ [footer]⟩

/-- The accessor type of a view, told by what the view answers. -/
def View.groupPlan (footer : String) (method : Option String) (view : View) : GroupPlan where
  path := view.path
  typeName := view.typeName
  method := method
  provider := view.provider?.map fun _ =>
    ⟨view.path, providerMethod, view.providerDescription?.toList ++ [footer]⟩
  leaves := (view.members.filter (·.child.shape == .leaf)).map (·.leafPlan footer)

/-- The accessor of a node has the shape of the node. -/
theorem Child.shape_ofNode (surface : Surface) (node : Node) :
    (ofNode surface node).shape = node.shape := by
  cases hleaf : node.leaf <;> cases hempty : node.children.isEmpty <;>
    simp [ofNode, Provider.ofNode?, shape, Node.shape, hleaf, hempty]

end Accessor

namespace Plan

variable {footer : String}

/-- The group of a view, with the groups nested in it. -/
def table (footer : String) (method : Option String) (view : View) :
    GroupPlan × Forest GroupPlan :=
  (group view.surface footer method view.node,
    groups view.surface footer view.node.path view.node.children)

/-- The leaves of a group are those of the members of its view. -/
theorem leaves_eq (method : Option String) (view : View) :
    (group view.surface footer method view.node).leaves =
      (view.members.filter (·.child.shape == .leaf)).map (·.leafPlan footer) := by
  have hshape : (fun member : Member => member.child.shape == .leaf) ∘ view.memberOf =
      (fun node : Node => node.shape == .leaf) ∘
        fun tree => Node.below view.node.path tree.1 tree.2 := by
    funext tree
    simp [View.memberOf, Child.shape_ofNode]
  rw [View.members_eq_map, List.filter_map, List.map_map, hshape]
  simp only [group, Node.members, List.filter_map, List.map_map]
  refine List.map_congr_left fun tree _ => ?_
  simp only [Function.comp_apply, leaf, method_below]
  rfl

/-- The groups nested in a group are those of the members of its view that are no leaves. -/
theorem trees_groups (view : View) (forest : Forest Entry) :
    (groups view.surface footer view.node.path forest).trees =
      (forest.trees.map view.memberOf).filterMap fun member =>
        member.child.view?.map (table footer (some member.method)) := by
  induction forest with
  | nil => rfl
  | cons entry children siblings _ beside =>
      by_cases hshape : (Node.below view.node.path entry children).shape = .leaf
      · rw [groups_cons_of_leaf hshape, beside]
        simp [Forest.trees, View.memberOf, Child.view?_ofNode, hshape]
      · rw [groups_cons_of_group hshape, Forest.trees, beside, Forest.trees, List.map_cons,
          List.filterMap_cons]
        simp only [View.memberOf, Child.view?_ofNode, if_neg hshape, Option.map_some, method_below]
        rfl

/-- **A group of a plan is what its view shows**: the view's own answers, and its members in their
order. -/
theorem table_eq (method : Option String) (view : View) :
    (table footer method view).1 = view.groupPlan footer method ∧
      (table footer method view).2.trees = view.members.filterMap fun member =>
        member.child.view?.map (table footer (some member.method)) := by
  refine ⟨?_, ?_⟩
  · have hprovider : (group view.surface footer method view.node).provider =
        view.provider?.map fun _ =>
          ⟨view.path, providerMethod, view.providerDescription?.toList ++ [footer]⟩ := by
      rw [View.provider?, Provider.ofNode?, Option.map_map]
      cases hleaf : view.node.leaf <;> simp [group, leaf, hleaf, View.path, View.providerDescription?]
    rw [View.groupPlan, ← hprovider, ← leaves_eq method]
    rfl
  · rw [View.members_eq_map]
    exact trees_groups view view.node.children

/-- **All that a plan lists is what the views show.**  The root's group is that of the root's view, and
every group is that of a view of the surface. -/
theorem exists_view_of_mem_tables {surface : Surface} {source : String} :
    ((kind surface source).root, (kind surface source).groups) =
        table (Plan.footer surface.kind source) none surface.root ∧
      ∀ listed ∈ tables (kind surface source), ∃ view method, view.surface = surface ∧
        listed = table (Plan.footer surface.kind source) method view := by
  refine ⟨rfl, fun listed hlisted => ?_⟩
  obtain ⟨node, _, method, rfl⟩ := exists_node_of_mem_tables hlisted
  exact ⟨⟨surface, node⟩, method, rfl, rfl⟩

end Plan

end AliasCatalog
