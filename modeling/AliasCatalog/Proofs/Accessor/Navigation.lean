import Mathlib.Data.List.Induction
import AliasCatalog.Proofs.Catalog.Stages

/-!
# Navigation and resolution

A declaration can be reached in two ways: by resolving its dotted alias against the tree, or by
walking through groups and asking the last one for a value.  The two ways were made for different
callers and report different errors, but they never disagree about what there is
(`follow_matches_resolve`): they yield the same object, both find a group without a declaration, or
both miss at the same name.  The walk says more about a miss, since it may be stopped by a declaration
that is no group before the missing name is asked for.
-/

namespace AliasCatalog.Namespace.Node

open Naming

variable {node found : Node} {resolved before after names : List String} {name : String}

/-- A walk by names that ends with `name` takes one step from where the names before it lead. -/
theorem descend_concat :
    node.descend resolved (before ++ [name]) = .ok found ↔
      ∃ parent, node.descend resolved before = .ok parent ∧ parent.child? name = some found := by
  induction before generalizing node resolved with
  | nil =>
      cases hchild : node.child? name <;> simp [descend, hchild]
  | cons first before ih =>
      cases hchild : node.child? first with
      | none => simp [descend, hchild]
      | some child =>
          simp only [List.cons_append, descend, hchild]
          exact ih

/-- A walk goes on from where its first names lead. -/
theorem descend_append (h : node.descend resolved before = .ok found) :
    node.descend resolved (before ++ after) = found.descend (resolved ++ before) after := by
  induction before generalizing node resolved with
  | nil =>
      cases h
      simp
  | cons first before ih =>
      cases hchild : node.child? first with
      | none => simp [descend, hchild] at h
      | some child =>
          simp only [descend, hchild] at h
          simp only [List.cons_append, descend, hchild, ih h, List.append_assoc, List.nil_append]

/-- **A walk reaches a node or misses at a first name**, the names before which lead to a node. -/
theorem descend_cases (node : Node) (resolved names : List String) :
    (∃ found, node.descend resolved names = .ok found) ∨
      ∃ before name after found, names = before ++ name :: after ∧
        node.descend resolved before = .ok found ∧ found.child? name = none := by
  induction names generalizing node resolved with
  | nil => exact .inl ⟨node, rfl⟩
  | cons first rest ih =>
      cases hchild : node.child? first with
      | none => exact .inr ⟨[], first, rest, node, rfl, rfl, hchild⟩
      | some child =>
          simp only [descend, hchild]
          rcases ih child (resolved ++ [first]) with hreach | hmiss
          · exact .inl hreach
          · obtain ⟨before, name, after, found, rfl, hfound, hnone⟩ := hmiss
            refine .inr ⟨first :: before, name, after, found, rfl, ?_, hnone⟩
            simpa only [descend, hchild] using hfound

/-- A walk ends at the first name that finds no child, and reports what it took before. -/
theorem descend_miss (hfound : node.descend resolved before = .ok found)
    (hmiss : found.child? name = none) :
    node.descend resolved (before ++ name :: after) =
      .error ⟨name, joinDots (resolved ++ before)⟩ := by
  rw [descend_append hfound, descend, hmiss]

/-- A node with a child is no leaf. -/
theorem shape_ne_leaf_of_child? (h : node.child? name = some found) : node.shape ≠ .leaf := by
  intro hleaf
  cases hchildren : node.children with
  | nil => cases hkey : key? name <;> simp [child?, hkey, hchildren, Forest.trees] at h
  | cons entry children siblings =>
      cases hdeclared : node.leaf <;>
        simp [shape, hdeclared, hchildren, Forest.isEmpty] at hleaf

end AliasCatalog.Namespace.Node

namespace AliasCatalog.Accessor

open Naming Namespace

/-! ## One step -/

namespace Child

variable {surface : Surface} {node : Node}

/-- The accessor of a node yields the value the node declares. -/
theorem provider?_ofNode : (ofNode surface node).provider? = Provider.ofNode? node := by
  cases hprovider : Provider.ofNode? node with
  | none => simp [ofNode, hprovider, provider?]
  | some provider =>
      cases hempty : node.children.isEmpty <;> simp [ofNode, hprovider, hempty, provider?]

/-- The accessor of a node yields its group unless the node is a leaf. -/
theorem view?_ofNode :
    (ofNode surface node).view? = if node.shape = .leaf then none else some ⟨surface, node⟩ := by
  cases hleaf : node.leaf <;> cases hempty : node.children.isEmpty <;>
    simp [ofNode, Provider.ofNode?, Node.shape, view?, hleaf, hempty]

end Child

namespace View

variable {surface : Surface} {node found : Node} {name : String}

/-- Walks down through groups, one name after the other. -/
def through (view : View) : List String → Except LookupError View
  | [] => .ok view
  | name :: rest =>
      match view.group name with
      | .ok nested => nested.through rest
      | .error error => .error error

/-- Walks down through groups and asks the last one for a declaration. -/
def follow (view : View) (groups : List String) (last : String) : Except LookupError Provider :=
  match view.through groups with
  | .ok nested => nested.value last
  | .error error => .error error

/-- A child that is no leaf is a group. -/
theorem group_of_child? (h : node.child? name = some found) (hshape : found.shape ≠ .leaf) :
    group ⟨surface, node⟩ name = .ok ⟨surface, found⟩ := by
  simp [group, get?, h, Child.view?_ofNode, hshape]

/-- A leaf is refused as a group, under the path as typed. -/
theorem group_of_leaf (h : node.child? name = some found) (hshape : found.shape = .leaf) :
    group ⟨surface, node⟩ name =
      .error (.notAGroup surface.kind (childPath ⟨surface, node⟩ name)) := by
  simp [group, get?, h, Child.view?_ofNode, hshape, kind]

/-- A name that finds no child is reported with the path of the group. -/
theorem group_of_miss (h : node.child? name = none) :
    group ⟨surface, node⟩ name = .error (.notFound surface.kind name node.name) := by
  simp [group, get?, h, kind, path]

/-- A child yields its value, or is refused under the path as typed. -/
theorem value_of_child? (h : node.child? name = some found) :
    value ⟨surface, node⟩ name =
      match Provider.ofNode? found with
      | some provider => .ok provider
      | none => .error (.notADeclaration surface.kind (childPath ⟨surface, node⟩ name)) := by
  simp only [value, get?, h, Option.map_some, Child.provider?_ofNode]
  rfl

/-- A name that finds no child is reported in the same way when a value is asked for. -/
theorem value_of_miss (h : node.child? name = none) :
    value ⟨surface, node⟩ name = .error (.notFound surface.kind name node.name) := by
  simp [value, get?, h, kind, path]

/-! ## Walks through groups -/

/-- A walk through groups can be taken in two parts. -/
theorem through_append {view nested : View} {before after : List String}
    (h : view.through before = .ok nested) :
    view.through (before ++ after) = nested.through after := by
  induction before generalizing view with
  | nil =>
      cases h
      rfl
  | cons first before ih =>
      cases hgroup : view.group first with
      | error error => simp [through, hgroup] at h
      | ok inner =>
          simp only [through, hgroup] at h
          simp only [List.cons_append, through, hgroup]
          exact ih h

/-- A walk ends with the error of the first group that is refused. -/
theorem through_of_error {view nested : View} {before after : List String} {name : String}
    {error : LookupError} (h : view.through before = .ok nested)
    (herror : nested.group name = .error error) :
    view.through (before ++ name :: after) = .error error := by
  rw [through_append h, through, herror]

/-- **A walk through groups keeps up with the walk through nodes**: a node that is reached and is no
leaf is reached as a group, since all nodes before it have children. -/
theorem through_of_descend {names resolved : List String}
    (h : node.descend resolved names = .ok found) (hshape : found.shape ≠ .leaf) :
    through ⟨surface, node⟩ names = .ok ⟨surface, found⟩ := by
  induction names using List.reverseRecOn generalizing found with
  | nil =>
      cases h
      rfl
  | append_singleton before name ih =>
      obtain ⟨parent, hparent, hchild⟩ := Node.descend_concat.mp h
      rw [through_append (ih hparent (Node.shape_ne_leaf_of_child? hchild)), through,
        group_of_child? hchild hshape]
      rfl

/-- A leaf that is reached stops the walk through groups at its own name. -/
theorem exists_group_of_leaf {names : List String}
    (h : node.descend [] names = .ok found) (hstart : node.leaf = none)
    (hshape : found.shape = .leaf) :
    ∃ outer name parent, names = outer ++ [name] ∧
      through ⟨surface, node⟩ outer = .ok parent ∧
      parent.group name = .error (.notAGroup surface.kind (parent.childPath name)) := by
  cases names using List.reverseRecOn with
  | nil =>
      cases h
      simp [Node.shape, hstart] at hshape
  | append_singleton outer name =>
      obtain ⟨parent, hparent, hchild⟩ := Node.descend_concat.mp h
      exact ⟨outer, name, ⟨surface, parent⟩, rfl,
        through_of_descend hparent (Node.shape_ne_leaf_of_child? hchild),
        group_of_leaf hchild hshape⟩

end View

/-! ## Both ways -/

/-- How the answer of resolution stands to the answer of a walk through groups by the same names. -/
inductive Matches (surface : Surface) (names : List String) :
    Except LookupError Provider → Except LookupError Provider → Prop where
  /-- Both yield one object. -/
  | found (provider : Provider) : Matches surface names (.ok provider) (.ok provider)
  /-- Both find a group without a declaration. -/
  | undeclared (path other : String) :
      Matches surface names (.error (.notADeclaration surface.kind path))
        (.error (.notADeclaration surface.kind other))
  /-- Both miss at one name: the first reports the names before it as typed, the second the path of
  the group they lead to. -/
  | missing {before after : List String} {segment : String} {node : Node}
      (split : names = before ++ segment :: after)
      (reached : surface.tree.root.descend [] before = .ok node)
      (miss : node.child? segment = none) (shape : node.shape ≠ .leaf) :
      Matches surface names (.error (.notFound surface.kind segment (joinDots before)))
        (.error (.notFound surface.kind segment node.name))
  /-- The names before a missing one lead to a leaf, and the walk is stopped when it asks for that leaf
  as a group. -/
  | stopped {outer after : List String} {name segment : String} {node : Node} {parent : View}
      (split : names = outer ++ [name] ++ segment :: after)
      (reached : surface.tree.root.descend [] (outer ++ [name]) = .ok node)
      (miss : node.child? segment = none) (shape : node.shape = .leaf)
      (walked : surface.root.through outer = .ok parent)
      (refused : parent.group name = .error (.notAGroup surface.kind (parent.childPath name))) :
      Matches surface names (.error (.notFound surface.kind segment (joinDots (outer ++ [name]))))
        (.error (.notAGroup surface.kind (parent.childPath name)))

namespace Matches

variable {surface : Surface} {names : List String} {resolved followed : Except LookupError Provider}

/-- Matching lookups succeed together, with one value. -/
theorem ok_iff (h : Matches surface names resolved followed) (provider : Provider) :
    resolved = .ok provider ↔ followed = .ok provider := by
  cases h <;> simp

/-- Matching lookups find a group without a declaration together. -/
theorem notADeclaration_iff (h : Matches surface names resolved followed) :
    (∃ path, resolved = .error (.notADeclaration surface.kind path)) ↔
      ∃ path, followed = .error (.notADeclaration surface.kind path) := by
  cases h <;> simp

end Matches

namespace Surface

variable {surface : Surface}

/-- To resolve names that are joined by dots is to walk them from the root. -/
theorem resolve_joinDots {names : List String} (hne : names ≠ [])
    (hdots : ∀ name ∈ names, '.' ∉ name.toList) :
    surface.resolve (joinDots names) =
      match surface.tree.root.descend [] names with
      | .error missing => .error (.notFound surface.kind missing.segment missing.resolved)
      | .ok node =>
          match Provider.ofNode? node with
          | some provider => .ok provider
          | none => .error (.notADeclaration surface.kind (joinDots names)) := by
  have hfind : surface.tree.find (joinDots names) = surface.tree.root.descend [] names := by
    rw [Tree.find, splitDots_joinDots_of_dotless hne hdots]
  unfold resolve
  cases hdescend : surface.tree.root.descend [] names with
  | error missing => simp only [hfind, hdescend]
  | ok node => cases hprovider : Provider.ofNode? node <;> simp only [hfind, hdescend, hprovider]

end Surface

/-- The last of several names is the one a split stands at, or it comes after that. -/
theorem concat_eq_append_cons_iff {groups before after : List String} {last segment : String} :
    groups ++ [last] = before ++ segment :: after ↔
      (groups = before ∧ last = segment ∧ after = []) ∨
        ∃ later, groups = before ++ segment :: later ∧ after = later ++ [last] := by
  constructor
  · intro h
    rcases List.eq_nil_or_concat after with rfl | ⟨later, final, rfl⟩
    · obtain ⟨rfl, hlast⟩ := List.append_inj' h rfl
      exact .inl ⟨rfl, List.singleton_inj.mp hlast, rfl⟩
    · rw [List.concat_eq_append, ← List.cons_append, ← List.append_assoc] at h
      obtain ⟨rfl, hlast⟩ := List.append_inj' h rfl
      obtain rfl := List.singleton_inj.mp hlast
      exact .inr ⟨later, rfl, by simp⟩
  · intro hgiven
    rcases hgiven with ⟨rfl, rfl, rfl⟩ | ⟨later, rfl, rfl⟩
    · rfl
    · simp

namespace View

variable {surface : Surface} {groups : List String} {last : String}

/-- When all names lead on, both ways end at one node. -/
theorem matches_of_descend {names : List String} {parent node : Node}
    (hreached : surface.tree.root.descend [] groups = .ok parent)
    (hchild : parent.child? last = some node) :
    Matches surface names
      (match Provider.ofNode? node with
        | some provider => .ok provider
        | none => .error (.notADeclaration surface.kind (joinDots (groups ++ [last]))))
      (surface.root.follow groups last) := by
  have hwalk : surface.root.through groups = .ok ⟨surface, parent⟩ :=
    through_of_descend hreached (Node.shape_ne_leaf_of_child? hchild)
  rw [follow, hwalk]
  simp only [value_of_child? hchild]
  cases Provider.ofNode? node with
  | some provider => exact .found provider
  | none => exact .undeclared _ _

/-- A miss ends the walk through groups as well, be it that a leaf before it is refused as a group. -/
theorem matches_of_miss {before after : List String} {segment : String} {node : Node}
    (hsplit : groups ++ [last] = before ++ segment :: after)
    (hreached : surface.tree.root.descend [] before = .ok node)
    (hmiss : node.child? segment = none) :
    Matches surface (groups ++ [last]) (.error (.notFound surface.kind segment (joinDots before)))
      (surface.root.follow groups last) := by
  by_cases hshape : node.shape = .leaf
  · obtain ⟨outer, name, parent, rfl, hwalk, hrefused⟩ :=
      @exists_group_of_leaf surface _ _ before hreached rfl hshape
    obtain ⟨later, hgroups⟩ : ∃ later, groups = outer ++ name :: later := by
      rcases concat_eq_append_cons_iff.mp hsplit with ⟨rfl, _, _⟩ | ⟨later, rfl, _⟩
      · exact ⟨[], rfl⟩
      · exact ⟨segment :: later, by simp⟩
    have hstop : surface.root.through groups =
        .error (.notAGroup surface.kind (parent.childPath name)) :=
      hgroups ▸ through_of_error hwalk hrefused
    rw [follow, hstop]
    exact .stopped hsplit hreached hmiss hshape hwalk hrefused
  · have hwalk : surface.root.through before = .ok ⟨surface, node⟩ :=
      through_of_descend hreached hshape
    have hstop : surface.root.follow groups last =
        .error (.notFound surface.kind segment node.name) := by
      rcases concat_eq_append_cons_iff.mp hsplit with ⟨rfl, rfl, _⟩ | ⟨later, rfl, _⟩
      · rw [follow, hwalk]
        exact value_of_miss hmiss
      · rw [follow, through_of_error hwalk (group_of_miss hmiss)]
    rw [hstop]
    exact .missing hsplit hreached hmiss hshape

end View

namespace Surface

variable {surface : Surface}

/-- **Resolving a dotted name matches the walk through views** along its parts. -/
theorem matches_resolve_follow (surface : Surface) (groups : List String) (last : String)
    (hdots : ∀ name ∈ groups ++ [last], '.' ∉ name.toList) :
    Matches surface (groups ++ [last]) (surface.resolve (joinDots (groups ++ [last])))
      (surface.root.follow groups last) := by
  rw [resolve_joinDots (by simp) hdots]
  rcases Node.descend_cases surface.tree.root [] (groups ++ [last]) with ⟨node, hreached⟩ |
    ⟨before, segment, after, node, hsplit, hreached, hmiss⟩
  · rw [hreached]
    obtain ⟨parent, hparent, hchild⟩ := Node.descend_concat.mp hreached
    exact View.matches_of_descend hparent hchild
  · have hwalk := @Node.descend_miss _ _ _ _ after _ hreached hmiss
    rw [hsplit, hwalk, ← hsplit]
    exact View.matches_of_miss hsplit hreached hmiss

/-- **Navigation and resolution agree.**  For names without dots, resolving the dotted text and walking
through the groups of all names but the last match: they yield the same object or none, and they find a
group without a declaration or none.  When resolution misses at a name, so does the walk, unless the
names before it lead to a leaf, which the walk is refused as a group.  Nothing else happens. -/
theorem follow_matches_resolve (surface : Surface) (groups : List String) (last : String)
    (hdots : ∀ name ∈ groups ++ [last], '.' ∉ name.toList) :
    Matches surface (groups ++ [last]) (surface.resolve (joinDots (groups ++ [last])))
      (surface.root.follow groups last) ∧
    (∀ provider, surface.resolve (joinDots (groups ++ [last])) = .ok provider ↔
      surface.root.follow groups last = .ok provider) ∧
    ((∃ path, surface.resolve (joinDots (groups ++ [last])) =
        .error (.notADeclaration surface.kind path)) ↔
      ∃ path, surface.root.follow groups last = .error (.notADeclaration surface.kind path)) := by
  have hmatches := matches_resolve_follow surface groups last hdots
  exact ⟨hmatches, hmatches.ok_iff, hmatches.notADeclaration_iff⟩

/-- Both ways reach the library below an ambiguous one under another spelling. -/
theorem follow_below_ambiguous :
    ∃ tree, Tree.ofDeclarations .library [.library "ui" "g" "a", .library "ui.core" "g" "b"] = .ok tree ∧
      (∀ name ∈ ["ui_"] ++ ["-core"], '.' ∉ name.toList) ∧
      (ofTree tree "LibrariesForLibs").resolve "ui_.-core" = .ok
        ⟨.library, segmentsOf "ui.core", .library ⟨"ui.core", "g", "b", none, none⟩⟩ ∧
      (ofTree tree "LibrariesForLibs").root.follow ["ui_"] "-core" = .ok
        ⟨.library, segmentsOf "ui.core", .library ⟨"ui.core", "g", "b", none, none⟩⟩ := by
  obtain ⟨tree, h⟩ :=
    @exists_of_isOk _ _
      (Tree.ofDeclarations .library [.library "ui" "g" "a", .library "ui.core" "g" "b"])
      (by decide +kernel)
  have hdots : ∀ name ∈ ["ui_"] ++ ["-core"], '.' ∉ name.toList := by decide
  have hresolve : (Tree.ofDeclarations .library
      [.library "ui" "g" "a", .library "ui.core" "g" "b"]).map
        (fun tree => (ofTree tree "LibrariesForLibs").resolve "ui_.-core") = .ok (.ok
          ⟨.library, segmentsOf "ui.core", .library ⟨"ui.core", "g", "b", none, none⟩⟩) := by
    decide +kernel
  rw [h] at hresolve
  have hfound := Except.ok.inj hresolve
  have hagree := (follow_matches_resolve (ofTree tree "LibrariesForLibs") ["ui_"] "-core" hdots).2.1
  exact ⟨tree, h, hdots, hfound, (hagree _).mp hfound⟩

end Surface

end AliasCatalog.Accessor
