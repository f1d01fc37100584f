import AliasCatalog.Proofs.Accessor.Navigation
import AliasCatalog.Proofs.Catalog.Resolution
import AliasCatalog.Proofs.Namespace.Mirror
import AliasCatalog.Proofs.Naming.Grammar

/-!
# Shared objects

A surface makes one object for each declaration and one view for each group, and every way to them hands
out the same one.  There are many ways: a dotted text under any spelling, a walk through groups, a child
asked for as it is, the self accessor of a group, or a member of a listing.  Whatever way is taken, the
names asked for on it have the keys of the node it ends at, and keys tell the nodes of a tree apart
(`descend_root_iff`).  So two ways end at one object exactly when they lead to one declared name
(`shares_of_ofDeclarations`).
-/

namespace AliasCatalog

open Naming

namespace Namespace

/-! ## Names and nodes -/

/-- The texts of the segments of a path have the keys of the path. -/
theorem map_key?_texts (path : List Segment) :
    (path.map (·.text)).map key? = pathKeys path := by
  simp [pathKeys]

/-- So have the texts of their identifiers. -/
theorem map_key?_identifiers (path : List Segment) :
    (path.map (·.identifier.text)).map key? = pathKeys path := by
  simp [pathKeys, Segment.key?_identifier]

namespace Tree.Represents

variable {tree : Tree} {declarations : List Declaration} {node parent other : Node}
  {name : String} {names : List String}

/-- Nodes with the same keys on their paths are one node. -/
theorem eq_of_pathKeys_eq (h : tree.Represents declarations) (hnode : node ∈ tree.nodes)
    (hother : other ∈ tree.nodes) (hkeys : pathKeys node.path = pathKeys other.path) :
    node = other := by
  have hnodup : (tree.nodes.map (·.keys)).Nodup := by
    refine List.pairwise_map.mpr (h.pairwise_nodes.imp fun hlt heq => ?_)
    rw [heq] at hlt
    exact List.lt_irrefl _ hlt
  have hsome : ∀ {node : Node}, pathKeys node.path = node.keys.map some := by
    intro node
    rw [Node.keys, List.map_map]
    rfl
  rw [hsome, hsome] at hkeys
  exact List.inj_on_of_nodup_map hnodup hnode hother
    ((List.map_inj_right fun _ _ => Option.some.inj).mp hkeys)

/-- **Names lead from the root to the node with their keys** and to no other.  The induction is from the
right, where the walk takes its last step from a node of the tree. -/
theorem descend_root_iff (h : tree.Represents declarations) :
    tree.root.descend [] names = .ok node ↔
      node ∈ tree.nodes ∧ pathKeys node.path = names.map key? := by
  induction names using List.reverseRecOn generalizing node with
  | nil =>
      constructor
      · intro hgiven
        cases hgiven
        exact ⟨List.mem_cons_self, rfl⟩
      · rintro ⟨hnode, hkeys⟩
        rw [h.eq_of_pathKeys_eq hnode List.mem_cons_self hkeys]
        rfl
  | append_singleton before name ih =>
      rw [Node.descend_concat, List.map_append]
      constructor
      · rintro ⟨parent, hreached, hchild⟩
        obtain ⟨hparent, hkeys⟩ := ih.mp hreached
        obtain ⟨hnode, segment, hpath, hkey⟩ := (h.child?_iff hparent).mp hchild
        refine ⟨hnode, ?_⟩
        rw [hpath, pathKeys, List.map_append, ← hkeys, List.map_singleton, List.map_singleton, hkey]
        rfl
      · rintro ⟨hnode, hkeys⟩
        rcases List.eq_nil_or_concat node.path with hnil | ⟨front, segment, hpath⟩
        · simp [hnil, pathKeys] at hkeys
        · rw [List.concat_eq_append] at hpath
          rw [hpath, pathKeys, List.map_append] at hkeys
          obtain ⟨hfront, hkey⟩ := List.append_inj' hkeys rfl
          obtain ⟨d, hd, rest, hsplit⟩ := h.exists_declared hnode (by simp [hpath])
          rw [hpath, List.append_assoc] at hsplit
          obtain ⟨parent, hparent, rfl⟩ := h.exists_node hd hsplit
          exact ⟨parent, ih.mpr ⟨hparent, hfront⟩, (h.child?_iff hparent).mpr
            ⟨hnode, segment, hpath, (List.singleton_inj.mp hkey).symm⟩⟩

/-- Names without dots that have the keys of a node find it, joined to one text. -/
theorem find_joinDots (h : tree.Represents declarations) (hnode : node ∈ tree.nodes)
    (hroot : node ≠ tree.root) (hkeys : names.map key? = pathKeys node.path)
    (hdots : ∀ name ∈ names, '.' ∉ name.toList) : tree.find (joinDots names) = .ok node := by
  have hne : names ≠ [] := by
    rintro rfl
    exact h.path_ne_nil hnode hroot (List.map_eq_nil_iff.mp hkeys.symm)
  rw [Tree.find, splitDots_joinDots_of_dotless hne hdots]
  exact h.descend_root_iff.mpr ⟨hnode, hkeys.symm⟩

/-- A node is found under its name. -/
theorem find_name (h : tree.Represents declarations) (hnode : node ∈ tree.nodes)
    (hroot : node ≠ tree.root) : tree.find node.name = .ok node := by
  refine h.find_joinDots hnode hroot (map_key?_texts _) (List.forall_mem_map.mpr ?_)
  exact fun segment _ => segment.dot_notMem

/-- A node is found under its identifiers. -/
theorem find_identifiers (h : tree.Represents declarations) (hnode : node ∈ tree.nodes)
    (hroot : node ≠ tree.root) :
    tree.find (joinDots (node.identifiers.map (·.text))) = .ok node := by
  rw [Node.identifiers, List.map_map]
  refine h.find_joinDots hnode hroot (map_key?_identifiers _) (List.forall_mem_map.mpr ?_)
  exact fun segment _ => segment.dot_notMem_identifier

/-- Two walks end at one node exactly when their names have the same keys. -/
theorem eq_iff_of_descend (h : tree.Represents declarations) {others : List String}
    (hnode : tree.root.descend [] names = .ok node)
    (hother : tree.root.descend [] others = .ok other) :
    node = other ↔ names.map key? = others.map key? := by
  obtain ⟨hmem, hkeys⟩ := h.descend_root_iff.mp hnode
  obtain ⟨hmem', hkeys'⟩ := h.descend_root_iff.mp hother
  rw [← hkeys, ← hkeys']
  constructor
  · rintro rfl
    rfl
  · exact h.eq_of_pathKeys_eq hmem hmem'

end Tree.Represents

end Namespace

namespace Accessor

open Namespace Catalog

/-! ## One step -/

/-- The group of a child is the view of the child's own node. -/
theorem Child.eq_of_view? {surface : Surface} {node : Node} {nested : View}
    (h : (ofNode surface node).view? = some nested) : nested = ⟨surface, node⟩ := by
  rw [view?_ofNode] at h
  split at h
  · cases h
  · exact (Option.some.inj h).symm

namespace View

variable {view nested : View} {name : String} {provider : Provider} {member : Member}

/-- A name is answered by the group that its child yields. -/
theorem group_eq_ok_iff :
    view.group name = .ok nested ↔
      ∃ child, view.get? name = some child ∧ child.view? = some nested := by
  cases hget : view.get? name with
  | none => simp [group, hget]
  | some child => cases hview : child.view? <;> simp [group, hget, hview]

/-- A name is answered by the value that its child yields. -/
theorem value_eq_ok_iff :
    view.value name = .ok provider ↔
      ∃ child, view.get? name = some child ∧ child.provider? = some provider := by
  cases hget : view.get? name with
  | none => simp [value, hget]
  | some child => cases hprovider : child.provider? <;> simp [value, hget, hprovider]

/-- Each member of a view is that of a member of the view's node. -/
theorem exists_of_mem_members (h : member ∈ view.members) :
    ∃ node ∈ view.node.members, member.name = node.name ∧
      member.child = Child.ofNode view.surface node := by
  obtain ⟨node, hnode, hmember⟩ := List.mem_filterMap.mp h
  obtain ⟨identifier, _, rfl⟩ := Option.map_eq_some_iff.mp hmember
  exact ⟨node, hnode, rfl, rfl⟩

end View

/-- What resolves is the value of a found node. -/
theorem Surface.exists_of_resolve {surface : Surface} {dotted : String} {provider : Provider}
    (h : surface.resolve dotted = .ok provider) :
    ∃ node, surface.tree.find dotted = .ok node ∧ Provider.ofNode? node = some provider := by
  unfold Surface.resolve at h
  cases hfind : surface.tree.find dotted with
  | error missing => simp [hfind] at h
  | ok node =>
      refine ⟨node, rfl, ?_⟩
      cases hprovider : Provider.ofNode? node with
      | none => simp [hfind, hprovider] at h
      | some other =>
          simp only [hfind, hprovider, Except.ok.injEq] at h
          rw [h]

/-! ## Ways -/

/-- The ways to the groups of a surface, each with the names asked for on it. -/
inductive Opens (surface : Surface) : List String → View → Prop where
  | root : Opens surface [] surface.root
  /-- A child is asked for as a group. -/
  | group {names : List String} {view nested : View} {name : String}
      (opened : Opens surface names view) (found : view.group name = .ok nested) :
      Opens surface (names ++ [name]) nested
  /-- A child is asked for as it is and yields a group. -/
  | child {names : List String} {view nested : View} {name : String} {child : Child}
      (opened : Opens surface names view) (found : view.get? name = some child)
      (yielded : child.view? = some nested) : Opens surface (names ++ [name]) nested
  /-- A member is taken from the listing of a group, where it is named by its whole path. -/
  | member {names : List String} {view nested : View} {member : Member}
      (opened : Opens surface names view) (listed : member ∈ view.members)
      (yielded : member.child.view? = some nested) : Opens surface (splitDots member.name) nested

/-- The ways to the values of a surface, each with the names asked for on it. -/
inductive Yields (surface : Surface) : List String → Provider → Prop where
  /-- A dotted text is resolved. -/
  | resolve {dotted : String} {provider : Provider}
      (found : surface.resolve dotted = .ok provider) : Yields surface (splitDots dotted) provider
  /-- A child of a group is asked for as a declaration. -/
  | value {names : List String} {view : View} {name : String} {provider : Provider}
      (opened : Opens surface names view) (found : view.value name = .ok provider) :
      Yields surface (names ++ [name]) provider
  /-- A child is asked for as it is and yields a value. -/
  | child {names : List String} {view : View} {name : String} {child : Child} {provider : Provider}
      (opened : Opens surface names view) (found : view.get? name = some child)
      (yielded : child.provider? = some provider) : Yields surface (names ++ [name]) provider
  /-- A group is asked for its own declaration. -/
  | itself {names : List String} {view : View} {provider : Provider}
      (opened : Opens surface names view) (yielded : view.provider? = some provider) :
      Yields surface names provider
  /-- A member is taken from the listing of a group. -/
  | member {names : List String} {view : View} {member : Member} {provider : Provider}
      (opened : Opens surface names view) (listed : member ∈ view.members)
      (yielded : member.child.provider? = some provider) :
      Yields surface (splitDots member.name) provider

section Ways

variable {surface : Surface} {declarations : List Declaration} {names : List String}
  {name : String} {view : View} {child : Child} {provider : Provider} {member : Member}

/-- A child asked for by name is that of the node the names lead to. -/
theorem exists_node_of_get? (hreached : surface.tree.root.descend [] names = .ok view.node)
    (h : view.get? name = some child) :
    ∃ node, surface.tree.root.descend [] (names ++ [name]) = .ok node ∧
      child = Child.ofNode view.surface node := by
  obtain ⟨node, hchild, rfl⟩ := Option.map_eq_some_iff.mp h
  exact ⟨node, Node.descend_concat.mpr ⟨view.node, hreached, hchild⟩, rfl⟩

/-- The child of a member is that of the node its own name leads to. -/
theorem exists_node_of_member (hrep : surface.tree.Represents declarations)
    (hreached : surface.tree.root.descend [] names = .ok view.node) (h : member ∈ view.members) :
    ∃ node, surface.tree.root.descend [] (splitDots member.name) = .ok node ∧
      member.child = Child.ofNode view.surface node := by
  obtain ⟨node, hmember, hname, hchild⟩ := View.exists_of_mem_members h
  have hview := (hrep.descend_root_iff.mp hreached).1
  obtain ⟨hnode, segment, hpath⟩ := (hrep.mem_members_iff hview).mp hmember
  have hroot : node ≠ surface.tree.root := by
    rintro rfl
    exact List.append_ne_nil_of_right_ne_nil _ (List.cons_ne_nil _ _) hpath.symm
  exact ⟨node, hname ▸ hrep.find_name hnode hroot, hchild⟩

/-- **Every way to a group walks the tree by its names.** -/
theorem Opens.descend (hrep : surface.tree.Represents declarations)
    (h : Opens surface names view) :
    view.surface = surface ∧ surface.tree.root.descend [] names = .ok view.node := by
  induction h with
  | root => exact ⟨rfl, rfl⟩
  | group _ found ih =>
      obtain ⟨child, hget, hyielded⟩ := View.group_eq_ok_iff.mp found
      obtain ⟨node, hnode, rfl⟩ := exists_node_of_get? ih.2 hget
      obtain rfl := Child.eq_of_view? hyielded
      exact ⟨ih.1, hnode⟩
  | child _ found yielded ih =>
      obtain ⟨node, hnode, rfl⟩ := exists_node_of_get? ih.2 found
      obtain rfl := Child.eq_of_view? yielded
      exact ⟨ih.1, hnode⟩
  | member _ listed yielded ih =>
      obtain ⟨node, hnode, hchild⟩ := exists_node_of_member hrep ih.2 listed
      rw [hchild] at yielded
      obtain rfl := Child.eq_of_view? yielded
      exact ⟨ih.1, hnode⟩

/-- **Every way to a value walks the tree by its names**, and the value is that of the node. -/
theorem Yields.exists_node (hrep : surface.tree.Represents declarations)
    (h : Yields surface names provider) :
    ∃ node, surface.tree.root.descend [] names = .ok node ∧
      Provider.ofNode? node = some provider := by
  cases h with
  | resolve found => exact Surface.exists_of_resolve found
  | value opened found =>
      obtain ⟨child, hget, hyielded⟩ := View.value_eq_ok_iff.mp found
      obtain ⟨node, hnode, rfl⟩ := exists_node_of_get? (opened.descend hrep).2 hget
      exact ⟨node, hnode, Child.provider?_ofNode.symm.trans hyielded⟩
  | child opened found yielded =>
      obtain ⟨node, hnode, rfl⟩ := exists_node_of_get? (opened.descend hrep).2 found
      exact ⟨node, hnode, Child.provider?_ofNode.symm.trans yielded⟩
  | itself opened yielded => exact ⟨_, (opened.descend hrep).2, yielded⟩
  | member opened listed yielded =>
      obtain ⟨node, hnode, hchild⟩ := exists_node_of_member hrep (opened.descend hrep).2 listed
      rw [hchild] at yielded
      exact ⟨node, hnode, Child.provider?_ofNode.symm.trans yielded⟩

end Ways

/-! ## One object for one name -/

/-- The object of a declaration. -/
def providerOf (d : Declaration) : Provider :=
  ⟨d.kind, segmentsOf d.name, adapt d.name d.payload⟩

/-- The names have the keys of a declared name. -/
def Denotes (declarations : List Declaration) (names : List String) (d : Declaration) : Prop :=
  d ∈ declarations ∧ keysOf d.name = names.map key?

/-- **A surface shares its objects by name.**  Every node is found under its name and under its
identifiers, and texts find one node when they have the same keys.  So whatever ways are taken, the
values at their ends are one object when the ways denote one declared name, and the views are the same
when they are of one node. -/
structure Surface.Shares (surface : Surface) (declarations : List Declaration) : Prop where
  find_name : ∀ node ∈ surface.tree.nodes, node ≠ surface.tree.root →
    surface.tree.find node.name = .ok node
  find_identifiers : ∀ node ∈ surface.tree.nodes, node ≠ surface.tree.root →
    surface.tree.find (joinDots (node.identifiers.map (·.text))) = .ok node
  find_eq_iff : ∀ text other node found, surface.tree.find text = .ok node →
    surface.tree.find other = .ok found → (node = found ↔ keysOf text = keysOf other)
  /-- Every declaration has an object. -/
  yields : ∀ d ∈ declarations, Yields surface (splitDots d.name) (providerOf d)
  /-- A way to a value denotes one declaration, whose object the value is. -/
  denotes : ∀ names provider, Yields surface names provider →
    ∃ d, (∀ e, Denotes declarations names e ↔ e = d) ∧ provider = providerOf d
  /-- Declarations share no object, even when their payloads are equal. -/
  provider_same_iff : ∀ names others p q d e, Yields surface names p → Yields surface others q →
    Denotes declarations names d → Denotes declarations others e →
    (p.same q = true ↔ d.name = e.name) ∧ (d.name = e.name ↔ d = e)
  view_same_iff : ∀ names others view other, Opens surface names view →
    Opens surface others other → (view.same other = true ↔ view.node = other.node) ∧
      (view.node = other.node ↔ names.map key? = others.map key?)

section Shares

variable {kind : Kind} {declarations : List Declaration} {surface : Surface}
  {names others : List String} {provider other : Provider} {d e : Declaration}

/-- The declaration with the keys of a node's path stands at the node. -/
theorem leaf_of_denotes (hrep : surface.tree.Represents declarations)
    (haccepted : ∀ d ∈ declarations, Accepted d.name) {node : Node}
    (hreached : surface.tree.root.descend [] names = .ok node) (h : Denotes declarations names d) :
    node.leaf = some d ∧ segmentsOf d.name = node.path := by
  obtain ⟨hnode, hkeys⟩ := hrep.descend_root_iff.mp hreached
  obtain ⟨own, hown, hpath⟩ := hrep.exists_node h.1 (List.append_nil (segmentsOf d.name)).symm
  have hsame : pathKeys own.path = pathKeys node.path := by
    rw [hpath, ← keysOf_of_accepted (haccepted d h.1), h.2, hkeys]
  obtain rfl := hrep.eq_of_pathKeys_eq hown hnode hsame
  exact ⟨(hrep.leaf_iff hown).mpr ⟨h.1, hpath.symm⟩, hpath.symm⟩

/-- A declared name resolves to the value of its declaration. -/
theorem resolve_declared (hrep : surface.tree.Represents declarations) (haccepted : Accepted d.name)
    (hd : d ∈ declarations) : surface.resolve d.name = .ok (providerOf d) := by
  obtain ⟨node, hnode, hpath⟩ := hrep.exists_node hd (List.append_nil (segmentsOf d.name)).symm
  have hfind : surface.tree.find d.name = .ok node :=
    hrep.descend_root_iff.mpr ⟨hnode, by rw [hpath]; exact (keysOf_of_accepted haccepted).symm⟩
  rw [providerOf, ← hpath]
  exact resolve_of_declaration hfind ((hrep.leaf_iff hnode).mpr ⟨hd, hpath.symm⟩)

/-- A way to a value denotes the declaration at its end. -/
theorem Yields.denotes (hrep : surface.tree.Represents declarations)
    (haccepted : ∀ d ∈ declarations, Accepted d.name) (h : Yields surface names provider) :
    ∃ d, (∀ e, Denotes declarations names e ↔ e = d) ∧ provider = providerOf d := by
  obtain ⟨node, hreached, hprovider⟩ := h.exists_node hrep
  obtain ⟨hnode, hkeys⟩ := hrep.descend_root_iff.mp hreached
  obtain ⟨d, hleaf, rfl⟩ := Option.map_eq_some_iff.mp hprovider
  obtain ⟨hd, hpath⟩ := (hrep.leaf_iff hnode).mp hleaf
  refine ⟨d, fun e => ⟨fun hdenotes => ?_, ?_⟩, ?_⟩
  · have hown := (leaf_of_denotes hrep haccepted hreached hdenotes).1
    rw [hleaf] at hown
    exact (Option.some.inj hown).symm
  · rintro rfl
    exact ⟨hd, by rw [keysOf_of_accepted (haccepted e hd), hpath, hkeys]⟩
  · rw [providerOf, hpath]

/-- The objects of declarations of one kind are told apart by the declared names. -/
theorem same_providerOf_iff (hadmissible : Namespace.Admissible kind declarations)
    (hd : d ∈ declarations) (he : e ∈ declarations) :
    (providerOf d).same (providerOf e) = true ↔ d.name = e.name := by
  rw [Provider.same, Bool.and_eq_true, beq_iff_eq, beq_iff_eq]
  have hkinds : (providerOf d).kind = (providerOf e).kind :=
    (hadmissible.kind_eq hd).trans (hadmissible.kind_eq he).symm
  exact (and_iff_right hkinds).trans
    ((hadmissible.accepted d hd).segmentsOf_inj (hadmissible.accepted e he))

/-- Views of nodes of one tree are the same when their nodes are. -/
theorem same_view_iff (hrep : surface.tree.Represents declarations) {a b : Node}
    (ha : a ∈ surface.tree.nodes) (hb : b ∈ surface.tree.nodes) :
    View.same ⟨surface, a⟩ ⟨surface, b⟩ = true ↔ a = b := by
  rw [View.same, Bool.and_eq_true, beq_iff_eq, beq_iff_eq]
  constructor
  · exact fun hsame => hrep.eq_of_path_eq ha hb hsame.2
  · rintro rfl
    exact ⟨rfl, rfl⟩

/-- **Objects are shared exactly by name.** -/
theorem Surface.shares_of_ofDeclarations {tree : Tree}
    (h : Tree.ofDeclarations kind declarations = .ok tree) (rootType : String) :
    (ofTree tree rootType).Shares declarations := by
  have hadmissible := (Tree.admissible_of_ofDeclarations h).1
  have haccepted := hadmissible.accepted
  have hrep : (ofTree tree rootType).tree.Represents declarations :=
    (Tree.represents_of_ofDeclarations h).2
  refine ⟨?_, ?_, ?_, ?_, ?_, ?_, ?_⟩
  · intro node hnode hroot
    exact hrep.find_name hnode hroot
  · intro node hnode hroot
    exact hrep.find_identifiers hnode hroot
  · intro text other node found hnode hfound
    exact hrep.eq_iff_of_descend hnode hfound
  · intro d hd
    exact .resolve (resolve_declared hrep (haccepted d hd) hd)
  · intro names provider hyields
    exact hyields.denotes hrep haccepted
  · intro names others p q d e hp hq hd he
    obtain ⟨_, hone, rfl⟩ := hp.denotes hrep haccepted
    obtain rfl := (hone d).mp hd
    obtain ⟨_, hone', rfl⟩ := hq.denotes hrep haccepted
    obtain rfl := (hone' e).mp he
    refine ⟨same_providerOf_iff hadmissible hd.1 he.1, ?_, ?_⟩
    · exact List.inj_on_of_nodup_map hadmissible.nodup hd.1 he.1
    · rintro rfl
      rfl
  · intro names others view other hview hother
    obtain ⟨hsurface, hreached⟩ := hview.descend hrep
    obtain ⟨hsurface', hreached'⟩ := hother.descend hrep
    refine ⟨?_, hrep.eq_iff_of_descend hreached hreached'⟩
    obtain ⟨_, a⟩ := view
    obtain ⟨_, b⟩ := other
    subst hsurface
    cases hsurface'
    exact same_view_iff hrep (hrep.descend_root_iff.mp hreached).1
      (hrep.descend_root_iff.mp hreached').1

/-- Versions with one text are different objects, each found under any spelling and in its group. -/
theorem Surface.shares_of_equal_versions :
    ∃ tree, Tree.ofDeclarations .version [.version "a-b" "1", .version "c.d" "1"] = .ok tree ∧
      (ofTree tree "Versions").Shares [.version "a-b" "1", .version "c.d" "1"] ∧
      ∃ p q, (ofTree tree "Versions").resolve "A_B" = .ok p ∧
        (ofTree tree "Versions").root.follow ["C"] "D" = .ok q ∧ p.value = q.value ∧
        p.same q = false := by
  obtain ⟨tree, h⟩ :=
    @exists_of_isOk _ _ (Tree.ofDeclarations .version [.version "a-b" "1", .version "c.d" "1"])
      (by decide +kernel)
  have hfound : (Tree.ofDeclarations .version [.version "a-b" "1", .version "c.d" "1"]).map
      (fun tree => ((ofTree tree "Versions").resolve "A_B",
        (ofTree tree "Versions").root.follow ["C"] "D")) =
      .ok (.ok (providerOf (.version "a-b" "1")), .ok (providerOf (.version "c.d" "1"))) := by
    decide +kernel
  rw [h] at hfound
  obtain ⟨hresolved, hfollowed⟩ := Prod.mk.inj (Except.ok.inj hfound)
  exact ⟨tree, h, shares_of_ofDeclarations h "Versions", _, _, hresolved, hfollowed, rfl,
    by decide +kernel⟩

end Shares

end Accessor

end AliasCatalog
