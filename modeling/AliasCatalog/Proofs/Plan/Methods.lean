import AliasCatalog.Proofs.Accessor.TypeNames
import AliasCatalog.Proofs.Catalog.Outcome
import AliasCatalog.Proofs.Plan.Presentation

/-!
# The names of a plan

The methods of a group are its self accessor, the getters of its leaves and the getters of the groups
in it.  Up to case a getter is told by the key of its node, and siblings have different keys, so no two
methods of a group share a folded name; the reserved roots keep the getters of the libraries apart from
those of the kinds.  All methods are camel words and all types Pascal words (`wellNamed_of_build`).
-/

namespace AliasCatalog

open Accessor Namespace Naming Text

namespace Plan

/-! ## Methods -/

/-- The methods of a group: its self accessor, its leaves, and the groups in it. -/
def methods (table : GroupPlan × Forest GroupPlan) : List String :=
  (table.1.provider.toList ++ table.1.leaves).map (·.method) ++
    table.2.roots.flatMap (·.method.toList)

/-- The self accessor of a node's group, if the node holds a declaration. -/
def selfMethod (node : Node) : List String :=
  if node.leaf.isSome then [providerMethod] else []

section Group

variable {surface : Surface} {footer : String} {own : Option String} {node : Node}

/-- A node's group has its self accessor and the getters of the node's members. -/
theorem methods_perm :
    (methods (group surface footer own node, groups surface footer node.path node.children)).Perm
      (selfMethod node ++ node.members.map method) := by
  have hself : (group surface footer own node).provider.toList.map (·.method) =
      selfMethod node := by
    cases hleaf : node.leaf <;> simp [group, selfMethod, leaf, hleaf]
  have hleaves : (group surface footer own node).leaves.map (·.method) =
      (node.members.filter (·.shape == .leaf)).map method := by
    rw [group, List.map_map]
    rfl
  have hgroups : (groups surface footer node.path node.children).roots.flatMap (·.method.toList) =
      (node.members.filter (·.shape != .leaf)).map method := by
    rw [roots_groups, List.flatMap_map]
    exact List.map_eq_flatMap.symm
  rw [methods, List.map_append, hself, hleaves, hgroups, List.append_assoc, ← List.map_append]
  exact ((List.filter_append_perm (·.shape == .leaf) node.members).map _).append_left _

/-- Up to case the getters of the members are their keys after a common beginning. -/
theorem map_foldCase_method (node : Node) :
    (node.members.map method).map foldCase = (node.children.roots.map (·.key)).map ("get" ++ ·) := by
  rw [Forest.roots_eq_map_trees, Node.members, List.map_map, List.map_map, List.map_map,
    List.map_map]
  apply List.map_congr_left
  intro tree _
  exact (congrArg foldCase (method_below _ _ _)).trans (Segment.foldCase_method _)

/-- A getter is told by what follows its prefix. -/
theorem get_append_inj {a b : String} (h : "get" ++ a = "get" ++ b) : a = b := by
  have hchars := congrArg String.toList h
  rw [String.toList_append, String.toList_append] at hchars
  exact String.toList_inj.mp (List.append_cancel_left hchars)

/-- A self accessor has one name only. -/
theorem eq_of_mem_selfMethod {name : String} (h : name ∈ selfMethod node) :
    name = providerMethod := by
  cases hleaf : node.leaf <;> simp_all [selfMethod]

/-- No getter is the self accessor. -/
theorem foldCase_providerMethod_ne (key : String) : foldCase providerMethod ≠ "get" ++ key := by
  intro heq
  have hself : (foldCase providerMethod).toList.head? = some 'a' := by decide +kernel
  have hget : ("get".toList ++ key.toList).head? = some 'g' := rfl
  rw [heq, String.toList_append, hget] at hself
  cases hself

/-- **No two methods of a group are equal up to case.** -/
theorem nodup_methods (h : node.Canonical) :
    ((methods (group surface footer own node,
      groups surface footer node.path node.children)).map foldCase).Nodup := by
  have hkeys : (node.children.roots.map (·.key)).Nodup :=
    List.pairwise_map.mpr ((Forest.ordered_iff.mp h.ordered).1.imp fun hlt => hlt.apart)
  have hself : ((selfMethod node).map foldCase).Nodup := by
    unfold selfMethod
    split <;> simp
  rw [(methods_perm.map foldCase).nodup_iff, List.map_append, map_foldCase_method,
    List.nodup_append]
  refine ⟨hself, hkeys.map fun _ _ => get_append_inj, ?_⟩
  intro name hname getter hgetter heq
  obtain ⟨text, htext, rfl⟩ := List.mem_map.mp hname
  obtain ⟨key, _, rfl⟩ := List.mem_map.mp hgetter
  rw [eq_of_mem_selfMethod htext] at heq
  exact foldCase_providerMethod_ne key heq

/-- All methods of a group are camel words. -/
theorem isCamel_of_mem_methods {name : String}
    (h : name ∈ methods (group surface footer own node,
      groups surface footer node.path node.children)) : IsCamel name.toList := by
  rcases List.mem_append.mp (methods_perm.mem_iff.mp h) with hself | hmember
  · rw [eq_of_mem_selfMethod hself]
    decide
  · obtain ⟨child, hchild, rfl⟩ := List.mem_map.mp hmember
    obtain ⟨tree, _, rfl⟩ := List.mem_map.mp hchild
    rw [method_below]
    exact tree.1.segment.isCamel_method

end Group

/-! ## Groups -/

/-- Every group of a plan is that of a node that is an accessor type. -/
theorem exists_group_of_mem_tables {surface : Surface} {declarations : List Declaration}
    {source : String} (h : surface.tree.Represents declarations)
    {table : GroupPlan × Forest GroupPlan} (htable : table ∈ tables (kind surface source)) :
    ∃ node ∈ surface.tree.nodes, isGroup node = true ∧ ∃ own,
      table = (group surface (footer surface.kind source) own node,
        groups surface (footer surface.kind source) node.path node.children) := by
  rcases List.mem_cons.mp htable with rfl | hbelow
  · exact ⟨surface.tree.root, List.mem_cons_self, rfl, none, rfl⟩
  · have hsubtrees : (kind surface source).groups.subtrees = _ := subtrees_groups _ _
    rw [hsubtrees] at hbelow
    obtain ⟨node, hfilter, rfl⟩ := List.mem_map.mp hbelow
    obtain ⟨hlisted, hshape⟩ := List.mem_filter.mp hfilter
    have hnode : node ∈ surface.tree.nodes := List.mem_cons_of_mem _ hlisted
    obtain ⟨_, _, _, hpath⟩ := exists_root_of_mem_preorder hlisted
    have hchildren := h.children_ne_nil_of_shape hnode (by simp [hpath]) (by simpa using hshape)
    have hgroup : isGroup node = true := by
      simp [isGroup, Forest.isEmpty_eq_false_iff.mpr hchildren]
    exact ⟨node, hnode, hgroup, _, rfl⟩

/-- A group nested in another has a getter. -/
theorem isSome_method_of_mem_roots {surface : Surface} {footer : String} {path : List Segment}
    {forest : Forest Entry} {nested : GroupPlan}
    (h : nested ∈ (groups surface footer path forest).roots) : nested.method.isSome = true := by
  rw [roots_groups] at h
  obtain ⟨node, _, rfl⟩ := List.mem_map.mp h
  rfl

end Plan

/-! ## Types -/

namespace Accessor

/-- A number after a Pascal word leaves it one. -/
theorem isPascal_proposal {base : String} (h : IsPascal base.toList) (number : Nat) :
    IsPascal (proposal base number).toList := by
  unfold proposal
  split
  · exact h
  · rw [String.toList_append, toList_toString]
    exact h.append fun c hc => isAlphanum_of_isDigit (isDigit_of_mem_toDigits hc)

/-- The suffix of a kind is a Pascal word. -/
theorem isPascal_typeSuffix (kind : Kind) : IsPascal (typeSuffix kind).toList := by
  cases kind <;> decide

/-- The base of a group's name is a Pascal word. -/
theorem isPascal_typeBase {node : Node} (h : node.isRoot = false) (kind : Kind) :
    IsPascal (typeBase kind node).toList := by
  obtain ⟨segment, rest, hpath⟩ := List.exists_cons_of_ne_nil (l := node.path)
    (by simpa [Node.isRoot] using h)
  have hlater : ∀ c ∈ (rest.flatMap (·.identifier.capitalized.toList)), c.isAlphanum = true := by
    intro c hc
    obtain ⟨other, _, hin⟩ := List.mem_flatMap.mp hc
    exact other.isPascal_capitalized.isAlphanum c hin
  have hchars : (typeBase kind node).toList = segment.identifier.capitalized.toList ++
      (rest.flatMap (·.identifier.capitalized.toList) ++ (typeSuffix kind).toList) := by
    simp [typeBase, Node.identifiers, hpath, String.toList_join, List.flatMap_map]
  rw [hchars]
  exact segment.isPascal_capitalized.append
    (List.forall_mem_append.mpr ⟨hlater, (isPascal_typeSuffix kind).isAlphanum⟩)

end Accessor

namespace Catalog

variable {options : Options} {declarations : List Declaration} {catalog : Catalog}
  {libraryType : String} {kind : Kind}

/-- The type of the libraries' root is a Pascal word. -/
theorem isPascal_rootType {name : String} (h : rootType name = .ok libraryType) :
    IsPascal libraryType.toList := by
  unfold rootType at h
  split at h
  · rename_i segment _
    cases h
    have hstart : IsPascal "LibrariesFor".toList := by decide
    rw [String.toList_append]
    exact hstart.append segment.isPascal_capitalized.isAlphanum
  · cases h

theorem isPascal_rootTypeOf (h : IsPascal libraryType.toList) (kind : Kind) :
    IsPascal (rootTypeOf libraryType kind).toList := by
  cases kind with
  | library => exact h
  | version => exact isPascal_typeSuffix .version
  | bundle => exact isPascal_typeSuffix .bundle
  | plugin => exact isPascal_typeSuffix .plugin

/-- **The name of a group's type is a Pascal word.** -/
theorem NamedFrom.isPascal_typeName (h : catalog.NamedFrom libraryType)
    (hroot : IsPascal libraryType.toList) {view : View}
    (hview : view ∈ (catalog.surface kind).groups) : IsPascal view.typeName.toList := by
  obtain ⟨tree, rfl, hnodup, hsurface⟩ := h kind
  rw [hsurface] at hview
  obtain ⟨before, after, hsplit⟩ := List.append_of_mem hview
  obtain ⟨number, _, hname, _⟩ := Surface.isFirstFree_typeName hnodup hsplit
  rw [hname]
  apply isPascal_proposal
  cases hcase : view.isRoot with
  | true =>
      rw [baseOf_of_isRoot hcase]
      exact isPascal_rootTypeOf hroot _
  | false =>
      rw [baseOf_of_not_isRoot hcase]
      exact isPascal_typeBase hcase _

/-! ## The roots of the libraries -/

/-- The getters of the kinds have the reserved keys after a common beginning. -/
theorem map_foldCase_getters :
    ["getVersions", "getBundles", "getPlugins"].map foldCase =
      ["versions", "bundles", "plugins"].map ("get" ++ ·) := by
  decide +kernel

theorem isCamel_of_mem_getters :
    ∀ getter ∈ ["getVersions", "getBundles", "getPlugins"], IsCamel getter.toList := by
  decide

/-- No root of a tree of good libraries has the key of a getter of the catalog. -/
theorem key_notMem_reserved {tree : Tree} {libraries : List Declaration}
    (h : tree.Represents libraries) (hgood : ∀ d ∈ libraries, ¬ BadLibrary d) {entry : Entry}
    (hentry : entry ∈ tree.forest.roots) : entry.key ∉ ["versions", "bundles", "plugins"] := by
  rw [Forest.roots_eq_map_trees] at hentry
  obtain ⟨found, hfound, rfl⟩ := List.mem_map.mp hentry
  obtain ⟨rest, d, hmem⟩ := h.grounded.exists_mem_tree hfound
  obtain ⟨hd, hpath⟩ := h.mem_declared.mp (mem_declared_iff.mpr ⟨found, hfound, rest, rfl, hmem⟩)
  obtain ⟨haccepted, hroot⟩ := not_or.mp (hgood d hd)
  have hparts := (Classical.not_not.mp haccepted).texts_segmentsOf
  rw [← hpath, List.map_cons] at hparts
  intro hkey
  refine hroot ⟨_, _, hparts.symm, ?_⟩
  rw [Segment.key?_text]
  simp only [List.mem_cons, List.not_mem_nil, or_false] at hkey
  rcases hkey with hkey | hkey | hkey <;> simp [show found.1.segment.key = _ from hkey]

/-! ## The whole surface -/

/-- The names of a catalog and of its plan are well formed, and no two of those that stand together
clash. -/
structure WellNamed (catalog : Catalog) : Prop where
  /-- The plan has one part for each kind. -/
  kinds_eq : catalog.plan.kinds.map (·.kind) = Kind.all
  /-- Every identifier of a tree is a camel word. -/
  isCamel_identifier : ∀ kind, ∀ node ∈ (catalog.tree kind).nodes,
    ∀ identifier ∈ node.identifiers, IsCamel identifier.text.toList
  /-- The kinds other than libraries have their getters on the catalog's type. -/
  getters_eq : catalog.plan.kinds.filterMap (·.accessor) = ["getVersions", "getBundles", "getPlugins"]
  isCamel_getter : ∀ getter ∈ catalog.plan.kinds.filterMap (·.accessor), IsCamel getter.toList
  /-- A group nested in another has a getter. -/
  nested_getter : ∀ plan ∈ catalog.plan.kinds, ∀ table ∈ Plan.tables plan,
    ∀ nested ∈ table.2.roots, nested.method.isSome
  /-- Every method of a group is a camel word. -/
  isCamel_method : ∀ plan ∈ catalog.plan.kinds, ∀ table ∈ Plan.tables plan,
    ∀ name ∈ Plan.methods table, IsCamel name.toList
  /-- No two methods of a group are equal up to case. -/
  methods_nodup : ∀ plan ∈ catalog.plan.kinds, ∀ table ∈ Plan.tables plan,
    ((Plan.methods table).map foldCase).Nodup
  /-- The methods of the libraries' root differ from the getters of the other kinds as well. -/
  root_methods_nodup : ∀ plan ∈ catalog.plan.kinds, plan.kind = .library →
    ((catalog.plan.kinds.filterMap (·.accessor) ++ Plan.methods (plan.root, plan.groups)).map
      foldCase).Nodup
  /-- Every type is a Pascal word, the catalog's own included. -/
  isPascal_typeName : ∀ plan ∈ catalog.plan.kinds, ∀ table ∈ Plan.tables plan,
    IsPascal table.1.typeName.toList
  isPascal_catalogType : IsPascal catalog.plan.typeName.toList

/-- The parts of a plan are the plans of the kinds. -/
theorem exists_kind_of_mem_kinds {plan : KindPlan} (h : plan ∈ catalog.plan.kinds) :
    ∃ kind, plan = Plan.kind (catalog.surface kind) catalog.options.source := by
  obtain ⟨kind, _, rfl⟩ := List.mem_map.mp h
  exact ⟨kind, rfl⟩

/-- A plan has its kinds in their order. -/
theorem kinds_of_build (h : build options declarations = .ok catalog) :
    catalog.plan.kinds.map (·.kind) = Kind.all := by
  have heach : ∀ kind ∈ Kind.all,
      (Plan.kind (catalog.surface kind) catalog.options.source).kind = id kind :=
    fun kind _ => (represents_of_build h kind).1
  rw [plan, List.map_map]
  exact (List.map_congr_left heach).trans (List.map_id _)

/-- The getters of a plan are those of its kinds. -/
theorem getters_of_build (h : build options declarations = .ok catalog) :
    catalog.plan.kinds.filterMap (·.accessor) = ["getVersions", "getBundles", "getPlugins"] := by
  have heach : ∀ part ∈ catalog.plan.kinds, part.accessor = part.kind.getter? := by
    intro part hpart
    obtain ⟨kind, rfl⟩ := exists_kind_of_mem_kinds hpart
    rfl
  have hall : Kind.all.filterMap Kind.getter? = ["getVersions", "getBundles", "getPlugins"] := by
    decide +kernel
  rw [List.filterMap_congr heach, ← hall, ← kinds_of_build h, List.filterMap_map]
  rfl

/-- The getters of the libraries' root and those of the other kinds are all different up to case. -/
theorem nodup_root_methods {surface : Surface} {libraries : List Declaration}
    (h : surface.tree.Represents libraries) (hgood : ∀ d ∈ libraries, ¬ BadLibrary d)
    (source : String) :
    ((["getVersions", "getBundles", "getPlugins"] ++
      Plan.methods ((Plan.kind surface source).root, (Plan.kind surface source).groups)).map
        foldCase).Nodup := by
  have hmethods := @Plan.methods_perm surface (Plan.footer surface.kind source) none
    surface.tree.root
  have hnodup := @Plan.nodup_methods surface (Plan.footer surface.kind source) none
    surface.tree.root h.canonical_root
  rw [List.map_append, List.nodup_append]
  refine ⟨by decide +kernel, hnodup, ?_⟩
  intro getter hgetter name hname heq
  have hmember := (hmethods.map foldCase).mem_iff.mp hname
  rw [show Plan.selfMethod surface.tree.root = [] from rfl, List.nil_append,
    Plan.map_foldCase_method] at hmember
  obtain ⟨key, hkey, rfl⟩ := List.mem_map.mp hmember
  obtain ⟨entry, hentry, rfl⟩ := List.mem_map.mp hkey
  rw [map_foldCase_getters] at hgetter
  obtain ⟨reserved, hreserved, rfl⟩ := List.mem_map.mp hgetter
  rw [Plan.get_append_inj heq] at hreserved
  exact key_notMem_reserved h hgood hentry hreserved

/-- **The names of a built catalog are well formed and never clash.** -/
theorem wellNamed_of_build (h : build options declarations = .ok catalog) : catalog.WellNamed := by
  obtain ⟨libraryType, hname, hnamed⟩ := namedFrom_of_build h
  have hroot := isPascal_rootType hname
  have hgetters := getters_of_build h
  have hrepresents := fun kind => (represents_of_build h kind).2
  constructor
  · exact kinds_of_build h
  · intro kind node _ identifier hidentifier
    obtain ⟨segment, _, rfl⟩ := List.mem_map.mp hidentifier
    exact segment.isCamel_identifier
  · exact hgetters
  · rw [hgetters]
    exact isCamel_of_mem_getters
  · intro plan hplan table htable nested hnested
    obtain ⟨kind, rfl⟩ := exists_kind_of_mem_kinds hplan
    obtain ⟨node, _, _, _, rfl⟩ := Plan.exists_group_of_mem_tables (hrepresents kind) htable
    exact Plan.isSome_method_of_mem_roots hnested
  · intro plan hplan table htable name hmem
    obtain ⟨kind, rfl⟩ := exists_kind_of_mem_kinds hplan
    obtain ⟨node, _, _, _, rfl⟩ := Plan.exists_group_of_mem_tables (hrepresents kind) htable
    exact Plan.isCamel_of_mem_methods hmem
  · intro plan hplan table htable
    obtain ⟨kind, rfl⟩ := exists_kind_of_mem_kinds hplan
    obtain ⟨node, hnode, _, _, rfl⟩ := Plan.exists_group_of_mem_tables (hrepresents kind) htable
    exact Plan.nodup_methods ((hrepresents kind).holds hnode).1
  · intro plan hplan hlibrary
    obtain ⟨kind, rfl⟩ := exists_kind_of_mem_kinds hplan
    obtain rfl : kind = .library := (represents_of_build h kind).1.symm.trans hlibrary
    rw [hgetters]
    exact nodup_root_methods (hrepresents .library)
      (exists_build_eq_ok_iff.mp ⟨catalog, h⟩).libraries _
  · intro plan hplan table htable
    obtain ⟨kind, rfl⟩ := exists_kind_of_mem_kinds hplan
    obtain ⟨node, hnode, hgroup, _, rfl⟩ :=
      Plan.exists_group_of_mem_tables (hrepresents kind) htable
    have hview : (⟨catalog.surface kind, node⟩ : View) ∈ (catalog.surface kind).groups :=
      List.mem_map.mpr ⟨node, List.mem_filter.mpr ⟨hnode, hgroup⟩, rfl⟩
    have hname := hnamed.isPascal_typeName hroot hview
    exact hname
  · exact hnamed.isPascal_typeName hroot
      (List.mem_map.mpr ⟨_, List.mem_filter.mpr ⟨List.mem_cons_self, rfl⟩, rfl⟩)

/-- A catalog with an ambiguous group behind a digit, and a version named like a getter. -/
theorem wellNamed_of_leading_digit :
    ∃ catalog, build {} [.library "3d-core.x" "g" "a", .library "3d-core" "g" "b",
        .version "_Versions" "1"] = .ok catalog ∧ catalog.WellNamed := by
  obtain ⟨catalog, h⟩ :=
    @exists_of_isOk _ _ (build {} [.library "3d-core.x" "g" "a", .library "3d-core" "g" "b",
      .version "_Versions" "1"]) (by decide +kernel)
  exact ⟨catalog, h, wellNamed_of_build h⟩

end Catalog

end AliasCatalog
