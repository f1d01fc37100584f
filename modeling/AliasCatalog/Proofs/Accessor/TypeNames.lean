import AliasCatalog.Proofs.Accessor.Proposals
import AliasCatalog.Proofs.Catalog.Stages
import AliasCatalog.Proofs.Namespace.Mirror

/-!
# The names of accessor types

The groups of a surface take their names in the order of the tree, the root first.  In a built catalog
no two groups of a kind have one folded name, each name is the first free proposal for the group's
base, groups with equal bases are numbered without a gap unless the catalog's own name intervenes, and
groups of different kinds can only meet at the root of the libraries (`namesTypes_of_build`).
-/

namespace AliasCatalog

open Accessor Namespace Naming Text

namespace Accessor

/-- The groups of a surface, the root first and each before the groups in it. -/
def Surface.groups (surface : Surface) : List View :=
  (surface.tree.nodes.filter isGroup).map fun node => ⟨surface, node⟩

/-- The base of the name of a group's type: that of the root is given. -/
def baseOf (kind : Kind) (rootType : String) (node : Node) : String :=
  if node.isRoot then rootType else typeBase kind node

/-- The base of the root is the given name. -/
theorem baseOf_of_isRoot {kind : Kind} {rootType : String} {view : View}
    (h : view.isRoot = true) : baseOf kind rootType view.node = rootType :=
  if_pos h

/-- The base of any other group comes from its path. -/
theorem baseOf_of_not_isRoot {kind : Kind} {rootType : String} {view : View}
    (h : view.isRoot = false) : baseOf kind rootType view.node = typeBase kind view.node :=
  if_neg (by simpa [View.isRoot] using h)

/-! ## The names of a surface -/

/-- Names are given out to the groups in order. -/
theorem nameGroups_eq_zip (kind : Kind) (rootType : String) (taken : List String)
    (nodes : List Node) :
    nameGroups kind rootType taken nodes =
      ((nodes.filter isGroup).map (·.path)).zip
        (claimAll taken ((nodes.filter isGroup).map (baseOf kind rootType))) := by
  induction nodes generalizing taken with
  | nil => rfl
  | cons node rest ih =>
      by_cases hgroup : isGroup node = true
      · rw [List.filter_cons_of_pos hgroup, nameGroups, if_pos hgroup]
        simp [claimAll, baseOf, ih]
      · rw [List.filter_cons_of_neg hgroup, nameGroups, if_neg hgroup, ih]

/-- Looking up each key of a table gives the values of the table. -/
theorem map_lookup_zip {α β : Type} [BEq α] [LawfulBEq α] {keys : List α} {values : List β}
    (hkeys : keys.Nodup) (hlength : keys.length = values.length) :
    keys.map ((keys.zip values).lookup ·) = values.map some := by
  induction keys generalizing values with
  | nil =>
      cases values with
      | nil => rfl
      | cons => cases hlength
  | cons key rest ih =>
      cases values with
      | nil => cases hlength
      | cons value others =>
          obtain ⟨hnew, hrest⟩ := List.nodup_cons.mp hkeys
          have hskip : ∀ other ∈ rest, ((key :: rest).zip (value :: others)).lookup other =
              (rest.zip others).lookup other := by
            intro other hother
            have hne : (other == key) = false :=
              beq_false_of_ne fun heq => hnew (heq ▸ hother)
            simp [List.lookup_cons, hne]
          rw [List.map_cons, List.map_congr_left hskip, ih hrest (Nat.succ.inj hlength)]
          simp

namespace Surface

variable {tree : Tree} {rootType : String}

/-- The types of the groups have the names that are given out for their bases. -/
theorem map_typeName_groups (h : (tree.nodes.map (·.path)).Nodup) :
    (ofTree tree rootType).groups.map (·.typeName) =
      claimAll [] ((ofTree tree rootType).groups.map fun view =>
        baseOf tree.kind rootType view.node) := by
  have hkeys : ((tree.nodes.filter isGroup).map (·.path)).Nodup :=
    (List.filter_sublist.map _).nodup h
  have hnames := @map_lookup_zip _ _ _ _ _
    (claimAll [] ((tree.nodes.filter isGroup).map (baseOf tree.kind rootType))) hkeys
    (by simp [length_claimAll])
  have htable : (ofTree tree rootType).typeNames = _ := nameGroups_eq_zip _ _ _ _
  have hgiven := congrArg (List.map fun name : Option String => name.getD "") hnames
  rw [← htable, List.map_map, List.map_map, List.map_map, List.map_id''] at hgiven
  · rw [groups, List.map_map, List.map_map]
    exact hgiven
  · intro name
    rfl

variable {before after : List View} {view : View}

/-- At every place the groups before have taken their names, and the group takes the first free
proposal. -/
theorem typeName_of_split (h : (tree.nodes.map (·.path)).Nodup)
    (hsplit : (ofTree tree rootType).groups = before ++ view :: after) :
    before.map (·.typeName) =
        claimAll [] (before.map fun earlier => baseOf tree.kind rootType earlier.node) ∧
      view.typeName = firstFree (baseOf tree.kind rootType view.node) 1
        (before.map fun earlier => foldCase earlier.typeName).reverse := by
  have hnames := @map_typeName_groups tree rootType h
  rw [hsplit, List.map_append, List.map_append, claimAll_append, List.map_cons, List.map_cons,
    claimAll] at hnames
  obtain ⟨hbefore, hrest⟩ := List.append_inj hnames (by simp [length_claimAll])
  refine ⟨hbefore, ?_⟩
  rw [(List.cons.inj hrest).1, ← hbefore, List.append_nil, List.map_map]
  rfl

/-- The name of a group is the first proposal for its base that differs from those before. -/
theorem isFirstFree_typeName (h : (tree.nodes.map (·.path)).Nodup)
    (hsplit : (ofTree tree rootType).groups = before ++ view :: after) :
    IsFirstFree (baseOf tree.kind rootType view.node)
      (before.map fun earlier => foldCase earlier.typeName) view.typeName := by
  rw [(typeName_of_split h hsplit).2]
  exact (isFirstFree_firstFree _ _).congr fun _ => List.mem_reverse

/-- No two types of a surface have one folded name. -/
theorem nodup_typeNames (h : (tree.nodes.map (·.path)).Nodup) :
    ((ofTree tree rootType).groups.map fun view => foldCase view.typeName).Nodup := by
  have hnodup := (nodup_claimAll [] ((ofTree tree rootType).groups.map fun view =>
    baseOf tree.kind rootType view.node)).1
  rw [← map_typeName_groups h, List.map_map] at hnodup
  exact hnodup

/-- Only the first group is the root. -/
theorem exists_groups_eq_cons (tree : Tree) (rootType : String) :
    ∃ below, (ofTree tree rootType).groups = (ofTree tree rootType).root :: below ∧
      ∀ view ∈ below, view.isRoot = false := by
  refine ⟨((preorder [] tree.forest).filter isGroup).map fun node => ⟨ofTree tree rootType, node⟩,
    rfl, fun view hview => ?_⟩
  obtain ⟨node, hnode, rfl⟩ := List.mem_map.mp hview
  obtain ⟨entry, _, rest, hpath⟩ := exists_root_of_mem_preorder (List.mem_filter.mp hnode).1
  simp [View.isRoot, Node.isRoot, hpath]

/-- The root is the first to take a name and gets the one that is asked for. -/
theorem typeName_root (h : (tree.nodes.map (·.path)).Nodup) :
    (ofTree tree rootType).root.typeName = rootType := by
  obtain ⟨below, hgroups, _⟩ := exists_groups_eq_cons tree rootType
  rw [(@typeName_of_split _ _ [] _ _ h hgroups).2]
  exact firstFree_of_not_mem List.not_mem_nil

end Surface

/-! ## Bases -/

section Base

variable {kind : Kind} {node : Node}

/-- Up to case a suffix is the name of its kind and a common ending. -/
theorem foldCase_typeSuffix (kind : Kind) :
    foldCase (typeSuffix kind) = kind.name ++ "accessors" := by
  cases kind <;> decide +kernel

/-- No kind's suffix ends in a digit. -/
theorem unnumbered_append_typeSuffix (stem : String) (kind : Kind) :
    Unnumbered (foldCase (stem ++ typeSuffix kind)) := by
  have hlast : ¬ 's'.isDigit = true := by decide
  have hchars : (foldCase (stem ++ typeSuffix kind)).toList =
      (foldCase stem ++ kind.name ++ "accessor").toList ++ ['s'] := by
    rw [foldCase_append, foldCase_typeSuffix, show "accessors" = "accessor" ++ "s" from rfl,
      ← String.append_assoc, ← String.append_assoc, String.toList_append]
    rfl
  unfold Unnumbered withoutNumber
  rw [hchars, List.rdropWhile_concat_neg _ _ _ hlast, ← hchars, String.ofList_toList]

/-- No suffix ends in a digit. -/
theorem unnumbered_typeSuffix (kind : Kind) :
    withoutNumber (foldCase (typeSuffix kind)) = foldCase (typeSuffix kind) := by
  have hempty := unnumbered_append_typeSuffix "" kind
  rw [String.empty_append] at hempty
  exact hempty

/-- A base that ends in a suffix does not end in a digit. -/
theorem unnumbered_typeBase (kind : Kind) (node : Node) :
    Unnumbered (foldCase (typeBase kind node)) :=
  unnumbered_append_typeSuffix _ kind

/-- The base of a group below the root is more than the suffix of its kind. -/
theorem exists_stem_of_not_isRoot (hroot : node.isRoot = false) :
    ∃ stem, stem ≠ "" ∧ typeBase kind node = stem ++ typeSuffix kind := by
  refine ⟨_, fun hempty => ?_, rfl⟩
  obtain ⟨segment, rest, hpath⟩ := List.exists_cons_of_ne_nil (l := node.path)
    (by simpa [Node.isRoot] using hroot)
  obtain ⟨_, _, hword, _⟩ := segment.isPascal_capitalized
  have hchars := congrArg String.toList hempty
  simp [Node.identifiers, hpath, hword] at hchars

/-- No suffix ends in the suffix of another kind. -/
theorem typeSuffix_apart {kind other : Kind} (h : kind ≠ other) :
    ¬ (foldCase (typeSuffix kind)).toList <:+ (foldCase (typeSuffix other)).toList := by
  rw [foldCase_typeSuffix, foldCase_typeSuffix]
  revert h
  cases kind <;> cases other <;> decide

/-- A base ends in the suffix of its kind. -/
theorem suffix_typeBase (kind : Kind) (node : Node) :
    (foldCase (typeSuffix kind)).toList <:+ (foldCase (typeBase kind node)).toList := by
  rw [typeBase, foldCase_append, String.toList_append]
  exact List.suffix_append _ _

/-- The base of a group below the root is not the suffix alone. -/
theorem foldCase_typeBase_ne (hroot : node.isRoot = false) :
    foldCase (typeBase kind node) ≠ foldCase (typeSuffix kind) := by
  obtain ⟨stem, hstem, hbase⟩ := @exists_stem_of_not_isRoot kind node hroot
  intro heq
  rw [hbase, foldCase_append] at heq
  have hlength := congrArg (fun text : String => text.toList.length) heq
  simp only [String.toList_append, List.length_append, toList_foldCase, List.length_map] at hlength
  exact hstem (String.toList_eq_nil_iff.mp (List.length_eq_zero_iff.mp (by omega)))

/-- A group below the root cannot ask for the name of the root when its base is not that name without
its number. -/
theorem clear_typeBase {rootType : String}
    (hne : foldCase (typeBase kind node) ≠ withoutNumber (foldCase rootType)) :
    Clear [foldCase rootType] (typeBase kind node) := by
  intro number _ hmem
  have hsame := congrArg withoutNumber (List.mem_singleton.mp hmem)
  rw [foldCase_proposal, withoutNumber_proposal, unnumbered_typeBase kind node] at hsame
  exact hne hsame

end Base

/-! ## Numbering -/

/-- How many of some groups below the root have a base that folds as the given one. -/
def alike (kind : Kind) (views : List View) (base : String) : Nat :=
  views.countP fun view => !view.isRoot && foldCase (typeBase kind view.node) == foldCase base

/-- The root aside, groups are alike when their bases are the same up to case. -/
theorem alike_root_cons {kind : Kind} {root : View} {below : List View} {base : String}
    (hroot : root.isRoot = true) (hbelow : ∀ view ∈ below, view.isRoot = false) :
    alike kind (root :: below) base =
      sameBases (below.map fun view => typeBase kind view.node) base := by
  unfold alike sameBases
  rw [List.countP_cons_of_neg (by simp [hroot]), List.countP_map]
  apply List.countP_congr
  intro view hview
  simp [hbelow view hview]

/-- **Groups with equal bases are numbered without a gap**, when the root's name, which is taken before
theirs, is none of theirs. -/
theorem Surface.typeName_numbered {tree : Tree} {rootType : String} {before after : List View}
    {view : View} (h : (tree.nodes.map (·.path)).Nodup)
    (hroot : ∀ node : Node, node.isRoot = false →
      foldCase (typeBase tree.kind node) ≠ withoutNumber (foldCase rootType))
    (hsplit : (ofTree tree rootType).groups = before ++ view :: after)
    (hview : view.isRoot = false) :
    view.typeName = proposal (typeBase tree.kind view.node)
      (alike tree.kind before (typeBase tree.kind view.node) + 1) := by
  obtain ⟨below, hgroups, hbelow⟩ := exists_groups_eq_cons tree rootType
  obtain ⟨hbefore, hname⟩ := typeName_of_split h hsplit
  rw [hgroups] at hsplit
  cases before with
  | nil =>
      obtain ⟨rfl, _⟩ := List.cons.inj hsplit
      cases hview
  | cons root between =>
      obtain ⟨rfl, hrest⟩ := List.cons.inj hsplit
      have hbetween : ∀ earlier ∈ between, earlier.isRoot = false := by
        intro earlier hearlier
        exact hbelow earlier (hrest ▸ List.mem_append_left _ hearlier)
      have hbases : (between.map fun earlier => baseOf tree.kind rootType earlier.node) =
          between.map fun earlier => typeBase tree.kind earlier.node :=
        List.map_congr_left fun earlier hearlier =>
          baseOf_of_not_isRoot (hbetween earlier hearlier)
      rw [List.map_cons, List.map_cons, hbases] at hbefore
      obtain ⟨hfirst, hothers⟩ := List.cons.inj (hbefore.trans (claimAll_cons rootType _))
      have hfolded : (between.map fun earlier => foldCase earlier.typeName) =
          (claimAll [foldCase rootType]
            (between.map fun earlier => typeBase tree.kind earlier.node)).map foldCase := by
        rw [← hothers, List.map_map]
        rfl
      have hclear : ∀ earlier : View, earlier.isRoot = false →
          Clear [foldCase rootType] (typeBase tree.kind earlier.node) :=
        fun earlier hnot => clear_typeBase (hroot earlier.node hnot)
      rw [hname, baseOf_of_not_isRoot hview, List.map_cons, List.reverse_cons, hfirst, hfolded,
        alike_root_cons rfl hbetween]
      apply firstFree_numbered _ (unnumbered_typeBase _ _) (hclear view hview)
      intro base hmem
      obtain ⟨earlier, hearlier, rfl⟩ := List.mem_map.mp hmem
      exact ⟨unnumbered_typeBase _ _, hclear earlier (hbetween earlier hearlier)⟩

/-- Without its number a type's name still ends in the suffix of its kind, that of the libraries' root
aside. -/
theorem Surface.suffix_typeName {tree : Tree} {rootType : String} {view : View}
    (h : (tree.nodes.map (·.path)).Nodup)
    (hroot : view.isRoot = true → rootType = typeSuffix tree.kind)
    (hview : view ∈ (ofTree tree rootType).groups) :
    (foldCase (typeSuffix tree.kind)).toList <:+ (withoutNumber (foldCase view.typeName)).toList := by
  obtain ⟨before, after, hsplit⟩ := List.append_of_mem hview
  obtain ⟨number, _, hname, _⟩ := isFirstFree_typeName h hsplit
  obtain ⟨stem, hbase⟩ : ∃ stem, baseOf tree.kind rootType view.node =
      stem ++ typeSuffix tree.kind := by
    cases hcase : view.isRoot with
    | true => exact ⟨"", by rw [baseOf_of_isRoot hcase, hroot hcase, String.empty_append]⟩
    | false => exact ⟨_, baseOf_of_not_isRoot hcase⟩
  rw [hname, hbase, foldCase_proposal, withoutNumber_proposal, unnumbered_append_typeSuffix,
    foldCase_append, String.toList_append]
  exact List.suffix_append _ _

end Accessor

namespace Catalog

/-- Without its number the name ends like those of the libraries' groups. -/
def EndsAsLibraries (name : String) : Prop :=
  (foldCase (typeSuffix .library)).toList <:+ (withoutNumber (foldCase name)).toList

/-- How the types of a catalog are named, in each of its kinds and across them. -/
structure NamesTypes (catalog : Catalog) : Prop where
  /-- The type of the libraries' root is named after the catalog, and those of the other roots after
  their kinds. -/
  root_name : ∃ libraryType, rootType catalog.options.name = .ok libraryType ∧
    ∀ kind, (catalog.root kind).typeName = rootTypeOf libraryType kind
  /-- No two groups of a kind have one folded name. -/
  folded_nodup : ∀ kind,
    ((catalog.surface kind).groups.map fun view => foldCase view.typeName).Nodup
  /-- The name of a group is the first proposal for its base that differs from those before. -/
  first_free : ∀ kind before view after,
    (catalog.surface kind).groups = before ++ view :: after → view.isRoot = false →
      IsFirstFree (typeBase kind view.node)
        (before.map fun earlier => foldCase earlier.typeName) view.typeName
  /-- Groups with equal bases are numbered in order and without a gap. -/
  numbered : ∀ kind,
    (kind = .library → ¬ EndsAsLibraries (catalog.root .library).typeName) →
    ∀ before view after,
      (catalog.surface kind).groups = before ++ view :: after → view.isRoot = false →
        view.typeName = proposal (typeBase kind view.node)
          (alike kind before (typeBase kind view.node) + 1)
  /-- Names of different kinds differ, that of the libraries' root aside. -/
  kinds_apart : ∀ kind other, kind ≠ other →
    ∀ view ∈ (catalog.surface kind).groups, ∀ another ∈ (catalog.surface other).groups,
      foldCase view.typeName = foldCase another.typeName →
        (kind = .library ∧ view.isRoot = true) ∨ (other = .library ∧ another.isRoot = true)

variable {options : Options} {declarations : List Declaration} {catalog : Catalog}

/-- The roots of all kinds but the libraries are named by the suffix of the kind. -/
theorem rootTypeOf_of_ne {libraryType : String} {kind : Kind} (h : kind ≠ .library) :
    rootTypeOf libraryType kind = typeSuffix kind := by
  cases kind with
  | library => exact absurd rfl h
  | version => rfl
  | bundle => rfl
  | plugin => rfl

/-- Each surface shows a tree of its kind without repeated paths, and the name of its root comes from
the type of the libraries' root. -/
def NamedFrom (catalog : Catalog) (libraryType : String) : Prop :=
  ∀ kind, ∃ tree : Tree, tree.kind = kind ∧ (tree.nodes.map (·.path)).Nodup ∧
    catalog.surface kind = .ofTree tree (rootTypeOf libraryType kind)

/-- The surfaces of a built catalog take the names of their roots from the libraries' type. -/
theorem namedFrom_of_build (h : build options declarations = .ok catalog) :
    ∃ libraryType, rootType catalog.options.name = .ok libraryType ∧
      catalog.NamedFrom libraryType := by
  obtain ⟨libraryType, hname, hoptions, hsurfaces⟩ := surface_of_build h
  refine ⟨libraryType, hoptions ▸ hname, fun kind => ?_⟩
  obtain ⟨tree, htree, hsurface⟩ := hsurfaces kind
  obtain ⟨hkind, hrepresents⟩ := Tree.represents_of_ofDeclarations htree
  exact ⟨tree, hkind, hrepresents.nodup_paths, hsurface⟩

namespace NamedFrom

variable {libraryType : String} {kind other : Kind}

/-- The view of a root has the name that is given to the root. -/
theorem typeName_root (h : catalog.NamedFrom libraryType) (kind : Kind) :
    (catalog.root kind).typeName = rootTypeOf libraryType kind := by
  obtain ⟨tree, _, hnodup, hsurface⟩ := h kind
  rw [Catalog.root, hsurface, Surface.typeName_root hnodup]

/-- Only a catalog whose own name, without its number, ends as the libraries' groups do can stand in
the way of a group. -/
theorem foldCase_typeBase_ne_root {node : Node} (h : catalog.NamedFrom libraryType)
    (hlibrary : kind = .library → ¬ EndsAsLibraries (catalog.root .library).typeName)
    (hnode : node.isRoot = false) :
    foldCase (typeBase kind node) ≠ withoutNumber (foldCase (rootTypeOf libraryType kind)) := by
  intro heq
  by_cases hkind : kind = .library
  · subst hkind
    apply hlibrary rfl
    rw [EndsAsLibraries, h.typeName_root, ← heq]
    exact suffix_typeBase _ _
  · rw [rootTypeOf_of_ne hkind, unnumbered_typeSuffix] at heq
    exact foldCase_typeBase_ne hnode heq

/-- The number aside, a type ends in the suffix of its kind, unless it is the libraries' root. -/
theorem suffix_typeName {view : View} (h : catalog.NamedFrom libraryType)
    (hview : view ∈ (catalog.surface kind).groups)
    (hroot : ¬ (kind = .library ∧ view.isRoot = true)) :
    (foldCase (typeSuffix kind)).toList <:+ (withoutNumber (foldCase view.typeName)).toList := by
  obtain ⟨tree, rfl, hnodup, hsurface⟩ := h kind
  rw [hsurface] at hview
  refine Surface.suffix_typeName hnodup (fun hisRoot => ?_) hview
  exact rootTypeOf_of_ne fun hkind => hroot ⟨hkind, hisRoot⟩

/-- Types of two kinds share a folded name only where one is that of the libraries' root: any others end in
the suffixes of their kinds, and none of these ends in another. -/
theorem isRoot_of_foldCase_eq {view another : View} (h : catalog.NamedFrom libraryType)
    (hne : kind ≠ other) (hview : view ∈ (catalog.surface kind).groups)
    (hanother : another ∈ (catalog.surface other).groups)
    (hsame : foldCase view.typeName = foldCase another.typeName) :
    (kind = .library ∧ view.isRoot = true) ∨ (other = .library ∧ another.isRoot = true) := by
  by_cases hfirst : kind = .library ∧ view.isRoot = true
  · exact .inl hfirst
  by_cases hsecond : other = .library ∧ another.isRoot = true
  · exact .inr hsecond
  have hends := h.suffix_typeName hview hfirst
  rw [hsame] at hends
  rcases List.suffix_or_suffix_of_suffix hends (h.suffix_typeName hanother hsecond) with
    hshort | hshort
  · exact absurd hshort (typeSuffix_apart hne)
  · exact absurd hshort (typeSuffix_apart hne.symm)

end NamedFrom

/-- **A built catalog names its types canonically.** -/
theorem namesTypes_of_build (h : build options declarations = .ok catalog) :
    catalog.NamesTypes := by
  obtain ⟨libraryType, hname, hnamed⟩ := namedFrom_of_build h
  constructor
  · exact ⟨libraryType, hname, hnamed.typeName_root⟩
  · intro kind
    obtain ⟨tree, _, hnodup, hsurface⟩ := hnamed kind
    rw [hsurface]
    exact Surface.nodup_typeNames hnodup
  · intro kind before view after hsplit hview
    obtain ⟨tree, rfl, hnodup, hsurface⟩ := hnamed kind
    rw [hsurface] at hsplit
    rw [← baseOf_of_not_isRoot hview]
    exact Surface.isFirstFree_typeName hnodup hsplit
  · intro kind hlibrary before view after hsplit hview
    obtain ⟨tree, rfl, hnodup, hsurface⟩ := hnamed kind
    rw [hsurface] at hsplit
    exact Surface.typeName_numbered hnodup
      (fun _ hnode => hnamed.foldCase_typeBase_ne_root hlibrary hnode) hsplit hview
  · intro kind other hne view hview another hanother hsame
    exact hnamed.isRoot_of_foldCase_eq hne hview hanother hsame

/-- The groups `foo.bar` and `fooBar` have one base, so the first has the base for its name and the second
the base with a number. -/
theorem namesTypes_of_equal_bases :
    ∃ catalog, build {} [.library "fooBar.x" "g" "a", .library "foo.bar.y" "g" "b"] = .ok catalog ∧
      catalog.NamesTypes ∧ (catalog.root .library).typeName = "LibrariesForLibs" ∧
      ∃ first second, (catalog.surface .library).groups.filter (·.path == "foo.bar") = [first] ∧
        (catalog.surface .library).groups.filter (·.path == "fooBar") = [second] ∧
        first.typeName = "FooBarLibraryAccessors" ∧
        second.typeName = "FooBarLibraryAccessors2" := by
  obtain ⟨catalog, h⟩ :=
    @exists_of_isOk _ _ (build {} [.library "fooBar.x" "g" "a", .library "foo.bar.y" "g" "b"])
      (by decide +kernel)
  have hnames := namesTypes_of_build h
  obtain ⟨libraryType, hname, hroots⟩ := hnames.root_name
  obtain ⟨_, _, hoptions, _⟩ := surface_of_build h
  have htype : rootType "libs" = .ok "LibrariesForLibs" := by decide +kernel
  rw [hoptions, htype] at hname
  have hroot := (hroots .library).trans (Except.ok.inj hname).symm
  have hplain : ¬ EndsAsLibraries (catalog.root .library).typeName := by
    rw [hroot, EndsAsLibraries]
    decide +kernel
  have hlisted : (catalog.surface .library).groups.map
      (fun view => (view.path, view.isRoot, typeBase .library view.node)) =
        [("", true, "LibraryAccessors"), ("foo", false, "FooLibraryAccessors"),
          ("foo.bar", false, "FooBarLibraryAccessors"),
          ("fooBar", false, "FooBarLibraryAccessors")] :=
    @eq_of_map_eq_ok _ _ _ _ (fun made : Catalog => (made.surface .library).groups.map
      fun view => (view.path, view.isRoot, typeBase .library view.node)) _ _ h (by decide +kernel)
  obtain ⟨root, _, hgroups, htop, hlisted⟩ := List.map_eq_cons_iff.mp hlisted
  obtain ⟨foo, _, rfl, hfoo, hlisted⟩ := List.map_eq_cons_iff.mp hlisted
  obtain ⟨first, _, rfl, hfirst, hlisted⟩ := List.map_eq_cons_iff.mp hlisted
  obtain ⟨second, _, rfl, hsecond, hlisted⟩ := List.map_eq_cons_iff.mp hlisted
  obtain rfl := List.map_eq_nil_iff.mp hlisted
  simp only [Prod.mk.injEq] at htop hfoo hfirst hsecond
  have hother : foldCase "FooLibraryAccessors" ≠ foldCase "FooBarLibraryAccessors" := by
    decide +kernel
  have hnone : alike .library [root, foo] "FooBarLibraryAccessors" = 0 := by
    simp [alike, htop, hfoo, hother]
  have hone : alike .library [root, foo, first] "FooBarLibraryAccessors" = 1 := by
    simp [alike, htop, hfoo, hfirst, hother]
  have hnumbered := hnames.numbered .library fun _ => hplain
  refine ⟨catalog, h, hnames, hroot, first, second, ?_, ?_, ?_, ?_⟩
  · simp [hgroups, htop, hfoo, hfirst, hsecond]
  · simp [hgroups, htop, hfoo, hfirst, hsecond]
  · rw [hnumbered [root, foo] first [second] hgroups hfirst.2.1, hfirst.2.2, hnone]
    rfl
  · rw [hnumbered [root, foo, first] second [] hgroups hsecond.2.1, hsecond.2.2, hone]
    decide +kernel

end Catalog

end AliasCatalog
