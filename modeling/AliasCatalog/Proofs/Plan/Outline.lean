import AliasCatalog.Plan.Outline
import AliasCatalog.Proofs.Plan.Fingerprint
import AliasCatalog.Proofs.Plan.Methods

/-!
# Outlines and plans

An outline prints neither the paths of groups nor where its kinds begin, and still it says all there is
in a plan but documentation (`outline_eq_iff`).  Each line can be read again: its margin, the method, and
the alias of a declaration.  No method of the libraries' root is the getter of another kind, so the
getters cut the lines into those of the kinds, and the aliases on these are the declared names, which
determine the plan.
-/

namespace AliasCatalog

open Accessor Namespace Naming Text

/-! ## Plans without documentation -/

def LeafPlan.undocumented (leaf : LeafPlan) : LeafPlan :=
  { leaf with docs := [] }

def GroupPlan.undocumented (group : GroupPlan) : GroupPlan :=
  { group with
    provider := group.provider.map LeafPlan.undocumented
    leaves := group.leaves.map LeafPlan.undocumented }

def KindPlan.undocumented (plan : KindPlan) : KindPlan :=
  { plan with
    root := plan.root.undocumented
    groups := plan.groups.map GroupPlan.undocumented }

/-- The plan without all documentation, and without the source that is quoted there. -/
def CatalogPlan.undocumented (plan : CatalogPlan) : CatalogPlan :=
  { plan with source := "", kinds := plan.kinds.map KindPlan.undocumented }

namespace Plan

/-! ## Outlines of undocumented plans -/

/-- The lines of a group do not show its documentation. -/
theorem ownLines_undocumented (depth : Nat) (group : GroupPlan) :
    ownLines depth group.undocumented = ownLines depth group := by
  cases hprovider : group.provider <;>
    simp [ownLines, GroupPlan.undocumented, hprovider, leafLine, LeafPlan.undocumented]

theorem nestedLines_undocumented (depth : Nat) (groups : Forest GroupPlan) :
    nestedLines depth (groups.map GroupPlan.undocumented) = nestedLines depth groups := by
  induction groups generalizing depth with
  | nil => rfl
  | cons group inner beside below after =>
      rw [Forest.map, nestedLines, nestedLines, ownLines_undocumented, below, after]
      rfl

theorem kindLines_undocumented (plan : KindPlan) : kindLines plan.undocumented = kindLines plan := by
  have hroot : plan.undocumented.root.typeName = plan.root.typeName := rfl
  unfold kindLines
  rw [hroot]
  simp only [KindPlan.undocumented, ownLines_undocumented, nestedLines_undocumented]

end Plan

/-- An outline prints no documentation. -/
theorem CatalogPlan.outline_undocumented (plan : CatalogPlan) :
    plan.undocumented.outline = plan.outline := by
  have hkinds : plan.undocumented.kinds.flatMap Plan.kindLines =
      plan.kinds.flatMap Plan.kindLines := by
    rw [undocumented, List.flatMap_map]
    simp only [Plan.kindLines_undocumented]
  rw [outline, outline, lines, lines, hkinds]
  rfl

namespace Plan

/-! ## Plans and bare trees -/

section Bare

variable {surface : Surface} {footer other : String}

/-- Without documentation a group has no descriptions. -/
theorem undocumented_undescribed (group : GroupPlan) :
    group.undescribed.undocumented = group.undocumented := by
  cases hprovider : group.provider <;>
    simp [GroupPlan.undescribed, GroupPlan.undocumented, LeafPlan.undescribed,
      LeafPlan.undocumented, hprovider]

/-- The footer is documentation. -/
theorem group_undocumented (method : Option String) (node : Node) :
    (group surface footer method node).undocumented =
      (group surface other method node).undocumented := by
  cases hleaf : node.leaf <;> simp [group, GroupPlan.undocumented, LeafPlan.undocumented, leaf, hleaf]

/-- Without documentation the groups do not depend on the last line of it. -/
theorem groups_undocumented (path : List Segment) (forest : Forest Entry) :
    (groups surface footer path forest).map GroupPlan.undocumented =
      (groups surface other path forest).map GroupPlan.undocumented := by
  induction forest generalizing path with
  | nil => rfl
  | cons entry children siblings below beside =>
      by_cases hshape : (Node.below path entry children).shape = .leaf
      · rw [groups_cons_of_leaf hshape, groups_cons_of_leaf hshape, beside]
      · rw [groups_cons_of_group hshape, groups_cons_of_group hshape, Forest.map, Forest.map, below,
          beside, @group_undocumented _ footer other]

/-- Up to documentation the plan of a tree is that of the bare tree. -/
theorem undocumented_bare (tree : Tree) (rootType footer : String) :
    (group (.ofTree tree rootType) footer none tree.root).undocumented =
        (group (.ofTree tree.bare rootType) "" none tree.bare.root).undocumented ∧
      (groups (.ofTree tree rootType) footer [] tree.forest).map GroupPlan.undocumented =
        (groups (.ofTree tree.bare rootType) "" [] tree.bare.forest).map
          GroupPlan.undocumented := by
  obtain ⟨hroot, hgroups⟩ := plan_bare tree rootType ""
  have hforget : GroupPlan.undocumented ∘ GroupPlan.undescribed = GroupPlan.undocumented :=
    funext undocumented_undescribed
  constructor
  · rw [@group_undocumented _ footer "", ← undocumented_undescribed, ← hroot,
      undocumented_undescribed]
  · rw [@groups_undocumented _ footer "", ← hforget, ← Forest.map_map, ← hgroups, Forest.map_map]

/-- **The bare tree determines the plan** up to documentation. -/
theorem kind_undocumented_of_bare {tree tree' : Tree} (h : tree.bare = tree'.bare)
    (rootType source source' : String) :
    (kind (.ofTree tree rootType) source).undocumented =
      (kind (.ofTree tree' rootType) source').undocumented := by
  have hkind : tree.kind = tree'.kind := congrArg (·.kind) h
  have hlines : tree.lines = tree'.lines := by rw [← Tree.lines_bare, h, Tree.lines_bare]
  have hhash : tree.fingerprint.hash = tree'.fingerprint.hash := congrArg digestLines hlines
  obtain ⟨hroot, hgroups⟩ := undocumented_bare tree rootType (footer tree.kind source)
  obtain ⟨hroot', hgroups'⟩ := undocumented_bare tree' rootType (footer tree'.kind source')
  rw [h, ← hroot'] at hroot
  rw [h, ← hgroups'] at hgroups
  have hparts : ∀ (tree : Tree) (source : String),
      (kind (.ofTree tree rootType) source).undocumented =
        ⟨tree.kind, tree.kind.getter?, tree.fingerprint.hash,
          (group (.ofTree tree rootType) (footer tree.kind source) none tree.root).undocumented,
          (groups (.ofTree tree rootType) (footer tree.kind source) [] tree.forest).map
            GroupPlan.undocumented⟩ := fun _ _ => rfl
  rw [hparts, hparts, hroot, hgroups, hkind, hhash]

end Bare

/-! ## Reading a line -/

/-- The margin of a line, the word after it, and what follows the word. -/
def readLine (line : String) : Nat × List Char × List Char :=
  let text := line.toList.dropWhile (· == ' ')
  ((line.toList.takeWhile (· == ' ')).length, text.takeWhile Char.isAlphanum,
    text.dropWhile Char.isAlphanum)

/-- The alias of the declaration that a line shows; the line of a group shows none. -/
def aliasOfLine? (line : String) : Option String :=
  let rest := (readLine line).2.2
  if rest.take 6 = "() -> ".toList then some (String.ofList (rest.drop 6)) else none

/-- The line has its margin before a method, and it is one line. -/
structure StandsAt (line : String) (margin : Nat) (method : String) : Prop where
  margin_eq : (readLine line).1 = margin
  method_eq : (readLine line).2.1 = method.toList
  unbroken : '\n' ∉ line.toList

/-- A line is read as its margin, the word after it and the rest. -/
theorem readLine_eq {line : String} {margin : Nat} {word rest : List Char} (hword : IsCamel word)
    (hline : line.toList = List.replicate margin ' ' ++ (word ++ '(' :: rest)) :
    readLine line = (margin, word, '(' :: rest) := by
  have hspaces : ∀ c ∈ List.replicate margin ' ', (c == ' ') = true := by simp
  have hparen : ¬ '('.isAlphanum = true := by decide
  have halpha := hword.isAlphanum
  obtain ⟨first, more, rfl, hlower, _⟩ := hword
  have hfirst : ¬ (first == ' ') = true := by
    intro heq
    rw [beq_iff_eq.mp heq] at hlower
    exact absurd hlower (by decide)
  have hstart : (first :: more ++ '(' :: rest).takeWhile (· == ' ') = [] :=
    List.takeWhile_cons_of_neg hfirst
  have hdrop : (first :: more ++ '(' :: rest).dropWhile (· == ' ') = first :: more ++ '(' :: rest :=
    List.dropWhile_cons_of_neg hfirst
  rw [readLine, hline, List.takeWhile_append_of_pos hspaces, List.dropWhile_append_of_pos hspaces,
    hstart, hdrop, List.takeWhile_append_of_pos halpha, List.dropWhile_append_of_pos halpha,
    List.takeWhile_cons_of_neg hparen, List.dropWhile_cons_of_neg hparen]
  simp

/-- Letters and digits are no line feeds. -/
theorem lineFeed_notMem_of_isAlphanum {text : List Char} (h : ∀ c ∈ text, c.isAlphanum = true) :
    '\n' ∉ text :=
  fun hmem => absurd (h _ hmem) (by decide)

section Line

variable {depth : Nat} {leaf : LeafPlan} {method typeName : String}

/-- The line of a leaf is a margin, its getter and the alias. -/
theorem toList_leafLine (depth : Nat) (leaf : LeafPlan) :
    (leafLine depth leaf).toList = List.replicate (2 * depth) ' ' ++
      (leaf.method.toList ++ '(' :: (") -> ".toList ++ leaf.name.toList)) := by
  have hline : leafLine depth leaf = indent depth ++ leaf.method ++ "() -> " ++ leaf.name := rfl
  simp [hline, indent]

/-- The line of a group is a margin, its getter and the type. -/
theorem toList_groupLine (depth : Nat) (method typeName : String) :
    (groupLine depth method typeName).toList = List.replicate (2 * depth) ' ' ++
      (method.toList ++ '(' :: ("): ".toList ++ typeName.toList)) := by
  have hline : groupLine depth method typeName = indent depth ++ method ++ "(): " ++ typeName := rfl
  simp [hline, indent]

/-- The alias is read back from the line of a leaf. -/
theorem aliasOfLine?_leafLine (h : IsCamel leaf.method.toList) :
    aliasOfLine? (leafLine depth leaf) = some leaf.name := by
  rw [aliasOfLine?, readLine_eq h (toList_leafLine depth leaf)]
  simp

/-- No alias is read from the line of a group. -/
theorem aliasOfLine?_groupLine (h : IsCamel method.toList) :
    aliasOfLine? (groupLine depth method typeName) = none := by
  rw [aliasOfLine?, readLine_eq h (toList_groupLine depth method typeName)]
  simp

/-- The line of a leaf stands at its depth with the getter of the leaf. -/
theorem standsAt_leafLine (h : IsCamel leaf.method.toList) (hname : IsPlain leaf.name) :
    StandsAt (leafLine depth leaf) (2 * depth) leaf.method := by
  have hread := readLine_eq h (toList_leafLine depth leaf)
  refine ⟨by rw [hread], by rw [hread], ?_⟩
  rw [toList_leafLine]
  have hfeed : '\n' ∉ leaf.name.toList := hname.notMem (by decide) (by decide)
  simp [lineFeed_notMem_of_isAlphanum h.isAlphanum, hfeed]

/-- The line of a group stands at its depth with the getter of the group. -/
theorem standsAt_groupLine (h : IsCamel method.toList) (htype : IsPascal typeName.toList) :
    StandsAt (groupLine depth method typeName) (2 * depth) method := by
  have hread := readLine_eq h (toList_groupLine depth method typeName)
  refine ⟨by rw [hread], by rw [hread], ?_⟩
  rw [toList_groupLine]
  simp [lineFeed_notMem_of_isAlphanum h.isAlphanum,
    lineFeed_notMem_of_isAlphanum htype.isAlphanum]

end Line

/-! ## The lines of a group -/

/-- The lines of a group with all that is nested in it. -/
def tableLines (depth : Nat) (table : GroupPlan × Forest GroupPlan) : List String :=
  ownLines depth table.1 ++ nestedLines depth table.2

/-- The names of a group are such that its lines can be read. -/
structure Legible (table : GroupPlan × Forest GroupPlan) : Prop where
  isCamel_method : ∀ name ∈ methods table, IsCamel name.toList
  isSome_method : ∀ nested ∈ table.2.roots, nested.method.isSome
  isPascal_typeName : IsPascal table.1.typeName.toList
  isPlain_name : ∀ leaf ∈ table.1.provider.toList ++ table.1.leaves, IsPlain leaf.name

/-- The groups are reached by getters that can be read. -/
def Reachable (forest : Forest GroupPlan) : Prop :=
  ∀ nested ∈ forest.roots, ∃ name, nested.method = some name ∧ IsCamel name.toList

section Table

variable {table : GroupPlan × Forest GroupPlan} {forest : Forest GroupPlan} {depth : Nat}
  {line : String}

/-- The getters of the leaves are among those of the group. -/
theorem mem_methods_of_mem_leaves {leaf : LeafPlan}
    (h : leaf ∈ table.1.provider.toList ++ table.1.leaves) : leaf.method ∈ methods table :=
  List.mem_append_left _ (List.mem_map_of_mem h)

/-- The groups nested in a legible one are reached by camel words. -/
theorem Legible.exists_method (h : Legible table) :
    ∀ nested ∈ table.2.roots, ∃ name ∈ methods table, nested.method = some name ∧
      IsCamel name.toList := by
  intro nested hnested
  obtain ⟨name, hname⟩ := Option.isSome_iff_exists.mp (h.isSome_method nested hnested)
  have hmem : name ∈ methods table :=
    List.mem_append_right _ (List.mem_flatMap.mpr ⟨nested, hnested, by simp [hname]⟩)
  exact ⟨name, hmem, hname, h.isCamel_method name hmem⟩

/-- The groups nested in a legible one all have getters. -/
theorem Legible.reachable (h : Legible table) : Reachable table.2 :=
  fun nested hnested => (h.exists_method nested hnested).imp fun _ hname => hname.2

/-- The own lines of a legible group stand at its depth. -/
theorem Legible.standsAt_of_mem_ownLines (h : Legible table) (hline : line ∈ ownLines depth table.1) :
    ∃ name ∈ methods table, StandsAt line (2 * depth) name := by
  obtain ⟨leaf, hleaf, rfl⟩ := List.mem_map.mp hline
  have hmem := mem_methods_of_mem_leaves hleaf
  exact ⟨_, hmem, standsAt_leafLine (h.isCamel_method _ hmem) (h.isPlain_name _ hleaf)⟩

/-- **What is nested stands further to the right**, and at the margin itself there are the getters of
the nested groups. -/
theorem standsAt_of_mem_nestedLines (hroots : Reachable forest)
    (htables : ∀ table ∈ forest.subtrees, Legible table) (hline : line ∈ nestedLines depth forest) :
    ∃ margin name, StandsAt line margin name ∧
      (2 * depth < margin ∨ margin = 2 * depth ∧ ∃ nested ∈ forest.roots, nested.method = some name) := by
  induction forest generalizing depth with
  | nil => cases hline
  | cons group inner beside below after =>
      obtain ⟨⟨name, hname, hcamel⟩, hlater⟩ := List.forall_mem_cons.mp hroots
      obtain ⟨hlegible, hrest⟩ := List.forall_mem_cons.mp htables
      obtain ⟨hinner, hbeside⟩ := List.forall_mem_append.mp hrest
      rcases List.mem_cons.mp hline with rfl | hline
      · refine ⟨2 * depth, name, ?_, .inr ⟨rfl, group, List.mem_cons_self, hname⟩⟩
        rw [hname]
        exact standsAt_groupLine hcamel hlegible.isPascal_typeName
      rcases List.mem_append.mp hline with hline | hline
      rcases List.mem_append.mp hline with hline | hline
      · obtain ⟨method, _, hstands⟩ := hlegible.standsAt_of_mem_ownLines hline
        exact ⟨_, method, hstands, .inl (by omega)⟩
      · obtain ⟨margin, method, hstands, hmargin⟩ := below hlegible.reachable hinner hline
        exact ⟨margin, method, hstands, .inl (by omega)⟩
      · obtain ⟨margin, method, hstands, hmargin⟩ := after hlater hbeside hline
        refine ⟨margin, method, hstands, hmargin.imp_right fun h => ⟨h.1, ?_⟩⟩
        exact h.2.imp fun nested h => ⟨List.mem_cons_of_mem _ h.1, h.2⟩

/-- So at the margin of a group there stand methods of the group. -/
theorem standsAt_of_mem_tableLines (h : ∀ inner ∈ table :: table.2.subtrees, Legible inner)
    (hline : line ∈ tableLines depth table) :
    ∃ margin name, StandsAt line margin name ∧
      (2 * depth < margin ∨ margin = 2 * depth ∧ name ∈ methods table) := by
  obtain ⟨hlegible, hinner⟩ := List.forall_mem_cons.mp h
  rcases List.mem_append.mp hline with hline | hline
  · obtain ⟨name, hname, hstands⟩ := hlegible.standsAt_of_mem_ownLines hline
    exact ⟨_, name, hstands, .inr ⟨rfl, hname⟩⟩
  · obtain ⟨margin, name, hstands, hmargin⟩ :=
      standsAt_of_mem_nestedLines hlegible.reachable hinner hline
    refine ⟨margin, name, hstands, hmargin.imp_right fun h => ⟨h.1, ?_⟩⟩
    obtain ⟨nested, hnested, hname⟩ := h.2
    exact List.mem_append_right _ (List.mem_flatMap.mpr ⟨nested, hnested, by simp [hname]⟩)

/-! ## The aliases on the lines -/

/-- From the own lines of a group the aliases that it exposes are read. -/
theorem filterMap_ownLines (h : Legible table) (chain : List String) :
    (ownLines depth table.1).filterMap aliasOfLine? =
      (ownExposed chain table.1).map (·.name) := by
  rw [ownLines, ownExposed, List.filterMap_map, List.map_map, ← List.filterMap_eq_map]
  exact List.filterMap_congr fun leaf hleaf =>
    aliasOfLine?_leafLine (h.isCamel_method _ (mem_methods_of_mem_leaves hleaf))

/-- From the lines of nested groups the aliases that these expose are read. -/
theorem filterMap_nestedLines (hroots : Reachable forest)
    (htables : ∀ table ∈ forest.subtrees, Legible table) (chain : List String) :
    (nestedLines depth forest).filterMap aliasOfLine? =
      (nestedExposed chain forest).map (·.name) := by
  induction forest generalizing depth chain with
  | nil => rfl
  | cons group inner beside below after =>
      obtain ⟨⟨name, hname, hcamel⟩, hlater⟩ := List.forall_mem_cons.mp hroots
      obtain ⟨hlegible, hrest⟩ := List.forall_mem_cons.mp htables
      obtain ⟨hinner, hbeside⟩ := List.forall_mem_append.mp hrest
      rw [nestedLines, hname, Option.getD_some,
        List.filterMap_cons_none (aliasOfLine?_groupLine hcamel),
        List.filterMap_append, List.filterMap_append, nestedExposed, List.map_append,
        List.map_append, filterMap_ownLines hlegible, below hlegible.reachable hinner,
        after hlater hbeside]

/-- **The lines of a plan show the aliases that the plan exposes**, in the same order. -/
theorem filterMap_tableLines {plan : KindPlan} (h : ∀ table ∈ tables plan, Legible table)
    (depth : Nat) :
    (tableLines depth (plan.root, plan.groups)).filterMap aliasOfLine? =
      (exposed plan).map (·.name) := by
  obtain ⟨hlegible, hinner⟩ := List.forall_mem_cons.mp h
  rw [tableLines, List.filterMap_append, exposed, List.map_append,
    @filterMap_ownLines _ depth hlegible [], filterMap_nestedLines hlegible.reachable hinner []]

end Table

end Plan

namespace Catalog

open Plan

/-- The root group of a kind with the groups in it. -/
def table (catalog : Catalog) (kind : Kind) : GroupPlan × Forest GroupPlan :=
  let plan := Plan.kind (catalog.surface kind) catalog.options.source
  (plan.root, plan.groups)

/-- The depth at which the lines of a kind stand. -/
def depthOf : Kind → Nat
  | .library => 1
  | _ => 2

/-- The line stands on the first level and shows the getter of a kind. -/
def isGetterLine (line : String) : Bool :=
  (readLine line).1 == 2 &&
    ["getVersions", "getBundles", "getPlugins"].any (·.toList == (readLine line).2.1)

section Lines

variable {options : Options} {declarations : List Declaration} {catalog : Catalog}

/-- The name of a node is plain. -/
theorem isPlain_name (node : Node) : IsPlain node.name := by
  apply isPlain_joinDots
  intro part hpart
  obtain ⟨segment, _, rfl⟩ := List.mem_map.mp hpart
  exact segment.isSegmentChar_of_mem

/-- The plan of a built catalog can be read. -/
theorem legible_of_build (h : build options declarations = .ok catalog) (kind : Kind) :
    ∀ table ∈ tables (Plan.kind (catalog.surface kind) catalog.options.source), Legible table := by
  intro table htable
  obtain ⟨libraryType, hname, hnamed⟩ := namedFrom_of_build h
  obtain ⟨node, hnode, hgroup, own, rfl⟩ :=
    exists_group_of_mem_tables (represents_of_build h kind).2 htable
  refine ⟨fun _ => isCamel_of_mem_methods, fun _ => isSome_method_of_mem_roots, ?_, ?_⟩
  · have hview : (⟨catalog.surface kind, node⟩ : View) ∈ (catalog.surface kind).groups :=
      List.mem_map.mpr ⟨node, List.mem_filter.mpr ⟨hnode, hgroup⟩, rfl⟩
    have htype := hnamed.isPascal_typeName (isPascal_rootType hname) hview
    exact htype
  · intro leaf hleaf
    rcases List.mem_append.mp hleaf with hself | hmember
    · cases hcase : node.leaf with
      | none => simp [group, hcase] at hself
      | some d =>
          obtain rfl : leaf = Plan.leaf _ providerMethod node := by simpa [group, hcase] using hself
          exact isPlain_name node
    · obtain ⟨member, _, rfl⟩ := List.mem_map.mp hmember
      exact isPlain_name member

/-- The lines of the libraries are those of their table alone. -/
theorem kindLines_library (h : build options declarations = .ok catalog) :
    kindLines (Plan.kind (catalog.surface .library) catalog.options.source) =
      tableLines (depthOf .library) (catalog.table .library) := by
  have hnone : (Plan.kind (catalog.surface .library) catalog.options.source).accessor = none :=
    congrArg Kind.getter? (represents_of_build h .library).1
  simp only [kindLines, hnone]
  rfl

/-- The lines of the other kinds stand below a getter. -/
theorem kindLines_of_getter? (h : build options declarations = .ok catalog) {kind : Kind}
    {getter : String} (hgetter : kind.getter? = some getter) :
    kindLines (Plan.kind (catalog.surface kind) catalog.options.source) =
      groupLine 1 getter (catalog.table kind).1.typeName ::
        tableLines (depthOf kind) (catalog.table kind) := by
  have hdepth : depthOf kind = 2 := by
    cases kind with
    | library => cases hgetter
    | version => rfl
    | bundle => rfl
    | plugin => rfl
  have hsome : (Plan.kind (catalog.surface kind) catalog.options.source).accessor = some getter :=
    (congrArg Kind.getter? (represents_of_build h kind).1).trans hgetter
  simp only [kindLines, hsome, hdepth]
  rfl

/-- Every kind but the libraries has one of the three getters. -/
theorem getter?_cases (kind : Kind) :
    kind = .library ∨
      ∃ getter ∈ ["getVersions", "getBundles", "getPlugins"], kind.getter? = some getter := by
  cases kind with
  | library => exact .inl rfl
  | version => exact .inr ⟨"getVersions", by simp, by decide +kernel⟩
  | bundle => exact .inr ⟨"getBundles", by simp, by decide +kernel⟩
  | plugin => exact .inr ⟨"getPlugins", by simp, by decide +kernel⟩

/-- The line of a kind is told from those of groups and leaves. -/
theorem isGetterLine_groupLine {getter typeName : String}
    (h : getter ∈ ["getVersions", "getBundles", "getPlugins"]) :
    isGetterLine (groupLine 1 getter typeName) = true := by
  rw [isGetterLine, readLine_eq (isCamel_of_mem_getters getter h) (toList_groupLine 1 _ _),
    Bool.and_eq_true, List.any_eq_true]
  exact ⟨rfl, getter, h, beq_self_eq_true _⟩

/-- No line of a kind shows the getter of a kind: that of a library differs in the method, the others
in the margin. -/
theorem isGetterLine_of_mem_tableLines (h : build options declarations = .ok catalog) (kind : Kind) :
    ∀ line ∈ tableLines (depthOf kind) (catalog.table kind), isGetterLine line = false := by
  intro line hline
  obtain ⟨margin, name, hstands, hmargin⟩ :=
    standsAt_of_mem_tableLines (legible_of_build h kind) hline
  rw [Bool.eq_false_iff]
  intro hgiven
  rw [isGetterLine, Bool.and_eq_true, List.any_eq_true, hstands.margin_eq, hstands.method_eq] at hgiven
  obtain ⟨htwo, getter, hgetter, hname⟩ := hgiven
  obtain rfl : margin = 2 := beq_iff_eq.mp htwo
  obtain rfl : getter = name := String.toList_inj.mp (beq_iff_eq.mp hname)
  cases kind with
  | library =>
      have hmethod : getter ∈ methods (catalog.table .library) :=
        (hmargin.resolve_left (Nat.lt_irrefl 2)).2
      have hnodup := (nodup_root_methods (represents_of_build h .library).2
        (exists_build_eq_ok_iff.mp ⟨catalog, h⟩).libraries catalog.options.source).of_map
      exact (List.nodup_append.mp hnodup).2.2 getter hgetter getter hmethod rfl
  | version => simp [depthOf] at hmargin
  | bundle => simp [depthOf] at hmargin
  | plugin => simp [depthOf] at hmargin

/-- **The getters cut the lines of a plan** into those of its kinds. -/
theorem splitOnP_lines (h : build options declarations = .ok catalog) :
    (catalog.plan.kinds.flatMap kindLines).splitOnP isGetterLine =
      Kind.all.map fun kind => tableLines (depthOf kind) (catalog.table kind) := by
  have hversions : Kind.getter? .version = some "getVersions" := by decide +kernel
  have hbundles : Kind.getter? .bundle = some "getBundles" := by decide +kernel
  have hplugins : Kind.getter? .plugin = some "getPlugins" := by decide +kernel
  have hlines : catalog.plan.kinds.flatMap kindLines =
      tableLines (depthOf .library) (catalog.table .library) ++
        groupLine 1 "getVersions" (catalog.table .version).1.typeName ::
      (tableLines (depthOf .version) (catalog.table .version) ++
        groupLine 1 "getBundles" (catalog.table .bundle).1.typeName ::
      (tableLines (depthOf .bundle) (catalog.table .bundle) ++
        groupLine 1 "getPlugins" (catalog.table .plugin).1.typeName ::
      tableLines (depthOf .plugin) (catalog.table .plugin))) := by
    simp [plan, Kind.all, kindLines_library h, kindLines_of_getter? h hversions,
      kindLines_of_getter? h hbundles, kindLines_of_getter? h hplugins]
  have hplain := isGetterLine_of_mem_tableLines h
  rw [hlines,
    List.splitOnP_append_cons_of_forall_mem (hplain .library) _ (isGetterLine_groupLine (by simp)),
    List.splitOnP_append_cons_of_forall_mem (hplain .version) _ (isGetterLine_groupLine (by simp)),
    List.splitOnP_append_cons_of_forall_mem (hplain .bundle) _ (isGetterLine_groupLine (by simp)),
    List.splitOnP_eq_singleton (hplain .plugin)]
  rfl

/-- The first line of a plan, of the catalog's type and name. -/
def headLine (plan : CatalogPlan) : String :=
  s!"{plan.typeName} ({plan.name})"

/-- The first line is the type of the catalog and its name. -/
theorem toList_headLine (plan : CatalogPlan) :
    (headLine plan).toList = plan.typeName.toList ++ ' ' :: ('(' :: (plan.name.toList ++ [')'])) := by
  have hline : headLine plan = plan.typeName ++ " (" ++ plan.name ++ ")" := rfl
  simp [hline]

/-- The type of a built catalog is a Pascal word. -/
theorem isPascal_typeName_plan (h : build options declarations = .ok catalog) :
    IsPascal catalog.plan.typeName.toList := by
  obtain ⟨libraryType, hname, hnamed⟩ := namedFrom_of_build h
  exact hnamed.isPascal_typeName (isPascal_rootType hname)
    (List.mem_map.mpr ⟨_, List.mem_filter.mpr ⟨List.mem_cons_self, rfl⟩, rfl⟩)

/-- The name of a built catalog is a segment. -/
theorem exists_segment_of_build (h : build options declarations = .ok catalog) :
    ∃ segment : Segment, segment.text = catalog.options.name := by
  obtain ⟨libraryType, hname, _⟩ := namedFrom_of_build h
  unfold rootType at hname
  split at hname
  · rename_i segment hread
    exact ⟨segment, Segment.parse_eq_ok_iff.mp hread⟩
  · cases hname

/-- The first line has no line feed in it. -/
theorem lineFeed_notMem_headLine (h : build options declarations = .ok catalog) :
    '\n' ∉ (headLine catalog.plan).toList := by
  obtain ⟨segment, hname⟩ := exists_segment_of_build h
  have hfeed : '\n' ∉ catalog.plan.name.toList := by
    intro hmem
    exact absurd (segment.isSegmentChar_of_mem '\n' (hname ▸ hmem)) (by decide)
  rw [toList_headLine]
  simp [lineFeed_notMem_of_isAlphanum (isPascal_typeName_plan h).isAlphanum, hfeed]

/-- The lines of a plan are single lines. -/
theorem lineFeed_notMem_lines (h : build options declarations = .ok catalog) :
    ∀ line ∈ catalog.plan.lines, '\n' ∉ line.toList := by
  intro line hline
  rcases List.mem_cons.mp hline with rfl | hline
  · exact lineFeed_notMem_headLine h
  obtain ⟨plan, hplan, hline⟩ := List.mem_flatMap.mp hline
  obtain ⟨kind, rfl⟩ := exists_kind_of_mem_kinds hplan
  have hlegible := legible_of_build h kind
  have htable : ∀ line ∈ tableLines (depthOf kind) (catalog.table kind), '\n' ∉ line.toList := by
    intro line hline
    obtain ⟨_, _, hstands, _⟩ := standsAt_of_mem_tableLines hlegible hline
    exact hstands.unbroken
  rcases getter?_cases kind with rfl | ⟨getter, hmem, hgetter⟩
  · rw [kindLines_library h] at hline
    exact htable line hline
  · rw [kindLines_of_getter? h hgetter] at hline
    rcases List.mem_cons.mp hline with rfl | hline
    · exact (standsAt_groupLine (isCamel_of_mem_getters getter hmem)
        (hlegible _ List.mem_cons_self).isPascal_typeName).unbroken
    · exact htable line hline

/-- The first line of a plan gives the name of the catalog. -/
theorem name_eq_of_headLine_eq {other : Catalog} {others : List Declaration}
    {otherOptions : Options} (h : build options declarations = .ok catalog)
    (hother : build otherOptions others = .ok other)
    (hline : headLine catalog.plan = headLine other.plan) :
    catalog.options.name = other.options.name := by
  have hspace : ¬ ' '.isAlphanum = true := by decide
  have hrest := congrArg (fun line : String => line.toList.dropWhile Char.isAlphanum) hline
  simp only [toList_headLine] at hrest
  rw [List.dropWhile_append_of_pos (isPascal_typeName_plan h).isAlphanum,
    List.dropWhile_append_of_pos (isPascal_typeName_plan hother).isAlphanum,
    List.dropWhile_cons_of_neg hspace, List.dropWhile_cons_of_neg hspace] at hrest
  have hname := List.append_cancel_right (List.cons.inj (List.cons.inj hrest).2).2
  exact String.toList_inj.mp hname

/-- **From the lines of a kind its aliases are read**, each once. -/
theorem names_perm (h : build options declarations = .ok catalog) (kind : Kind) :
    ((tableLines (depthOf kind) (catalog.table kind)).filterMap aliasOfLine?).Perm
      ((ofKind kind declarations).map (·.name)) := by
  obtain ⟨accessor, hperm, hexposes⟩ := (presents_of_build h kind).exposed_perm
  rw [table, filterMap_tableLines (legible_of_build h kind)]
  refine (hperm.map (·.name)).trans (.of_eq ?_)
  rw [List.map_map]
  exact List.map_congr_left fun d hd => (hexposes d hd).name_eq

end Lines

/-- The name of a catalog and the lines below the first give its plan. -/
theorem undocumented_eq_of_lines {options otherOptions : Options}
    {declarations others : List Declaration} {catalog other : Catalog}
    (h : build options declarations = .ok catalog) (hother : build otherOptions others = .ok other)
    (hname : catalog.options.name = other.options.name)
    (hlines : catalog.plan.kinds.flatMap kindLines = other.plan.kinds.flatMap kindLines) :
    catalog.plan.undocumented = other.plan.undocumented := by
  have htables : ∀ kind ∈ Kind.all, tableLines (depthOf kind) (catalog.table kind) =
      tableLines (depthOf kind) (other.table kind) := by
    apply List.map_inj_left.mp
    rw [← splitOnP_lines h, hlines, splitOnP_lines hother]
  obtain ⟨libraryType, htype, hoptions, hsurfaces⟩ := surface_of_build h
  obtain ⟨otherType, htype', hoptions', hsurfaces'⟩ := surface_of_build hother
  rw [← hoptions, hname, hoptions', htype'] at htype
  obtain rfl : otherType = libraryType := Except.ok.inj htype
  have hkinds : ∀ kind ∈ Kind.all,
      (Plan.kind (catalog.surface kind) catalog.options.source).undocumented =
        (Plan.kind (other.surface kind) other.options.source).undocumented := by
    intro kind hkind
    have hnames : SameNames (ofKind kind declarations) (ofKind kind others) := by
      have hperm := names_perm h kind
      rw [htables kind hkind] at hperm
      intro name
      rw [← List.mem_map, ← List.mem_map, (hperm.symm.trans (names_perm hother kind)).mem_iff]
    obtain ⟨tree, htree, hsurface⟩ := hsurfaces kind
    obtain ⟨tree', htree', hsurface'⟩ := hsurfaces' kind
    rw [hsurface, hsurface']
    exact kind_undocumented_of_bare (Tree.bare_eq_of_same_names htree htree' hnames) _ _ _
  have htypeName : (catalog.root .library).typeName = (other.root .library).typeName :=
    congrArg (·.root.typeName) (hkinds .library (Kind.mem_all _))
  simp only [plan, CatalogPlan.undocumented, List.map_map, hname, htypeName]
  exact congrArg _ (List.map_congr_left hkinds)

/-- **Equal outlines mean equal plans** up to documentation, and the other way round. -/
theorem outline_eq_iff {options otherOptions : Options} {declarations others : List Declaration}
    {catalog other : Catalog} (h : build options declarations = .ok catalog)
    (hother : build otherOptions others = .ok other) :
    catalog.plan.outline = other.plan.outline ↔
      catalog.plan.undocumented = other.plan.undocumented := by
  constructor
  · intro houtline
    have hlines : catalog.plan.lines = other.plan.lines :=
      eq_of_join_lines_eq (lineFeed_notMem_lines h) (lineFeed_notMem_lines hother) houtline
    obtain ⟨hhead, hbody⟩ := List.cons.inj hlines
    exact undocumented_eq_of_lines h hother (name_eq_of_headLine_eq h hother hhead) hbody
  · intro hplans
    rw [← CatalogPlan.outline_undocumented, hplans, CatalogPlan.outline_undocumented]

/-- Catalogs of one version under one alias have one plan, though sources and values differ. -/
theorem outline_eq_of_other_source :
    ∃ catalog other, build {} [.version "a.b" "1"] = .ok catalog ∧
      build { source := "b.toml" } [.version "a.b" "2"] = .ok other ∧
      catalog.plan.outline = other.plan.outline ∧
      catalog.plan.undocumented = other.plan.undocumented := by
  obtain ⟨catalog, h⟩ :=
    @exists_of_isOk _ _ (build {} [.version "a.b" "1"]) (by decide +kernel)
  obtain ⟨other, hother⟩ :=
    @exists_of_isOk _ _ (build { source := "b.toml" } [.version "a.b" "2"]) (by decide +kernel)
  have hlines : (build {} [.version "a.b" "1"]).map (·.plan.outline) =
      (build { source := "b.toml" } [.version "a.b" "2"]).map (·.plan.outline) := by
    decide +kernel
  rw [h, hother] at hlines
  have houtline := Except.ok.inj hlines
  exact ⟨catalog, other, h, hother, houtline, (outline_eq_iff h hother).mp houtline⟩

end Catalog

end AliasCatalog
