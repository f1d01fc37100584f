import AliasCatalog.Proofs.Catalog.Resolution
import AliasCatalog.Proofs.Plan.Methods

/-!
# Growing catalogs

Declarations can be added to a catalog without disturbing what it shows.  What stands in the way of a
catalog stands in the way of a larger one as well, identifiers do not depend on siblings, and keys that
lead to a declaration lead to it whatever else is declared.  So a part of a list that makes a catalog
makes one too, and everything in it is found again in the larger one (`extends_of_sublist`).
-/

namespace AliasCatalog

open Accessor Namespace Naming

/-! ## Defects -/

namespace Namespace

variable {fewer declarations : List Declaration}

/-- A defect of some declarations is one of more. -/
theorem HasDefect.of_sublist (h : HasDefect fewer) (hsub : fewer.Sublist declarations) :
    HasDefect declarations := by
  rcases h with ⟨d, hd, hrefused⟩ | hrepeat | ⟨d, hd, e, he, hclash⟩
  · exact .inl ⟨d, hsub.subset hd, hrefused⟩
  · exact .inr (.inl fun hnodup => hrepeat ((hsub.map _).nodup hnodup))
  · exact .inr (.inr ⟨d, hsub.subset hd, e, hsub.subset he, hclash⟩)

/-- What goes on among some declarations goes on among more. -/
theorem Continues.of_subset {parts : List String} (h : Continues fewer parts)
    (hsub : fewer ⊆ declarations) : Continues declarations parts := by
  obtain ⟨d, hd, hmore⟩ := h
  exact ⟨d, hsub hd, hmore⟩

/-! ## Nodes -/

namespace Tree.Represents

variable {tree larger : Tree} {node other : Node}

/-- Every node is found again, at its path, in a tree of more declarations. -/
theorem exists_node_of_subset (h : tree.Represents fewer) (hlarger : larger.Represents declarations)
    (hsub : fewer ⊆ declarations) (hnode : node ∈ tree.nodes) :
    ∃ other ∈ larger.nodes, other.path = node.path := by
  by_cases hpath : node.path = []
  · exact ⟨larger.root, List.mem_cons_self, hpath.symm⟩
  · obtain ⟨d, hd, rest, hsplit⟩ := h.exists_declared hnode hpath
    exact hlarger.exists_node (hsub hd) hsplit

/-- An ambiguous node stays ambiguous among more declarations. -/
theorem ambiguous_of_subset (h : tree.Represents fewer) (hlarger : larger.Represents declarations)
    (hsub : fewer ⊆ declarations) (hnode : node ∈ tree.nodes) (hother : other ∈ larger.nodes)
    (hpath : other.path = node.path) (hshape : node.shape = .ambiguous) :
    other.shape = .ambiguous := by
  obtain ⟨⟨d, hleaf⟩, hchildren⟩ := Node.shape_eq_ambiguous_iff.mp hshape
  obtain ⟨hd, hown⟩ := (h.leaf_iff hnode).mp hleaf
  obtain ⟨e, he, hbelow⟩ := (h.children_ne_nil_iff hnode).mp hchildren
  rw [← hpath] at hown hbelow
  exact Node.shape_eq_ambiguous_iff.mpr ⟨⟨d, (hlarger.leaf_iff hother).mpr ⟨hsub hd, hown⟩⟩,
    (hlarger.children_ne_nil_iff hother).mpr ⟨e, hsub he, hbelow⟩⟩

end Tree.Represents

end Namespace

/-! ## Chains of getters -/

namespace Plan

/-- The chains of getters under which a plan exposes an alias. -/
def chainsOf (plan : KindPlan) (name : String) : List (List String) :=
  ((exposed plan).filter (·.name == name)).map (·.chain)

/-- An element of a list is told by its image when no two images are equal. -/
theorem filter_eq_singleton {α β : Type} [BEq β] [LawfulBEq β] {f : α → β} {list : List α} {x : α}
    (hnodup : (list.map f).Nodup) (hx : x ∈ list) : list.filter (f · == f x) = [x] := by
  apply List.perm_singleton.mp
  apply (List.perm_ext_iff_of_nodup ((List.Nodup.of_map _ hnodup).filter _)
    (List.nodup_singleton x)).mpr
  intro y
  rw [List.mem_filter, beq_iff_eq, List.mem_singleton]
  constructor
  · intro hgiven
    exact List.inj_on_of_nodup_map hnodup hgiven.1 hx hgiven.2
  · rintro rfl
    exact ⟨hx, rfl⟩

/-- A plan has one chain for each declaration, that of its accessor. -/
theorem Presents.exists_chainsOf {plan : KindPlan} {declarations : List Declaration}
    {footer : String} (h : Presents plan declarations footer) {d : Declaration}
    (hd : d ∈ declarations) :
    ∃ accessor, chainsOf plan d.name = [accessor.chain] ∧ Exposes declarations footer d accessor := by
  obtain ⟨accessor, hperm, hexposes⟩ := h.exposed_perm
  have hmem : accessor d ∈ exposed plan := hperm.mem_iff.mpr (List.mem_map_of_mem hd)
  have hone := filter_eq_singleton h.names_nodup hmem
  rw [(hexposes d hd).name_eq] at hone
  exact ⟨accessor d, by rw [chainsOf, hone]; rfl, hexposes d hd⟩

end Plan

/-- Some alias goes on from that of the declaration, but none did among the fewer declarations. -/
def BecomesAmbiguous (fewer declarations : List Declaration) (d : Declaration) : Prop :=
  ¬ Continues fewer (splitDots d.name) ∧ Continues declarations (splitDots d.name)

section Chains

variable {fewer declarations : List Declaration} {footer footer' : String} {d : Declaration}
  {accessor other : Exposed}

/-- Accessors of a declaration that does not become ambiguous have one chain. -/
theorem Exposes.chain_eq (h : Exposes fewer footer d accessor)
    (hother : Exposes declarations footer' d other) (hsub : fewer ⊆ declarations)
    (hstays : ¬ BecomesAmbiguous fewer declarations d) : other.chain = accessor.chain := by
  apply (List.map_inj_right fun _ _ => Option.some.inj).mp
  by_cases hfewer : Continues fewer (splitDots d.name)
  · rw [h.chain_of_continues hfewer, hother.chain_of_continues (hfewer.of_subset hsub)]
  · have hnone : ¬ Continues declarations (splitDots d.name) := fun hc => hstays ⟨hfewer, hc⟩
    rw [h.chain_of_not_continues hfewer, hother.chain_of_not_continues hnone]

/-- The accessor of a declaration that becomes ambiguous is reached by the self accessor after the
chain it had. -/
theorem Exposes.chain_eq_append (h : Exposes fewer footer d accessor)
    (hother : Exposes declarations footer' d other)
    (hbecomes : BecomesAmbiguous fewer declarations d) :
    other.chain = accessor.chain ++ [providerMethod] := by
  apply (List.map_inj_right fun _ _ => Option.some.inj).mp
  rw [List.map_append, h.chain_of_not_continues hbecomes.1, hother.chain_of_continues hbecomes.2]
  rfl

end Chains

namespace Catalog

variable {options : Options} {fewer declarations : List Declaration} {catalog smaller : Catalog}

/-- A part of a list has a part of its declarations of a kind. -/
theorem ofKind_sublist (h : fewer.Sublist declarations) (kind : Kind) :
    (ofKind kind fewer).Sublist (ofKind kind declarations) :=
  h.filter _

/-- What makes a catalog makes one with some declarations left out. -/
theorem Buildable.of_sublist (h : Buildable options declarations)
    (hsub : fewer.Sublist declarations) : Buildable options fewer where
  name := h.name
  libraries d hd := h.libraries d ((ofKind_sublist hsub .library).subset hd)
  kinds kind hdefect := h.kinds kind (hdefect.of_sublist (ofKind_sublist hsub kind))

/-- **What resolves among some declarations resolves alike among more.** -/
theorem resolve_of_subset (h : build options declarations = .ok catalog)
    (hsmaller : build options fewer = .ok smaller) {kind : Kind} {dotted : String}
    {provider : Provider} (hsub : ofKind kind fewer ⊆ ofKind kind declarations)
    (hresolve : smaller.resolve kind dotted = .ok provider) :
    catalog.resolve kind dotted = .ok provider := by
  by_cases hleads : LeadsOn (ofKind kind fewer) (splitDots dotted)
  · rcases resolve_of_leadsOn hsmaller hleads with ⟨d, hone, hfound⟩ | ⟨_, hgroup⟩
    · obtain ⟨hd, hkeys⟩ := (hone d).mpr rfl
      have hleads' : LeadsOn (ofKind kind declarations) (splitDots dotted) :=
        ⟨d, hsub hd, hkeys ▸ List.prefix_rfl⟩
      rcases resolve_of_leadsOn h hleads' with ⟨e, hone', hfound'⟩ | ⟨hother, _⟩
      · obtain rfl : d = e := (hone' d).mp ⟨hsub hd, hkeys⟩
        rw [hfound', ← hfound, hresolve]
      · exact absurd hkeys (hother d (hsub hd))
    · rw [hgroup] at hresolve
      cases hresolve
  · obtain ⟨_, _, _, _, _, _, hmiss⟩ := resolve_of_not_leadsOn hsmaller hleads
    rw [hmiss] at hresolve
    cases hresolve

/-- **Every node stands in the tree of more declarations** under its identifiers. -/
theorem exists_node_of_subset (h : build options declarations = .ok catalog)
    (hsmaller : build options fewer = .ok smaller) {kind : Kind} {node : Node}
    (hsub : ofKind kind fewer ⊆ ofKind kind declarations)
    (hnode : node ∈ (smaller.tree kind).nodes) :
    ∃ other ∈ (catalog.tree kind).nodes, other.name = node.name ∧
      other.identifier? = node.identifier? ∧ other.identifiers = node.identifiers ∧
      (node.shape = .ambiguous → other.shape = .ambiguous) := by
  have hfrom := (represents_of_build hsmaller kind).2
  have hinto := (represents_of_build h kind).2
  obtain ⟨other, hother, hpath⟩ := hfrom.exists_node_of_subset hinto hsub hnode
  have hidentifiers : other.identifiers = node.identifiers := by
    rw [Node.identifiers, Node.identifiers, hpath]
  refine ⟨other, hother, ?_, ?_, hidentifiers, ?_⟩
  · rw [Node.name, Node.name, hpath]
  · rw [Node.identifier?, Node.identifier?, hidentifiers]
  · exact hfrom.ambiguous_of_subset hinto hsub hnode hother hpath

/-- **The chain of getters of a declaration stays** in the plan of more declarations, and is only
prolonged by the self accessor when the declaration becomes ambiguous. -/
theorem exists_chain_of_subset (h : build options declarations = .ok catalog)
    (hsmaller : build options fewer = .ok smaller) {kind : Kind} {d : Declaration}
    (hsub : ofKind kind fewer ⊆ ofKind kind declarations) (hd : d ∈ ofKind kind fewer) :
    ∃ chain,
      Plan.chainsOf (Plan.kind (smaller.surface kind) smaller.options.source) d.name = [chain] ∧
      (¬ BecomesAmbiguous (ofKind kind fewer) (ofKind kind declarations) d →
        Plan.chainsOf (Plan.kind (catalog.surface kind) catalog.options.source) d.name = [chain]) ∧
      (BecomesAmbiguous (ofKind kind fewer) (ofKind kind declarations) d →
        Plan.chainsOf (Plan.kind (catalog.surface kind) catalog.options.source) d.name =
          [chain ++ [providerMethod]]) := by
  obtain ⟨accessor, hchains, hexposes⟩ := (presents_of_build hsmaller kind).exists_chainsOf hd
  obtain ⟨other, hchains', hexposes'⟩ := (presents_of_build h kind).exists_chainsOf (hsub hd)
  refine ⟨accessor.chain, hchains, fun hstays => ?_, fun hbecomes => ?_⟩
  · rw [hchains', hexposes.chain_eq hexposes' hsub hstays]
  · rw [hchains', hexposes.chain_eq_append hexposes' hbecomes]

/-- **Everything in a catalog is found again in a larger one**: what resolves, its nodes under their
identifiers, and the chains of getters that lead to its declarations.  A declaration that becomes
ambiguous is reached by the self accessor of its new group. -/
structure Extends (smaller larger : Catalog) (fewer declarations : List Declaration) : Prop where
  resolve_eq : ∀ kind dotted provider, smaller.resolve kind dotted = .ok provider →
    larger.resolve kind dotted = .ok provider
  exists_node : ∀ kind, ∀ node ∈ (smaller.tree kind).nodes, ∃ other ∈ (larger.tree kind).nodes,
    other.name = node.name ∧ other.identifier? = node.identifier? ∧
      other.identifiers = node.identifiers ∧ (node.shape = .ambiguous → other.shape = .ambiguous)
  /-- Either plan has one part for each kind, and each declaration has one chain in both. -/
  exists_chain : ∀ kind, ∃ part other,
    smaller.plan.kinds.filter (·.kind == kind) = [part] ∧
    larger.plan.kinds.filter (·.kind == kind) = [other] ∧
    ∀ d ∈ ofKind kind fewer, ∃ chain, Plan.chainsOf part d.name = [chain] ∧
      (¬ BecomesAmbiguous (ofKind kind fewer) (ofKind kind declarations) d →
        Plan.chainsOf other d.name = [chain]) ∧
      (BecomesAmbiguous (ofKind kind fewer) (ofKind kind declarations) d →
        Plan.chainsOf other d.name = [chain ++ [providerMethod]])

/-- **Catalogs are stable under adding declarations.**  A part of a list of declarations that makes a
catalog makes one as well, and the larger catalog extends it. -/
theorem extends_of_sublist (h : build options declarations = .ok catalog)
    (hsub : fewer.Sublist declarations) :
    ∃ smaller, build options fewer = .ok smaller ∧ smaller.Extends catalog fewer declarations := by
  have hbuildable := exists_build_eq_ok_iff.mp ⟨catalog, h⟩
  obtain ⟨smaller, hsmaller⟩ := exists_build_eq_ok_iff.mpr (hbuildable.of_sublist hsub)
  have hsubset := fun kind => (ofKind_sublist hsub kind).subset
  refine ⟨smaller, hsmaller, ?_, ?_, ?_⟩
  · intro kind dotted provider hresolve
    exact resolve_of_subset h hsmaller (hsubset kind) hresolve
  · intro kind node hnode
    exact exists_node_of_subset h hsmaller (hsubset kind) hnode
  · intro kind
    refine ⟨_, _, filter_kinds_of_build hsmaller kind, filter_kinds_of_build h kind, ?_⟩
    intro d hd
    exact exists_chain_of_subset h hsmaller (hsubset kind) hd

/-- A library that becomes ambiguous keeps its getter and is reached by the self accessor after it, when a
library below it is declared first. -/
theorem extends_below_library :
    ∃ catalog smaller, build {} [.library "ui.core" "g" "c", .library "ui" "g" "u"] = .ok catalog ∧
      build {} [.library "ui" "g" "u"] = .ok smaller ∧
      smaller.Extends catalog [.library "ui" "g" "u"]
        [.library "ui.core" "g" "c", .library "ui" "g" "u"] ∧
      BecomesAmbiguous [.library "ui" "g" "u"] [.library "ui.core" "g" "c", .library "ui" "g" "u"]
        (.library "ui" "g" "u") ∧
      ∃ part other, smaller.plan.kinds.filter (·.kind == .library) = [part] ∧
        catalog.plan.kinds.filter (·.kind == .library) = [other] ∧
        Plan.chainsOf part "ui" = [["getUi"]] ∧
        Plan.chainsOf other "ui" = [["getUi", "asProvider"]] := by
  obtain ⟨catalog, h⟩ :=
    @exists_of_isOk _ _ (build {} [.library "ui.core" "g" "c", .library "ui" "g" "u"])
      (by decide +kernel)
  obtain ⟨smaller, hsmaller, hextends⟩ :=
    @extends_of_sublist _ [.library "ui" "g" "u"] _ _ h (by decide +kernel)
  have hbecomes : BecomesAmbiguous [.library "ui" "g" "u"]
      [.library "ui.core" "g" "c", .library "ui" "g" "u"] (.library "ui" "g" "u") := by
    constructor
    · rintro ⟨d, hd, more, hne, hsplit⟩
      obtain rfl := List.mem_singleton.mp hd
      exact hne (List.self_eq_append_right.mp hsplit)
    · exact ⟨_, List.mem_cons_self, ["core"], by decide, by decide +kernel⟩
  obtain ⟨part, other, hpart, hother, hchains⟩ := hextends.exists_chain .library
  obtain ⟨chain, hchain, _, hlonger⟩ := hchains (.library "ui" "g" "u") (by decide)
  have hfirst : (smaller.plan.kinds.filter (·.kind == .library)).map (Plan.chainsOf · "ui") =
      [[["getUi"]]] :=
    @eq_of_map_eq_ok _ _ _ _ (fun made : Catalog =>
      (made.plan.kinds.filter (·.kind == .library)).map (Plan.chainsOf · "ui")) _ _ hsmaller
        (by decide +kernel)
  rw [hpart] at hfirst
  have hgetter : Plan.chainsOf part "ui" = [["getUi"]] := List.singleton_inj.mp hfirst
  obtain rfl : ["getUi"] = chain := List.singleton_inj.mp (hgetter.symm.trans hchain)
  exact ⟨catalog, smaller, h, hsmaller, hextends, hbecomes, part, other, hpart, hother, hgetter,
    hlonger hbecomes⟩

end Catalog

end AliasCatalog
