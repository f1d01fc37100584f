import AliasCatalog.Proofs.Catalog.Stages
import AliasCatalog.Proofs.Namespace.Lookup

/-!
# Resolution by keys

Resolving a dotted text in a built catalog is a search in the flat list of declarations by keys: the
declaration with exactly the text's keys is returned, a text whose keys only begin those of a
declaration names a group, and any other text misses at its first part whose key leads nowhere
(`resolve_by_keys`).
-/

namespace AliasCatalog.Catalog

open Accessor Namespace Naming

/-- The keys of the parts of a dotted text; a part without an identifier has none. -/
def keysOf (text : String) : List (Option String) :=
  (splitDots text).map key?

/-- The parts all have keys, and these begin the keys of a declaration. -/
def LeadsOn (declarations : List Declaration) (parts : List String) : Prop :=
  ∃ d ∈ declarations, parts.map key? <+: keysOf d.name

/-- The keys of an alias are those of its segments. -/
theorem keysOf_of_accepted {name : String} (h : Accepted name) :
    keysOf name = pathKeys (segmentsOf name) := by
  simp [keysOf, pathKeys, ← h.texts_segmentsOf]

section Root

variable {tree : Tree} {declarations : List Declaration}

/-- From the root those parts are reached from which the keys lead on to a declared name. -/
theorem reaches_root_iff (h : tree.Represents declarations)
    (haccepted : ∀ d ∈ declarations, Accepted d.name) {parts : List String} :
    tree.root.Reaches parts ↔ LeadsOn declarations parts := by
  constructor
  · intro hgiven
    obtain ⟨path, d, hmem, hkeys⟩ := hgiven
    obtain ⟨hd, rfl⟩ := h.mem_declared_root.mp hmem
    exact ⟨d, hd, keysOf_of_accepted (haccepted d hd) ▸ hkeys⟩
  · intro hgiven
    obtain ⟨d, hd, hkeys⟩ := hgiven
    exact ⟨_, d, h.mem_declared_root.mpr ⟨hd, rfl⟩,
      keysOf_of_accepted (haccepted d hd) ▸ hkeys⟩

/-- **The node that a text leads to** holds the declaration with the text's keys, at the path of its name:
since the keys of the path are all those of the text, nothing of the name remains. -/
theorem find_of_leadsOn (h : tree.Represents declarations)
    (haccepted : ∀ d ∈ declarations, Accepted d.name) {dotted : String}
    (hleads : LeadsOn declarations (splitDots dotted)) :
    ∃ node, tree.find dotted = .ok node ∧
      (∀ d, node.leaf = some d ↔ d ∈ declarations ∧ keysOf d.name = keysOf dotted) ∧
      ∀ d, node.leaf = some d → node.path = segmentsOf d.name := by
  obtain ⟨node, path, hwalk, hpath, hkeys, _, hfrom, hinto⟩ :=
    @Node.descend_of_reaches tree.root _ [] h.canonical_root
      ((reaches_root_iff h haccepted).mpr hleads)
  have hat : ∀ d, node.leaf = some d → d ∈ declarations ∧ path = segmentsOf d.name := by
    intro d hleaf
    have hmem := hfrom [] d (mem_declaredFrom.mpr (.inl ⟨rfl, hleaf⟩))
    rw [List.append_nil] at hmem
    exact h.mem_declared_root.mp hmem
  refine ⟨node, hwalk, fun d => ⟨fun hleaf => ?_, ?_⟩, fun d hleaf => ?_⟩
  · obtain ⟨hd, hsame⟩ := hat d hleaf
    exact ⟨hd, by rw [keysOf_of_accepted (haccepted d hd), ← hsame, hkeys, keysOf]⟩
  · intro hgiven
    obtain ⟨hd, hsame⟩ := hgiven
    rw [keysOf_of_accepted (haccepted d hd)] at hsame
    obtain ⟨rest, hsplit, hmem⟩ := hinto (segmentsOf d.name) d
      (h.mem_declared_root.mpr ⟨hd, rfl⟩) (hsame ▸ List.prefix_rfl)
    have hrest : rest = [] := by
      rw [hsplit, keysOf, ← hkeys, pathKeys, pathKeys, List.map_append] at hsame
      simpa using hsame
    rw [hrest] at hmem
    exact leaf_eq_some_iff.mpr hmem
  · rw [hpath, ← (hat d hleaf).2]
    rfl

end Root

section Surface

variable {surface : Surface} {node : Node} {dotted : String}

/-- A text that finds a node with a declaration resolves to its value. -/
theorem resolve_of_declaration {d : Declaration} (hfind : surface.tree.find dotted = .ok node)
    (hleaf : node.leaf = some d) :
    surface.resolve dotted = .ok ⟨d.kind, node.path, adapt d.name d.payload⟩ := by
  simp [Surface.resolve, hfind, Provider.ofNode?, hleaf]

/-- A text that finds a node without a declaration is refused under its own spelling. -/
theorem resolve_of_group (hfind : surface.tree.find dotted = .ok node) (hleaf : node.leaf = none) :
    surface.resolve dotted = .error (.notADeclaration surface.kind dotted) := by
  simp [Surface.resolve, hfind, Provider.ofNode?, hleaf]

/-- A text that finds no node is reported with its first miss. -/
theorem resolve_of_missing {missing : MissingSegment}
    (hfind : surface.tree.find dotted = .error missing) :
    surface.resolve dotted = .error (.notFound surface.kind missing.segment missing.resolved) := by
  simp [Surface.resolve, hfind]

end Surface

section Build

variable {options : Options} {declarations : List Declaration} {catalog : Catalog} {kind : Kind}
  {dotted : String}

/-- A text that leads on is resolved by the one declaration with its keys, and is a group when there
is none. -/
theorem resolve_of_leadsOn (h : build options declarations = .ok catalog)
    (hleads : LeadsOn (ofKind kind declarations) (splitDots dotted)) :
    (∃ d, (∀ e, e ∈ ofKind kind declarations ∧ keysOf e.name = keysOf dotted ↔ e = d) ∧
      catalog.resolve kind dotted = .ok ⟨kind, segmentsOf d.name, adapt d.name d.payload⟩) ∨
    ((∀ d ∈ ofKind kind declarations, keysOf d.name ≠ keysOf dotted) ∧
      catalog.resolve kind dotted = .error (.notADeclaration kind dotted)) := by
  have hadmissible := admissible_of_build h kind
  obtain ⟨hkind, hrepresents⟩ := represents_of_build h kind
  obtain ⟨node, hfind, hleaf, hpath⟩ :=
    find_of_leadsOn hrepresents hadmissible.accepted hleads
  cases hnode : node.leaf with
  | some d =>
      refine .inl ⟨d, fun e => ?_, ?_⟩
      · rw [← hleaf, hnode, Option.some.injEq]
        exact eq_comm
      · have hd := ((hleaf d).mp hnode).1
        have hresolve := resolve_of_declaration hfind hnode
        rw [hpath d hnode, hadmissible.kind_eq hd] at hresolve
        exact hresolve
  | none =>
      refine .inr ⟨fun d hd hsame => ?_, ?_⟩
      · have hsome := (hleaf d).mpr ⟨hd, hsame⟩
        rw [hnode] at hsome
        cases hsome
      · have hgroup := resolve_of_group hfind hnode
        rw [show (catalog.surface kind).kind = kind from hkind] at hgroup
        exact hgroup

/-- A text that does not lead on misses at its first part that leads nowhere. -/
theorem resolve_of_not_leadsOn (h : build options declarations = .ok catalog)
    (hmiss : ¬ LeadsOn (ofKind kind declarations) (splitDots dotted)) :
    ∃ before segment after, splitDots dotted = before ++ segment :: after ∧
      (∀ front, front ≠ [] → front <+: before → LeadsOn (ofKind kind declarations) front) ∧
      ¬ LeadsOn (ofKind kind declarations) (before ++ [segment]) ∧
      catalog.resolve kind dotted = .error (.notFound kind segment (joinDots before)) := by
  have haccepted := (admissible_of_build h kind).accepted
  obtain ⟨hkind, hrepresents⟩ := represents_of_build h kind
  obtain ⟨before, segment, after, hsplit, hfirst, hbefore⟩ :=
    exists_first_miss (splitDots_ne_nil dotted) hmiss
  have hwalk := @Node.descend_of_not_reaches (catalog.tree kind).root segment []
    hrepresents.canonical_root before after
    (fun front hne hprefix => (reaches_root_iff hrepresents haccepted).mpr
      (hbefore front hne hprefix))
    (fun hreach => hfirst ((reaches_root_iff hrepresents haccepted).mp hreach))
  rw [← hsplit] at hwalk
  have hmissing := @resolve_of_missing (catalog.surface kind) dotted _ hwalk
  rw [show (catalog.surface kind).kind = kind from hkind] at hmissing
  exact ⟨before, segment, after, hsplit, hbefore, hfirst, hmissing⟩

/-- **Resolution is a search by keys.**  In a built catalog a text is resolved by the one declaration
of the kind that has the text's keys.  When there is none, a text whose keys begin those of a
declaration is a group, and any other text misses at its first part up to which the keys begin those
of no declaration.  Nothing else happens. -/
theorem resolve_by_keys (h : build options declarations = .ok catalog) (kind : Kind)
    (dotted : String) :
    (∀ d ∈ ofKind kind declarations, none ∉ keysOf d.name) ∧
    (∀ d ∈ ofKind kind declarations, keysOf d.name = keysOf dotted →
      (ofKind kind declarations).filter (keysOf ·.name == keysOf dotted) = [d] ∧
      catalog.resolve kind dotted = .ok ⟨kind, segmentsOf d.name, adapt d.name d.payload⟩) ∧
    ((∀ d ∈ ofKind kind declarations, keysOf d.name ≠ keysOf dotted) →
      (∃ d ∈ ofKind kind declarations, keysOf dotted <+: keysOf d.name) →
      catalog.resolve kind dotted = .error (.notADeclaration kind dotted)) ∧
    ((∀ d ∈ ofKind kind declarations, ¬ keysOf dotted <+: keysOf d.name) →
      ∃ before segment after, splitDots dotted = before ++ segment :: after ∧
        (∀ front, front ≠ [] → front <+: before → LeadsOn (ofKind kind declarations) front) ∧
        ¬ LeadsOn (ofKind kind declarations) (before ++ [segment]) ∧
        catalog.resolve kind dotted = .error (.notFound kind segment (joinDots before))) ∧
    (∀ error, catalog.resolve kind dotted = .error error →
      error = .notADeclaration kind dotted ∨
        ∃ segment resolved, error = .notFound kind segment resolved) := by
  have hadmissible := admissible_of_build h kind
  refine ⟨?_, ?_, ?_, ?_, ?_⟩
  · intro d hd
    rw [keysOf_of_accepted (hadmissible.accepted d hd)]
    simp [pathKeys]
  · intro d hd hsame
    have hleads : LeadsOn (ofKind kind declarations) (splitDots dotted) :=
      ⟨d, hd, by rw [hsame]; exact List.prefix_rfl⟩
    rcases resolve_of_leadsOn h hleads with ⟨e, hone, hresolve⟩ | ⟨hother, _⟩
    · obtain rfl : d = e := (hone d).mp ⟨hd, hsame⟩
      refine ⟨List.perm_singleton.mp ?_, hresolve⟩
      apply (List.perm_ext_iff_of_nodup (hadmissible.different.filter _) (by simp)).mpr
      intro e
      rw [List.mem_filter, beq_iff_eq, hone e, List.mem_singleton]
    · exact absurd hsame (hother d hd)
  · intro hother hprefix
    rcases resolve_of_leadsOn h hprefix with ⟨d, hone, _⟩ | ⟨_, hresolve⟩
    · obtain ⟨hd, hsame⟩ := (hone d).mpr rfl
      exact absurd hsame (hother d hd)
    · exact hresolve
  · intro hmiss
    apply resolve_of_not_leadsOn h
    intro hgiven
    obtain ⟨d, hd, hprefix⟩ := hgiven
    exact hmiss d hd hprefix
  · intro error herror
    by_cases hleads : LeadsOn (ofKind kind declarations) (splitDots dotted)
    · rcases resolve_of_leadsOn h hleads with ⟨d, _, hresolve⟩ | ⟨_, hresolve⟩
      · rw [hresolve] at herror
        cases herror
      · rw [hresolve] at herror
        exact .inl (Except.error.inj herror).symm
    · obtain ⟨before, segment, after, _, _, _, hresolve⟩ := resolve_of_not_leadsOn h hleads
      rw [hresolve] at herror
      exact .inr ⟨segment, joinDots before, (Except.error.inj herror).symm⟩

/-- A library is found under another spelling of its alias, and the beginning of the alias is a
group. -/
theorem resolve_respelled :
    ∃ catalog, build {} [.library "ui.tooling-core" "g" "a"] = .ok catalog ∧
      catalog.resolve .library "UI.tooling_Core" = .ok
        ⟨.library, segmentsOf "ui.tooling-core",
          .library ⟨"ui.tooling-core", "g", "a", none, none⟩⟩ ∧
      catalog.resolve .library "Ui" = .error (.notADeclaration .library "Ui") := by
  obtain ⟨catalog, h⟩ :=
    @exists_of_isOk _ _ (build {} [.library "ui.tooling-core" "g" "a"]) (by decide +kernel)
  have htext : keysOf "UI.tooling_Core" = [some "ui", some "toolingcore"] := by decide +kernel
  have hexact := (resolve_by_keys h .library "UI.tooling_Core").2.1
  have hgroup := (resolve_by_keys h .library "Ui").2.2.1
  rw [htext] at hexact
  refine ⟨catalog, h, (hexact _ List.mem_cons_self (by decide +kernel)).2, ?_⟩
  exact hgroup (by decide +kernel) (by decide +kernel)

end Build

end AliasCatalog.Catalog
