import AliasCatalog.Proofs.Accessor.Sharing
import AliasCatalog.Proofs.Catalog.Outcome
import AliasCatalog.Proofs.Naming.Lookalikes

/-!
# Malformed names

Lookups take any text and normalise its parts as if they were segments, so a malformed name misses only
because its keys are those of no segment.  A text is missed by every catalog exactly when one of its
parts spells nothing, and a name is found in no group exactly when it spells nothing; without lookalikes
that covers all malformed names (`malformed_is_missed`).  With them it does not: `kotlin` written with the
Kelvin sign for its `k` is malformed and resolves to the library `kotlin` (`kelvin_sign_resolves`).
-/

namespace AliasCatalog

open Accessor Namespace Naming Text

namespace Catalog

/-- Whatever the catalog and the kind, a lookup of the text misses. -/
def Unresolvable (dotted : String) : Prop :=
  ∀ options declarations catalog, build options declarations = .ok catalog →
    ∀ kind, ∃ segment resolved, catalog.resolve kind dotted = .error (.notFound kind segment resolved)

/-- No group of a surface or a catalog, whatever way it is reached on, has a child of the name. -/
def Unlisted (name : String) : Prop :=
  (∀ kind declarations tree rootType names view, Tree.ofDeclarations kind declarations = .ok tree →
    Opens (.ofTree tree rootType) names view → view.get? name = none) ∧
  ∀ options declarations catalog, build options declarations = .ok catalog →
    ∀ kind names view, Opens (catalog.surface kind) names view → view.get? name = none

/-! ## What spells nothing is missed -/

section Missed

variable {options : Options} {declarations : List Declaration} {catalog : Catalog} {kind : Kind}
  {dotted name : String} {names parts : List String} {surface : Surface} {view : View}

/-- What has the keys of a beginning of an alias spells something in each part. -/
theorem spells_of_leadsOn (haccepted : ∀ d ∈ declarations, Accepted d.name)
    (h : LeadsOn declarations parts) : ∀ part ∈ parts, Spells part := by
  obtain ⟨d, hd, hfront⟩ := h
  rw [keysOf_of_accepted (haccepted d hd)] at hfront
  intro part hpart
  obtain ⟨segment, _, hkey⟩ := List.mem_map.mp (hfront.subset (List.mem_map_of_mem hpart))
  exact spells_iff.mpr ⟨segment, hkey.symm⟩

/-- A text is missed at the first part that spells nothing, or before. -/
theorem resolve_of_not_spells (h : build options declarations = .ok catalog)
    (hnot : ∃ part ∈ splitDots dotted, ¬ Spells part) :
    ∃ before segment after, splitDots dotted = before ++ segment :: after ∧
      (∀ part ∈ before, Spells part) ∧
      catalog.resolve kind dotted = .error (.notFound kind segment (joinDots before)) := by
  have haccepted := (admissible_of_build h kind).accepted
  obtain ⟨part, hpart, hspells⟩ := hnot
  obtain ⟨before, segment, after, hsplit, hbefore, _, hmiss⟩ :=
    @resolve_of_not_leadsOn _ _ _ kind dotted h
      fun hleads => hspells (spells_of_leadsOn haccepted hleads part hpart)
  refine ⟨before, segment, after, hsplit, fun other hother => ?_, hmiss⟩
  have hleads := hbefore before (List.ne_nil_of_mem hother) List.prefix_rfl
  exact spells_of_leadsOn haccepted hleads other hother

/-- What is found in a group spells something. -/
theorem get?_eq_none_of_not_spells (hrep : surface.tree.Represents declarations)
    (hopens : Opens surface names view) (hnot : ¬ Spells name) : view.get? name = none := by
  have hview := (hrep.descend_root_iff.mp (hopens.descend hrep).2).1
  rw [View.get?, Option.map_eq_none_iff, Option.eq_none_iff_forall_ne_some]
  intro node hchild
  obtain ⟨_, segment, _, hkey⟩ := (hrep.child?_iff hview).mp hchild
  exact hnot (spells_iff.mpr ⟨segment, hkey⟩)

/-- A name that spells no segment finds no child in any view. -/
theorem unlisted_of_not_spells (hnot : ¬ Spells name) : Unlisted name := by
  constructor
  · intro kind declarations tree rootType names view htree hopens
    have hrep : (Surface.ofTree tree rootType).tree.Represents declarations :=
      (Tree.represents_of_ofDeclarations htree).2
    exact get?_eq_none_of_not_spells hrep hopens hnot
  · intro options declarations catalog h kind names view hopens
    exact get?_eq_none_of_not_spells (represents_of_build h kind).2 hopens hnot

end Missed

/-! ## What spells something is found -/

/-- Parts that spell segments have the keys of a path of segments. -/
theorem exists_path_of_spells {parts : List String} (h : ∀ part ∈ parts, Spells part) :
    ∃ path, parts.map key? = pathKeys path := by
  induction parts with
  | nil => exact ⟨[], rfl⟩
  | cons part rest ih =>
      obtain ⟨hpart, hrest⟩ := List.forall_mem_cons.mp h
      obtain ⟨segment, hkey⟩ := spells_iff.mp hpart
      obtain ⟨path, hkeys⟩ := ih hrest
      exact ⟨segment :: path, by rw [List.map_cons, hkey, hkeys]; rfl⟩

/-- Any path of segments is that of a version in some catalog. -/
theorem exists_build_version {path : List Segment} (hne : path ≠ []) :
    ∃ d catalog, segmentsOf d.name = path ∧ d ∈ ofKind .version [d] ∧
      build {} [d] = .ok catalog := by
  obtain ⟨first, rest, rfl⟩ := List.exists_cons_of_ne_nil hne
  have hread := DottedName.parse_joinDots first rest
  let d := Declaration.version (joinDots ((first :: rest).map (·.text))) "1"
  have hkind : d.kind = .version := rfl
  obtain ⟨catalog, h⟩ := exists_build_eq_ok_iff.mpr
    (@buildable_singleton d ⟨_, hread⟩ (by rw [hkind]; decide))
  exact ⟨d, catalog, segmentsOf_of_parse hread, List.mem_cons_self, h⟩

/-- A text whose parts all spell segments resolves in some catalog. -/
theorem resolves_of_spells {dotted : String} (h : ∀ part ∈ splitDots dotted, Spells part) :
    ∃ declarations catalog provider, build {} declarations = .ok catalog ∧
      catalog.resolve .version dotted = .ok provider := by
  obtain ⟨path, hkeys⟩ := exists_path_of_spells h
  have hne : path ≠ [] := by
    rintro rfl
    exact splitDots_ne_nil dotted (List.map_eq_nil_iff.mp hkeys)
  obtain ⟨d, catalog, hpath, hd, hbuild⟩ := exists_build_version hne
  have haccepted := (admissible_of_build hbuild .version).accepted d hd
  have hsame : keysOf d.name = keysOf dotted := by
    rw [keysOf_of_accepted haccepted, hpath, keysOf, hkeys]
  have hleads : LeadsOn (ofKind .version [d]) (splitDots dotted) :=
    ⟨d, hd, hsame ▸ List.prefix_rfl⟩
  rcases resolve_of_leadsOn hbuild hleads with ⟨e, _, hresolve⟩ | ⟨hother, _⟩
  · exact ⟨_, catalog, _, hbuild, hresolve⟩
  · exact absurd hsame (hother d hd)

/-- A name that spells a segment finds a child in some catalog. -/
theorem listed_of_spells {name : String} (h : Spells name) :
    ∃ declarations catalog child, build {} declarations = .ok catalog ∧
      (catalog.root .version).get? name = some child := by
  obtain ⟨segment, hkey⟩ := spells_iff.mp h
  obtain ⟨d, catalog, hpath, hd, hbuild⟩ := exists_build_version (List.cons_ne_nil segment [])
  have hrep := (represents_of_build hbuild .version).2
  obtain ⟨node, hnode, hway⟩ := @Tree.Represents.exists_node _ _ hrep d hd [segment] [] hpath
  have hchild : (catalog.tree .version).root.child? name = some node :=
    (hrep.child?_iff List.mem_cons_self).mpr ⟨hnode, segment, hway, hkey⟩
  exact ⟨_, catalog, _, hbuild, Option.map_eq_some_iff.mpr ⟨node, hchild, rfl⟩⟩

/-! ## Malformed names -/

section Malformed

variable {dotted name : String}

/-- No catalog resolves a text, and every lookup of it misses, exactly when one of its parts spells
nothing. -/
theorem unresolvable_iff : Unresolvable dotted ↔ ∃ part ∈ splitDots dotted, ¬ Spells part := by
  constructor
  · intro h
    by_contra hall
    push Not at hall
    obtain ⟨declarations, catalog, provider, hbuild, hresolve⟩ := resolves_of_spells hall
    obtain ⟨segment, resolved, hmiss⟩ := h _ _ _ hbuild .version
    rw [hresolve] at hmiss
    cases hmiss
  · intro hnot options declarations catalog hbuild kind
    obtain ⟨before, segment, _, _, _, hmiss⟩ := resolve_of_not_spells hbuild hnot
    exact ⟨segment, _, hmiss⟩

/-- No group has a child of a name exactly when the name spells nothing. -/
theorem unlisted_iff : Unlisted name ↔ ¬ Spells name := by
  refine ⟨fun h hspells => ?_, unlisted_of_not_spells⟩
  obtain ⟨declarations, catalog, child, hbuild, hget⟩ := listed_of_spells hspells
  have hnone : (catalog.root .version).get? name = none := h.2 _ _ _ hbuild .version [] _ .root
  rw [hget] at hnone
  cases hnone

/-- A malformed text without lookalikes has a part that spells nothing. -/
theorem exists_not_spells (hmalformed : ¬ Accepted dotted)
    (hplain : ∀ c ∈ dotted.toList, c ∉ allLookalikes) :
    ∃ part ∈ splitDots dotted, ¬ Spells part := by
  by_contra hall
  push Not at hall
  refine hmalformed (accepted_of_isSegment fun part hpart => ?_)
  refine isSegment_of_spells (hall part hpart) fun c hc => hplain c ?_
  obtain ⟨chars, hchars, rfl⟩ := List.mem_map.mp hpart
  rw [String.toList_ofList] at hc
  exact (mem_splitOnP hchars hc).1

/-- **Malformed names are missed**, by every catalog and in every group, unless a lookalike stands in
them.  With lookalikes they are missed as long as some part spells nothing; if every part spells
something, there is a catalog in which they resolve. -/
theorem malformed_is_missed (text : String) :
    (¬ Accepted text → (∀ c ∈ text.toList, c ∉ allLookalikes) → Unresolvable text) ∧
    (isSegment text = false → (∀ c ∈ text.toList, c ∉ allLookalikes) → Unlisted text) ∧
    (Unresolvable text ↔ ∃ part ∈ splitDots text, ¬ Spells part) ∧
    (Unlisted text ↔ ¬ Spells text) := by
  refine ⟨fun hmalformed hplain => ?_, fun hmalformed hplain => ?_, unresolvable_iff, unlisted_iff⟩
  · exact unresolvable_iff.mpr (exists_not_spells hmalformed hplain)
  · refine unlisted_iff.mpr fun hspells => ?_
    rw [isSegment_of_spells hspells hplain] at hmalformed
    cases hmalformed

/-- A character outside the alphabet keeps a text from resolving. -/
theorem dollar_is_missed : Unresolvable "a.b$c" ∧ Unlisted "b$c" := by
  have hrefused : DottedName.parse "a.b$c" = .error (.segment 2 "b$c" (.badCharacter '$')) := by
    decide +kernel
  have hplain : ∀ text ∈ ["a.b$c", "b$c"], ∀ c ∈ text.toList, c ∉ allLookalikes := by
    simp [allLookalikes, lowercaseLookalikes, uppercaseLookalikes]
  exact ⟨(malformed_is_missed "a.b$c").1 (not_accepted_iff.mpr ⟨_, hrefused⟩) (hplain _ (by simp)),
    (malformed_is_missed "b$c").2.1 (by decide +kernel) (hplain _ (by simp))⟩

end Malformed

/-- The Kelvin sign stands for a `K`: with it a text that is no alias resolves to a library, and the
root has a child of this name. -/
theorem kelvin_sign_resolves :
    ∃ catalog, build {} [.library "kotlin" "g" "a"] = .ok catalog ∧
      ¬ Accepted "\u212Aotlin" ∧ isSegment "\u212Aotlin" = false ∧
      catalog.resolve .library "\u212Aotlin" =
        .ok ⟨.library, segmentsOf "kotlin", .library ⟨"kotlin", "g", "a", none, none⟩⟩ ∧
      ((catalog.root .library).get? "\u212Aotlin").isSome = true := by
  obtain ⟨catalog, h⟩ :=
    @exists_of_isOk _ _ (build {} [.library "kotlin" "g" "a"]) (by decide +kernel)
  have hfound : (build {} [.library "kotlin" "g" "a"]).map (fun catalog =>
      (catalog.resolve .library "\u212Aotlin",
        ((catalog.root .library).get? "\u212Aotlin").isSome)) =
      .ok (.ok ⟨.library, segmentsOf "kotlin", .library ⟨"kotlin", "g", "a", none, none⟩⟩, true) := by
    decide +kernel
  rw [h] at hfound
  obtain ⟨hresolved, hlisted⟩ := Prod.mk.inj (Except.ok.inj hfound)
  have hrefused : DottedName.parse "\u212Aotlin" =
      .error (.segment 1 "\u212Aotlin" (.badCharacter '\u212A')) := by decide +kernel
  exact ⟨catalog, h, not_accepted_iff.mpr ⟨_, hrefused⟩, by decide +kernel, hresolved, hlisted⟩

end Catalog

end AliasCatalog
