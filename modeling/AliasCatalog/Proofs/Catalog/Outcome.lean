import AliasCatalog.Proofs.Catalog.Stages

/-!
# What a build ends with

The outcome of a build can be told from its options and declarations by looking, in this order, at
the catalog's name, at the library aliases, and at the defects of each kind (`build_outcome`).  A
defect is a refused name, a repeated name or two clashing names; without any the build goes through.
-/

namespace AliasCatalog

open Namespace Naming

/-! ## One kind -/

namespace Namespace

/-- Some name is refused, two declarations have one name, or two names clash. -/
def HasDefect (declarations : List Declaration) : Prop :=
  (∃ d ∈ declarations, ¬ Accepted d.name) ∨ ¬ (declarations.map (·.name)).Nodup ∨
    ∃ d ∈ declarations, ∃ e ∈ declarations, Clash d.name e.name

/-- The error that declarations with a defect end with: the first refused name comes before the first
repeated one, and that before a collision. -/
inductive Reports (kind : Kind) (declarations : List Declaration) : NamingError → Prop where
  | refused {d : Declaration} {defect : NameDefect}
      (first : IsFirst (fun e => ¬ Accepted e.name) declarations d)
      (read : DottedName.parse d.name = .error defect) :
      Reports kind declarations (.invalidName kind d.name (.malformed defect))
  | repeated {d : Declaration} (accepted : ∀ e ∈ declarations, Accepted e.name)
      (first : IsFirstRepeat (·.name) declarations d) :
      Reports kind declarations (.duplicateAlias kind d.name)
  | clashing {error : NamingError} (accepted : ∀ e ∈ declarations, Accepted e.name)
      (nodup : (declarations.map (·.name)).Nodup)
      (clash : ∃ d ∈ declarations, ∃ e ∈ declarations, Clash d.name e.name)
      (collision : error.IsCollision kind) : Reports kind declarations error

variable {kind : Kind} {declarations : List Declaration}

/-- Declarations of one kind without a defect make a tree. -/
theorem ofDeclarations_of_not_hasDefect (hkind : ∀ d ∈ declarations, d.kind = kind)
    (h : ¬ HasDefect declarations) : ∃ tree, Tree.ofDeclarations kind declarations = .ok tree := by
  simp only [HasDefect, not_or, not_exists, not_and, Classical.not_not] at h
  obtain ⟨haccepted, hnodup, hclash⟩ := h
  have hadmissible : Admissible kind declarations :=
    ⟨fun d hd => ⟨hkind d hd, haccepted d hd⟩, hnodup⟩
  obtain ⟨tree, hbuild, _⟩ := Tree.ofDeclarations_eq_ok hadmissible hclash
  exact ⟨tree, hbuild⟩

/-- **Declarations of one kind with a defect are reported** in the order of precedence. -/
theorem ofDeclarations_of_hasDefect (hkind : ∀ d ∈ declarations, d.kind = kind)
    (h : HasDefect declarations) :
    ∃ error, Tree.ofDeclarations kind declarations = .error error ∧
      Reports kind declarations error := by
  by_cases hrefused : ∃ d ∈ declarations, ¬ Accepted d.name
  · obtain ⟨d, hfirst⟩ := exists_isFirst hrefused
    obtain ⟨defect, hread⟩ := not_accepted_iff.mp hfirst.mem.2
    refine ⟨_, ?_, .refused hfirst hread⟩
    obtain ⟨before, after, rfl, _, hbefore⟩ := hfirst
    exact Tree.ofDeclarations_refused
      (fun e he => ⟨hkind e (by simp [he]), Classical.not_not.mp (hbefore e he)⟩)
      (hkind d (by simp)) hread
  · have haccepted : ∀ d ∈ declarations, Accepted d.name := fun d hd =>
      Classical.byContradiction fun hnot => hrefused ⟨d, hd, hnot⟩
    have hread : ∀ d ∈ declarations, Readable kind d := fun d hd => ⟨hkind d hd, haccepted d hd⟩
    by_cases hnodup : (declarations.map (·.name)).Nodup
    · have hclash := (h.resolve_left hrefused).resolve_left (not_not_intro hnodup)
      obtain ⟨error, hrun, hcollision⟩ := Tree.ofDeclarations_isCollision ⟨hread, hnodup⟩ hclash
      exact ⟨error, hrun, .clashing haccepted hnodup hclash hcollision⟩
    · obtain ⟨d, hfirst⟩ := exists_isFirstRepeat hnodup
      exact ⟨_, Tree.ofDeclarations_repeated hread hfirst, .repeated haccepted hfirst⟩

end Namespace

namespace Catalog

variable {options : Options} {declarations : List Declaration}

/-! ## The name of the catalog -/

/-- The text is a dotted name of one segment. -/
def IsOneSegment (text : String) : Prop :=
  ∃ name, DottedName.parse text = .ok name ∧ name.depth = 1

/-- A catalog with another name is refused for the defect of its name. -/
theorem build_of_not_isOneSegment (h : ¬ IsOneSegment options.name) :
    ∃ defect, Segment.parse options.name = .error defect ∧
      build options declarations = .error (.invalidCatalogName options.name defect) := by
  rw [IsOneSegment, DottedName.parse_depth_one_iff] at h
  cases hread : Segment.parse options.name with
  | ok segment => exact absurd ⟨segment, hread⟩ h
  | error defect =>
      refine ⟨defect, rfl, ?_⟩
      rw [build_eq_bind, rootType, hread]
      rfl

/-- A catalog whose name is one segment gets a root type, and the other stages follow. -/
theorem build_of_isOneSegment (h : IsOneSegment options.name) :
    ∃ libraryType, build options declarations =
      (((ofKind .library declarations).forM checkRoot).mapError .naming).bind fun _ =>
        buildTrees options libraryType declarations := by
  obtain ⟨segment, hread⟩ := DottedName.parse_depth_one_iff.mp h
  refine ⟨"LibrariesFor" ++ segment.identifier.capitalized, ?_⟩
  rw [build_eq_bind, rootType, hread]
  rfl

/-! ## The roots of library aliases -/

/-- The first part of the name has the key of a getter of the catalog. -/
def ReservedRoot (name : String) : Prop :=
  ∃ first rest, splitDots name = first :: rest ∧
    key? first ∈ [some "bundles", some "plugins", some "versions"]

/-- The library alias is refused. -/
def BadLibrary (d : Declaration) : Prop :=
  ¬ Accepted d.name ∨ ReservedRoot d.name

/-- The reason for which a library alias is refused: its first defect as a dotted name, or else the
kind whose getter its first part is. -/
inductive RefusedFor (d : Declaration) : InvalidReason → Prop where
  | malformed {defect : NameDefect} (read : DottedName.parse d.name = .error defect) :
      RefusedFor d (.malformed defect)
  | reserved {first : String} {rest : List String} {owner : Kind} (accepted : Accepted d.name)
      (split : splitDots d.name = first :: rest) (key : key? first = some owner.plural) :
      RefusedFor d (.reserved first owner)

/-- The getters of the kinds other than libraries are reserved. -/
theorem reservedFor?_eq_some_iff {key : String} {owner : Kind} :
    reservedFor? key = some owner ↔ owner ≠ .library ∧ key = owner.plural := by
  constructor
  · intro h
    have hmem := List.mem_of_find?_eq_some h
    have hkey : owner.plural = key := by simpa using List.find?_some h
    refine ⟨?_, hkey.symm⟩
    intro heq
    subst heq
    simp at hmem
  · intro hgiven
    obtain ⟨hother, rfl⟩ := hgiven
    cases owner with
    | library => exact absurd rfl hother
    | version => decide
    | bundle => decide
    | plugin => decide

/-- A dotted name has a reserved root when a getter has the key of its first segment. -/
theorem reservedRoot_iff {text : String} {name : DottedName}
    (hread : DottedName.parse text = .ok name) :
    ReservedRoot text ↔ ∃ owner, reservedFor? name.first.key = some owner := by
  have hparts : splitDots text = name.first.text :: name.rest.map (·.text) :=
    (DottedName.texts_of_parse hread).symm
  simp only [ReservedRoot, hparts, reservedFor?_eq_some_iff]
  constructor
  · intro hgiven
    obtain ⟨first, rest, hsplit, hkey⟩ := hgiven
    obtain ⟨rfl, rfl⟩ := List.cons.inj hsplit
    simp only [Segment.key?_text, List.mem_cons, Option.some.injEq, List.not_mem_nil,
      or_false] at hkey
    rcases hkey with hkey | hkey | hkey
    · exact ⟨.bundle, by decide, hkey⟩
    · exact ⟨.plugin, by decide, hkey⟩
    · exact ⟨.version, by decide, hkey⟩
  · intro hgiven
    obtain ⟨owner, hother, hkey⟩ := hgiven
    refine ⟨_, _, rfl, ?_⟩
    rw [Segment.key?_text, hkey]
    cases owner with
    | library => exact absurd rfl hother
    | version => decide
    | bundle => decide
    | plugin => decide

/-- A library that is not bad passes the examination. -/
theorem checkRoot_of_not_bad {d : Declaration} (hkind : d.kind = .library) (h : ¬ BadLibrary d) :
    checkRoot d = .ok () := by
  obtain ⟨haccepted, hroot⟩ := not_or.mp h
  obtain ⟨name, hread⟩ := Classical.not_not.mp haccepted
  rw [checkRoot_eq_match hkind hread]
  cases howner : reservedFor? name.first.key with
  | none => rfl
  | some owner => exact absurd ((reservedRoot_iff hread).mpr ⟨owner, howner⟩) hroot

/-- A bad library is refused for what is bad about it. -/
theorem checkRoot_of_bad {d : Declaration} (hkind : d.kind = .library) (h : BadLibrary d) :
    ∃ reason, checkRoot d = .error (.invalidName .library d.name reason) ∧ RefusedFor d reason := by
  cases hread : DottedName.parse d.name with
  | error defect => exact ⟨_, checkRoot_malformed hkind hread, .malformed hread⟩
  | ok name =>
      have hroot := h.resolve_left (not_not_intro ⟨name, hread⟩)
      obtain ⟨owner, howner⟩ := (reservedRoot_iff hread).mp hroot
      refine ⟨.reserved name.first.text owner, ?_, .reserved ⟨name, hread⟩
        (DottedName.texts_of_parse hread).symm ?_⟩
      · rw [checkRoot_eq_match hkind hread, howner]
      · rw [Segment.key?_text, (reservedFor?_eq_some_iff.mp howner).2]

/-! ## The trees -/

/-- Builds the tree of a kind and drops it. -/
def checkTree (declarations : List Declaration) (kind : Kind) : Except NamingError Unit :=
  (Tree.build kind declarations).map fun _ => ()

/-- Up to their results, the last stages of a build are one check for each kind. -/
theorem map_buildTrees {libraryType : String} :
    (buildTrees options libraryType declarations).map (fun _ => ()) =
      (Kind.all.forM (checkTree declarations)).mapError .naming := by
  change _ = (checkTree declarations .library >>= fun _ =>
    checkTree declarations .version >>= fun _ =>
      checkTree declarations .bundle >>= fun _ =>
        checkTree declarations .plugin >>= fun _ => .ok ()).mapError BuildError.naming
  simp only [buildTrees, buildSurface_eq_bind, checkTree]
  cases Tree.build .library declarations <;> cases Tree.build .version declarations <;>
    cases Tree.build .bundle declarations <;> cases Tree.build .plugin declarations <;> rfl

/-- The declarations of a kind are of this kind. -/
theorem kind_of_mem_ofKind {kind : Kind} {d : Declaration} (h : d ∈ ofKind kind declarations) :
    d.kind = kind := by
  simpa using (List.mem_filter.mp h).2

/-- A kind without a defect passes. -/
theorem checkTree_of_not_hasDefect {kind : Kind} (h : ¬ HasDefect (ofKind kind declarations)) :
    checkTree declarations kind = .ok () := by
  obtain ⟨tree, htree⟩ := ofDeclarations_of_not_hasDefect (fun _ => kind_of_mem_ofKind) h
  rw [checkTree, Tree.build, htree]
  rfl

/-- Kinds without defects make a catalog. -/
theorem buildTrees_eq_ok {libraryType : String}
    (h : ∀ kind, ¬ HasDefect (ofKind kind declarations)) :
    ∃ catalog, buildTrees options libraryType declarations = .ok catalog := by
  have hrun : Kind.all.forM (checkTree declarations) = .ok () :=
    forM_eq_ok fun kind _ => checkTree_of_not_hasDefect (h kind)
  have hmap := @map_buildTrees options declarations libraryType
  rw [hrun] at hmap
  cases hbuild : buildTrees options libraryType declarations with
  | ok catalog => exact ⟨catalog, rfl⟩
  | error error =>
      rw [hbuild] at hmap
      cases hmap

/-- The first kind with a defect decides. -/
theorem buildTrees_eq_error {libraryType : String} {kind : Kind}
    (h : IsFirst (fun kind => HasDefect (ofKind kind declarations)) Kind.all kind) :
    ∃ error, buildTrees options libraryType declarations = .error (.naming error) ∧
      Reports kind (ofKind kind declarations) error := by
  obtain ⟨before, after, hall, hdefect, hbefore⟩ := h
  obtain ⟨error, htree, hreports⟩ :=
    ofDeclarations_of_hasDefect (fun _ => kind_of_mem_ofKind) hdefect
  have hcheck : checkTree declarations kind = .error error := by
    rw [checkTree, Tree.build, htree]
    rfl
  have hrun : Kind.all.forM (checkTree declarations) = .error error := by
    rw [hall]
    exact forM_eq_error (fun other hother => checkTree_of_not_hasDefect (hbefore other hother)) hcheck
  have hmap := @map_buildTrees options declarations libraryType
  rw [hrun] at hmap
  refine ⟨error, ?_, hreports⟩
  cases hbuild : buildTrees options libraryType declarations with
  | ok catalog =>
      rw [hbuild] at hmap
      cases hmap
  | error other =>
      rw [hbuild] at hmap
      exact congrArg Except.error (Except.error.inj hmap)

/-! ## The whole build -/

/-- Behind a good name the first bad library is reported. -/
theorem build_of_isFirst_badLibrary (hname : IsOneSegment options.name) {d : Declaration}
    (h : IsFirst BadLibrary (ofKind .library declarations) d) :
    ∃ reason, build options declarations = .error (.naming (.invalidName .library d.name reason)) ∧
      RefusedFor d reason := by
  obtain ⟨libraryType, hbuild⟩ := @build_of_isOneSegment options declarations hname
  have hkind := fun e (he : e ∈ ofKind .library declarations) => kind_of_mem_ofKind he
  obtain ⟨reason, hcheck, hrefused⟩ := checkRoot_of_bad (hkind d h.mem.1) h.mem.2
  obtain ⟨before, after, hsplit, _, hbefore⟩ := h
  rw [hsplit] at hbuild hkind
  have hrun : (before ++ d :: after).forM checkRoot =
      .error (.invalidName .library d.name reason) :=
    forM_eq_error (fun e he => checkRoot_of_not_bad (hkind e (by simp [he])) (hbefore e he)) hcheck
  refine ⟨reason, ?_, hrefused⟩
  rw [hbuild, hrun]
  rfl

/-- Without a bad library a build ends as its trees do. -/
theorem build_of_not_badLibrary (hname : IsOneSegment options.name)
    (h : ∀ d ∈ ofKind .library declarations, ¬ BadLibrary d) :
    ∃ libraryType, build options declarations = buildTrees options libraryType declarations := by
  obtain ⟨libraryType, hbuild⟩ := @build_of_isOneSegment options declarations hname
  have hrun : (ofKind .library declarations).forM checkRoot = .ok () :=
    forM_eq_ok fun d hd => checkRoot_of_not_bad (kind_of_mem_ofKind hd) (h d hd)
  refine ⟨libraryType, ?_⟩
  rw [hbuild, hrun]
  rfl

/-- Behind good libraries a defect of the first kind that has one is reported. -/
theorem build_of_isFirst_hasDefect (hname : IsOneSegment options.name)
    (hgood : ∀ d ∈ ofKind .library declarations, ¬ BadLibrary d) {kind : Kind}
    (h : IsFirst (fun kind => HasDefect (ofKind kind declarations)) Kind.all kind) :
    ∃ error, build options declarations = .error (.naming error) ∧
      Reports kind (ofKind kind declarations) error := by
  obtain ⟨libraryType, hbuild⟩ := build_of_not_badLibrary hname hgood
  rw [hbuild]
  exact buildTrees_eq_error h

/-- When nothing stands in the way a catalog is built. -/
theorem build_of_not_hasDefect (hname : IsOneSegment options.name)
    (hgood : ∀ d ∈ ofKind .library declarations, ¬ BadLibrary d)
    (hnone : ∀ kind, ¬ HasDefect (ofKind kind declarations)) :
    ∃ catalog, build options declarations = .ok catalog := by
  obtain ⟨libraryType, hbuild⟩ := build_of_not_badLibrary hname hgood
  rw [hbuild]
  exact buildTrees_eq_ok hnone

/-- Nothing stands in the way of a catalog: its name is one segment, no library is bad, and no kind
has a defect. -/
structure Buildable (options : Options) (declarations : List Declaration) : Prop where
  name : IsOneSegment options.name
  libraries : ∀ d ∈ ofKind .library declarations, ¬ BadLibrary d
  kinds : ∀ kind, ¬ HasDefect (ofKind kind declarations)

/-- There is a catalog exactly when nothing stands in its way. -/
theorem exists_build_eq_ok_iff :
    (∃ catalog, build options declarations = .ok catalog) ↔ Buildable options declarations := by
  constructor
  · intro hgiven
    obtain ⟨catalog, hbuild⟩ := hgiven
    have hname : IsOneSegment options.name := by
      apply Classical.byContradiction
      intro hnot
      obtain ⟨_, _, hrun⟩ := @build_of_not_isOneSegment options declarations hnot
      rw [hbuild] at hrun
      cases hrun
    have hgood : ∀ d ∈ ofKind .library declarations, ¬ BadLibrary d := by
      intro d hd hbad
      obtain ⟨first, hfirst⟩ := exists_isFirst ⟨d, hd, hbad⟩
      obtain ⟨_, hrun, _⟩ := build_of_isFirst_badLibrary hname hfirst
      rw [hbuild] at hrun
      cases hrun
    refine ⟨hname, hgood, fun kind hdefect => ?_⟩
    obtain ⟨first, hfirst⟩ :=
      @exists_isFirst _ (fun kind => HasDefect (ofKind kind declarations)) Kind.all
        ⟨kind, kind.mem_all, hdefect⟩
    obtain ⟨_, hrun, _⟩ := build_of_isFirst_hasDefect hname hgood hfirst
    rw [hbuild] at hrun
    cases hrun
  · intro h
    exact build_of_not_hasDefect h.name h.libraries h.kinds

/-- A single declaration makes a catalog unless it is a library. -/
theorem buildable_singleton {d : Declaration} (haccepted : Accepted d.name)
    (hkind : d.kind ≠ .library) : Buildable {} [d] := by
  have hof : ∀ kind, ∀ e ∈ ofKind kind [d], e = d ∧ d.kind = kind := by
    intro kind e he
    obtain rfl := List.mem_singleton.mp (List.mem_filter.mp he).1
    exact ⟨rfl, kind_of_mem_ofKind he⟩
  refine ⟨?_, ?_, ?_⟩
  · exact DottedName.parse_depth_one_iff.mpr ⟨⟨"libs", by decide⟩, rfl⟩
  · intro e he
    exact absurd (hof .library e he).2 hkind
  · rintro kind (⟨e, he, hrefused⟩ | hrepeated | ⟨e, he, other, hother, hclash⟩)
    · rw [(hof kind e he).1] at hrefused
      exact hrefused haccepted
    · have hsub : ((ofKind kind [d]).map (·.name)).Sublist [d.name] := List.filter_sublist.map _
      exact hrepeated (hsub.nodup (by simp))
    · rw [(hof kind e he).1, (hof kind other hother).1] at hclash
      exact not_clash_self _ hclash

/-- One of the stages after the catalog's name decides. -/
theorem build_cases (hname : IsOneSegment options.name) :
    (∃ d reason, IsFirst BadLibrary (ofKind .library declarations) d ∧
      build options declarations = .error (.naming (.invalidName .library d.name reason))) ∨
    (∃ kind error, build options declarations = .error (.naming error) ∧
      Reports kind (ofKind kind declarations) error) ∨
    ∃ catalog, build options declarations = .ok catalog := by
  by_cases hbad : ∃ d ∈ ofKind .library declarations, BadLibrary d
  · obtain ⟨d, hfirst⟩ := exists_isFirst hbad
    obtain ⟨reason, hbuild, _⟩ := build_of_isFirst_badLibrary hname hfirst
    exact .inl ⟨d, reason, hfirst, hbuild⟩
  · have hgood : ∀ d ∈ ofKind .library declarations, ¬ BadLibrary d :=
      fun d hd h => hbad ⟨d, hd, h⟩
    by_cases hdefect : ∃ kind ∈ Kind.all, HasDefect (ofKind kind declarations)
    · obtain ⟨kind, hfirst⟩ := exists_isFirst hdefect
      exact .inr (.inl ⟨kind, build_of_isFirst_hasDefect hname hgood hfirst⟩)
    · have hnone : ∀ kind, ¬ HasDefect (ofKind kind declarations) :=
        fun kind h => hdefect ⟨kind, kind.mem_all, h⟩
      exact .inr (.inr (build_of_not_hasDefect hname hgood hnone))

/-- A library alias that a kind's defect reports as invalid is a bad one. -/
theorem badLibrary_of_reports {name : String} {reason : InvalidReason} {kind : Kind}
    (h : Reports kind (ofKind kind declarations) (.invalidName .library name reason)) :
    ∃ d ∈ ofKind .library declarations, BadLibrary d := by
  cases h with
  | refused first => exact ⟨_, first.mem.1, .inl first.mem.2⟩
  | clashing _ _ _ collision =>
      obtain ⟨parent, one, two, identifier, h⟩ := collision
      cases h

/-- **The outcome of a build.**  A catalog's name that is not one segment is refused for its defect,
and nothing else is.  Otherwise the first bad library is reported, if there is one.  Otherwise the
first kind with a defect decides, by its first refused name, its first repeated name or a collision, in
this precedence.  Otherwise there is a catalog. -/
theorem build_outcome (options : Options) (declarations : List Declaration) :
    ((∃ name defect, build options declarations = .error (.invalidCatalogName name defect)) ↔
      ¬ IsOneSegment options.name) ∧
    (¬ IsOneSegment options.name →
      ∃ defect, Segment.parse options.name = .error defect ∧
        build options declarations = .error (.invalidCatalogName options.name defect)) ∧
    (IsOneSegment options.name →
      ((∃ name reason,
          build options declarations = .error (.naming (.invalidName .library name reason))) ↔
        ∃ d ∈ ofKind .library declarations, BadLibrary d) ∧
      (∀ d, IsFirst BadLibrary (ofKind .library declarations) d →
        ∃ reason,
          build options declarations = .error (.naming (.invalidName .library d.name reason)) ∧
          RefusedFor d reason) ∧
      ((∀ d ∈ ofKind .library declarations, ¬ BadLibrary d) →
        (∀ kind, IsFirst (fun kind => HasDefect (ofKind kind declarations)) Kind.all kind →
          ∃ error, build options declarations = .error (.naming error) ∧
            Reports kind (ofKind kind declarations) error) ∧
        ((∀ kind, ¬ HasDefect (ofKind kind declarations)) →
          ∃ catalog, build options declarations = .ok catalog))) := by
  refine ⟨⟨?_, ?_⟩, ?_, fun hname => ⟨⟨?_, ?_⟩, ?_, fun hgood => ⟨?_, ?_⟩⟩⟩
  · intro hgiven hname
    obtain ⟨name, defect, hrun⟩ := hgiven
    rcases build_cases hname with ⟨d, reason, _, hbuild⟩ | ⟨kind, error, hbuild, _⟩ |
      ⟨catalog, hbuild⟩ <;> (rw [hrun] at hbuild; cases hbuild)
  · intro hname
    obtain ⟨defect, _, hrun⟩ := build_of_not_isOneSegment hname
    exact ⟨_, defect, hrun⟩
  · intro hname
    exact build_of_not_isOneSegment hname
  · intro hgiven
    obtain ⟨name, reason, hrun⟩ := hgiven
    rcases build_cases hname with ⟨d, _, hfirst, _⟩ | ⟨kind, error, hbuild, hreports⟩ |
      ⟨catalog, hbuild⟩
    · exact ⟨d, hfirst.mem⟩
    · rw [hrun] at hbuild
      cases hbuild
      exact badLibrary_of_reports hreports
    · rw [hrun] at hbuild
      cases hbuild
  · intro hbad
    obtain ⟨d, hfirst⟩ := exists_isFirst hbad
    obtain ⟨reason, hbuild, _⟩ := build_of_isFirst_badLibrary hname hfirst
    exact ⟨_, reason, hbuild⟩
  · intro d hfirst
    exact build_of_isFirst_badLibrary hname hfirst
  · intro kind hfirst
    exact build_of_isFirst_hasDefect hname hgood hfirst
  · intro hnone
    exact build_of_not_hasDefect hname hgood hnone

end Catalog

end AliasCatalog
