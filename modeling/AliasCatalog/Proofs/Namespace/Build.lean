import AliasCatalog.Proofs.Namespace.Clash
import AliasCatalog.Proofs.Namespace.Insertion
import AliasCatalog.Proofs.Namespace.KeyOrder

/-!
# Building a tree

A list of declarations makes a tree when it is admissible, all of one kind under accepted and
different names, and no two names clash (`ofDeclarations_eq_ok`).  The tree then represents exactly
these declarations.  Each way to fail has its own error: the first refused name, the first repeated
name, or a collision.
-/

namespace AliasCatalog.Namespace

open Naming

/-- A declaration at the path of its name. -/
def located (d : Declaration) : List Segment × Declaration :=
  (segmentsOf d.name, d)

/-- The declaration is of the kind, under an accepted name. -/
def Readable (kind : Kind) (d : Declaration) : Prop :=
  d.kind = kind ∧ Accepted d.name

/-- The declarations are of one kind, under accepted and different names. -/
structure Admissible (kind : Kind) (declarations : List Declaration) : Prop where
  readable : ∀ d ∈ declarations, Readable kind d
  nodup : (declarations.map (·.name)).Nodup

section Admissible

variable {kind : Kind} {declarations : List Declaration}

/-- Admissible declarations are of one kind. -/
theorem Admissible.kind_eq (h : Admissible kind declarations) {d : Declaration}
    (hd : d ∈ declarations) : d.kind = kind :=
  (h.readable d hd).1

/-- Admissible declarations have aliases that are accepted. -/
theorem Admissible.accepted (h : Admissible kind declarations) :
    ∀ d ∈ declarations, Accepted d.name :=
  fun d hd => (h.readable d hd).2

/-- No declaration comes twice, for no alias does. -/
theorem Admissible.different (h : Admissible kind declarations) : declarations.Nodup :=
  (List.pairwise_map.mp h.nodup).imp fun hne heq => hne (congrArg _ heq)

/-- What is admissible is so in any order. -/
theorem Admissible.perm (h : Admissible kind declarations) {others : List Declaration}
    (hperm : declarations.Perm others) : Admissible kind others where
  readable d hd := h.readable d (hperm.mem_iff.mpr hd)
  nodup := (hperm.map _).nodup_iff.mp h.nodup

end Admissible

/-- The tree holds exactly the declarations, each at the path of its name, with siblings in the
strict order of their keys. -/
structure Tree.Represents (tree : Tree) (declarations : List Declaration) : Prop where
  ordered : tree.forest.Ordered Entry.KeyBefore
  grounded : Grounded tree.forest
  declared : (declared tree.forest).Perm (declarations.map located)

namespace Tree

variable {kind : Kind} {declarations : List Declaration}

/-- Reads the name of a declaration and keeps both. -/
def readName (kind : Kind) (d : Declaration) : Except NamingError (DottedName × Declaration) := do
  let name ← validate kind d
  return (name, d)

/-- Allocates all identifiers of a forest and sorts it. -/
def finish (kind : Kind) (forest : Forest Entry) : Except NamingError Tree := do
  checkSiblings kind [] forest
  checkBelow kind [] forest
  return ⟨kind, sortByKey forest⟩

/-- The three passes of a build. -/
theorem ofDeclarations_eq_bind :
    ofDeclarations kind declarations =
      ((declarations.mapM (readName kind)).bind fun named =>
        (named.foldlM (insertNamed kind) .nil).bind fun forest => finish kind forest) :=
  rfl

/-! ## Validation -/

/-- A declaration with a good alias is read with the name. -/
theorem readName_eq_ok {d : Declaration} {name : DottedName} (hkind : d.kind = kind)
    (hread : DottedName.parse d.name = .ok name) : readName kind d = .ok (name, d) := by
  rw [readName, validate_of_kind hkind, DottedName.parseAlias, hread]
  rfl

/-- A malformed alias is refused for its defect. -/
theorem readName_eq_error {d : Declaration} {defect : NameDefect} (hkind : d.kind = kind)
    (hread : DottedName.parse d.name = .error defect) :
    readName kind d = .error (.invalidName kind d.name (.malformed defect)) := by
  rw [readName, validate_of_kind hkind, DottedName.parseAlias, hread]
  rfl

/-- A name goes through exactly when its declaration is of the kind and the name is accepted. -/
theorem exists_readName_eq_ok_iff {d : Declaration} :
    (∃ named, readName kind d = .ok named) ↔ Readable kind d := by
  constructor
  · intro hgiven
    obtain ⟨named, hread⟩ := hgiven
    by_cases hkind : d.kind = kind
    · refine ⟨hkind, ?_⟩
      cases hparse : DottedName.parse d.name with
      | ok name => exact ⟨name, hparse⟩
      | error defect =>
          rw [readName_eq_error hkind hparse] at hread
          cases hread
    · rw [readName, validate, if_neg hkind] at hread
      cases hread
  · intro hgiven
    obtain ⟨hkind, name, hparse⟩ := hgiven
    exact ⟨_, readName_eq_ok hkind hparse⟩

/-- **The first refused name ends a build.** -/
theorem ofDeclarations_refused {before after : List Declaration} {d : Declaration}
    {defect : NameDefect} (hbefore : ∀ e ∈ before, Readable kind e)
    (hkind : d.kind = kind) (hread : DottedName.parse d.name = .error defect) :
    ofDeclarations kind (before ++ d :: after) =
      .error (.invalidName kind d.name (.malformed defect)) := by
  have hrun : (before ++ d :: after).mapM (readName kind) =
      .error (.invalidName kind d.name (.malformed defect)) :=
    mapM_eq_error (fun e he => exists_readName_eq_ok_iff.mpr (hbefore e he))
      (readName_eq_error hkind hread)
  rw [ofDeclarations_eq_bind, hrun]
  rfl

/-- What is not readable is refused by its own alias. -/
theorem readName_isInvalid {d : Declaration} (h : ¬ Readable kind d) :
    ∃ reason, readName kind d = .error (.invalidName kind d.name reason) := by
  by_cases hkind : d.kind = kind
  · obtain ⟨defect, hread⟩ := not_accepted_iff.mp fun haccepted => h ⟨hkind, haccepted⟩
    exact ⟨_, readName_eq_error hkind hread⟩
  · refine ⟨.declaredAs d.kind, ?_⟩
    rw [readName, validate, if_neg hkind]
    rfl

/-- A list with a name that does not go through makes no tree. -/
theorem ofDeclarations_isInvalid (h : ¬ ∀ d ∈ declarations, Readable kind d) :
    ∃ name reason, ofDeclarations kind declarations = .error (.invalidName kind name reason) := by
  obtain ⟨d, before, after, rfl, hd, hbefore⟩ :=
    @exists_isFirst _ (fun d => ¬ Readable kind d) declarations (by simpa using h)
  obtain ⟨reason, hread⟩ := readName_isInvalid hd
  have hrun : (before ++ d :: after).mapM (readName kind) =
      .error (.invalidName kind d.name reason) :=
    mapM_eq_error
      (fun e he => exists_readName_eq_ok_iff.mpr (Classical.not_not.mp (hbefore e he))) hread
  refine ⟨d.name, reason, ?_⟩
  rw [ofDeclarations_eq_bind, hrun]
  rfl

/-- Readable declarations are all read, each at the path of its segments. -/
theorem mapM_readName (h : ∀ d ∈ declarations, Readable kind d) :
    ∃ named, declarations.mapM (readName kind) = .ok named ∧
      named.map locate = declarations.map located := by
  apply mapM_eq_ok
  intro d hd
  obtain ⟨hkind, name, hread⟩ := h d hd
  refine ⟨(name, d), readName_eq_ok hkind hread, ?_⟩
  rw [locate, located, segmentsOf_of_parse hread]

/-! ## Insertion -/

/-- Different aliases lead to different paths. -/
theorem nodup_located (haccepted : ∀ d ∈ declarations, Accepted d.name)
    (hnodup : (declarations.map (·.name)).Nodup) :
    ((declarations.map located).map (·.1)).Nodup := by
  rw [List.map_map, List.Nodup, List.pairwise_map]
  rw [List.Nodup, List.pairwise_map] at hnodup
  apply hnodup.imp_of_mem
  intro d e hd he hne heq
  apply hne
  exact ((haccepted d hd).segmentsOf_inj (haccepted e he)).mp heq

/-- **Admissible declarations are gathered** in a forest, and only the allocation remains. -/
theorem exists_gathers (h : Admissible kind declarations) :
    ∃ forest, Gathers forest (declarations.map located) ∧
      ofDeclarations kind declarations = finish kind forest := by
  obtain ⟨named, hread, hnamed⟩ := mapM_readName h.readable
  have hnodup : (named.map (·.1.segments)).Nodup := by
    have hpaths := nodup_located h.accepted h.nodup
    rw [← hnamed, List.map_map] at hpaths
    exact hpaths
  obtain ⟨forest, hrun, hgathers⟩ :=
    @foldlM_insertNamed_eq_ok kind named _ _ Gathers.nil (by simpa using hnodup)
  refine ⟨forest, by simpa [hnamed] using hgathers, ?_⟩
  rw [ofDeclarations_eq_bind, hread]
  show (named.foldlM (insertNamed kind) .nil).bind _ = _
  rw [hrun]
  rfl

/-- **The first repeated name ends a build** of accepted names.  The names before it lead to different paths,
one of them its own, so its insertion is the first to fail. -/
theorem ofDeclarations_repeated {d : Declaration} (h : ∀ e ∈ declarations, Readable kind e)
    (hrepeat : IsFirstRepeat (·.name) declarations d) :
    ofDeclarations kind declarations = .error (.duplicateAlias kind d.name) := by
  obtain ⟨named, hread, hnamed⟩ := mapM_readName h
  obtain ⟨before, after, rfl, hnodup, hmem⟩ := hrepeat
  have hacceptedBefore : ∀ e ∈ before, Accepted e.name :=
    fun e he => (h e (List.mem_append_left _ he)).2
  rw [List.map_append, List.map_cons] at hnamed
  obtain ⟨front, back, rfl, hfront, hback⟩ := List.map_eq_append_iff.mp hnamed
  obtain ⟨next, later, rfl, hnext, hlater⟩ := List.map_eq_cons_iff.mp hback
  have hpath : next.1.segments = segmentsOf d.name := congrArg Prod.fst hnext
  have hpaths : front.map (·.1.segments) = (before.map located).map (·.1) := by
    rw [← hfront, List.map_map]
    rfl
  have hname : next.1.text = d.name := by
    rw [DottedName.text, hpath]
    exact (h d (by simp)).2.joinDots_segmentsOf
  obtain ⟨e, he, heq⟩ := List.mem_map.mp hmem
  have hrun := @foldlM_insertNamed_eq_error kind front later next
    (by rw [hpaths]; exact nodup_located hacceptedBefore hnodup)
    (by
      rw [hpaths, hpath, List.map_map]
      exact List.mem_map.mpr ⟨e, he, congrArg segmentsOf heq⟩)
  rw [ofDeclarations_eq_bind, hread]
  show ((front ++ next :: later).foldlM (insertNamed kind) .nil).bind _ = _
  rw [hrun, hname]
  rfl

/-! ## Allocation -/

/-- A forest without a collision is put into the order of the keys. -/
theorem finish_eq_ok {forest : Forest Entry} (h : forest.Ordered Entry.Apart) :
    finish kind forest = .ok ⟨kind, sortByKey forest⟩ := by
  obtain ⟨hroots, hbelow⟩ := Forest.ordered_iff.mp h
  rw [finish, checkSiblings_eq_ok hroots, checkBelow_eq_ok hbelow]
  rfl

/-- A forest with a collision is refused for one. -/
theorem finish_isCollision {forest : Forest Entry} (h : ¬ forest.Ordered Entry.Apart) :
    ∃ error, finish kind forest = .error error ∧ error.IsCollision kind := by
  unfold finish
  by_cases hroots : forest.roots.Pairwise Entry.Apart
  · obtain ⟨error, hrun, hcollision⟩ := @checkBelow_isCollision kind [] forest
      fun hbelow => h (Forest.ordered_iff.mpr ⟨hroots, hbelow⟩)
    refine ⟨error, ?_, hcollision⟩
    rw [checkSiblings_eq_ok hroots, hrun]
    rfl
  · obtain ⟨error, hrun, hcollision⟩ := @checkSiblings_isCollision kind [] forest hroots
    refine ⟨error, ?_, hcollision⟩
    rw [hrun]
    rfl

/-- The siblings of a gathered forest have different keys everywhere exactly when no two names
clash. -/
theorem ordered_apart_iff_of_gathers {forest : Forest Entry}
    (hgathers : Gathers forest (declarations.map located))
    (haccepted : ∀ d ∈ declarations, Accepted d.name) :
    forest.Ordered Entry.Apart ↔
      ∀ d ∈ declarations, ∀ e ∈ declarations, ¬ Clash d.name e.name := by
  rw [ordered_apart_iff (hgathers.ordered.imp fun _ _ => Entry.TextBefore.distinct)
    hgathers.grounded]
  simp only [hgathers.declared.mem_iff, List.mem_map, located, Prod.mk.injEq]
  constructor
  · intro hnone d hd e he hclash
    exact hnone _ d _ e ⟨d, hd, rfl, rfl⟩ ⟨e, he, rfl, rfl⟩
      ((clash_iff (haccepted d hd) (haccepted e he)).mp hclash)
  · intro hnone p d q e hp hq hclash
    obtain ⟨_, hd, rfl, rfl⟩ := hp
    obtain ⟨_, he, rfl, rfl⟩ := hq
    exact hnone _ hd _ he ((clash_iff (haccepted _ hd) (haccepted _ he)).mpr hclash)

/-- **Admissible names without a clash make a tree**, and the tree represents them. -/
theorem ofDeclarations_eq_ok (h : Admissible kind declarations)
    (hnone : ∀ d ∈ declarations, ∀ e ∈ declarations, ¬ Clash d.name e.name) :
    ∃ tree, ofDeclarations kind declarations = .ok tree ∧ tree.kind = kind ∧
      tree.Represents declarations := by
  obtain ⟨forest, hgathers, hbuild⟩ := exists_gathers h
  have hapart := (ordered_apart_iff_of_gathers hgathers h.accepted).mpr hnone
  rw [finish_eq_ok hapart] at hbuild
  exact ⟨_, hbuild, rfl, ordered_sortByKey hapart, grounded_sortByKey hgathers.grounded,
    (declared_sortByKey forest).trans hgathers.declared⟩

/-- **Admissible names with a clash end in a collision.** -/
theorem ofDeclarations_isCollision (h : Admissible kind declarations)
    (hclash : ∃ d ∈ declarations, ∃ e ∈ declarations, Clash d.name e.name) :
    ∃ error, ofDeclarations kind declarations = .error error ∧ error.IsCollision kind := by
  obtain ⟨forest, hgathers, hbuild⟩ := exists_gathers h
  rw [hbuild]
  apply finish_isCollision
  intro hapart
  obtain ⟨d, hd, e, he, hde⟩ := hclash
  exact (ordered_apart_iff_of_gathers hgathers h.accepted).mp hapart d hd e he hde

/-- A build that goes through had admissible names without a clash. -/
theorem admissible_of_ofDeclarations {tree : Tree}
    (hbuild : ofDeclarations kind declarations = .ok tree) :
    Admissible kind declarations ∧
      ∀ d ∈ declarations, ∀ e ∈ declarations, ¬ Clash d.name e.name := by
  have hread : ∀ d ∈ declarations, Readable kind d := by
    apply Classical.byContradiction
    intro hnot
    obtain ⟨name, reason, hrefused⟩ := ofDeclarations_isInvalid hnot
    rw [hrefused] at hbuild
    cases hbuild
  have hnodup : (declarations.map (·.name)).Nodup := by
    apply Classical.byContradiction
    intro hnot
    obtain ⟨d, hrepeat⟩ := exists_isFirstRepeat hnot
    rw [ofDeclarations_repeated hread hrepeat] at hbuild
    cases hbuild
  have hadm : Admissible kind declarations := ⟨hread, hnodup⟩
  refine ⟨hadm, fun d hd e he hclash => ?_⟩
  obtain ⟨error, herror, _⟩ := ofDeclarations_isCollision hadm ⟨d, hd, e, he, hclash⟩
  rw [hbuild] at herror
  cases herror

/-- **What is built represents its declarations.** -/
theorem represents_of_ofDeclarations {tree : Tree}
    (hbuild : ofDeclarations kind declarations = .ok tree) :
    tree.kind = kind ∧ tree.Represents declarations := by
  obtain ⟨hadm, hnone⟩ := admissible_of_ofDeclarations hbuild
  obtain ⟨other, hother, hkind, hrep⟩ := ofDeclarations_eq_ok hadm hnone
  rw [hbuild] at hother
  cases hother
  exact ⟨hkind, hrep⟩

end Tree

end AliasCatalog.Namespace
