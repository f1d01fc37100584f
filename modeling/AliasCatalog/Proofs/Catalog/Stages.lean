import AliasCatalog.Catalog.Basic
import AliasCatalog.Proofs.Namespace.Build

/-!
# Stages of a build

A catalog is built in stages, each of which may end the build: the catalog's name, the first segments
of the library aliases, and then the trees of the four kinds.  A build that goes through went through
every stage (`surface_of_build`).
-/

namespace AliasCatalog.Catalog

open Accessor Namespace Naming

variable {options : Options} {declarations : List Declaration} {catalog : Catalog}

/-- The trees of the four kinds, in their order. -/
def buildTrees (options : Options) (libraryType : String) (declarations : List Declaration) :
    Except BuildError Catalog :=
  (buildSurface .library libraryType declarations).bind fun libraries =>
    (buildSurface .version (typeSuffix .version) declarations).bind fun versions =>
      (buildSurface .bundle (typeSuffix .bundle) declarations).bind fun bundles =>
        (buildSurface .plugin (typeSuffix .plugin) declarations).bind fun plugins =>
          .ok ⟨options, libraries, versions, bundles, plugins⟩

/-- A build is the run of its stages. -/
theorem build_eq_bind :
    build options declarations =
      (rootType options.name).bind fun libraryType =>
        (((ofKind .library declarations).forM checkRoot).mapError .naming).bind fun _ =>
          buildTrees options libraryType declarations :=
  rfl

/-- A run of two stages goes through when both do. -/
theorem bind_eq_ok_iff {ε α β : Type} {x : Except ε α} {f : α → Except ε β} {b : β} :
    x.bind f = .ok b ↔ ∃ a, x = .ok a ∧ f a = .ok b := by
  cases x <;> simp [Except.bind]

/-- A library alias that is a dotted name is refused when its first segment has the key of a
getter. -/
theorem checkRoot_eq_match {d : Declaration} {name : DottedName} (hkind : d.kind = .library)
    (hread : DottedName.parse d.name = .ok name) :
    checkRoot d =
      match reservedFor? name.first.key with
      | some owner => .error (.invalidName .library d.name (.reserved name.first.text owner))
      | none => .ok () := by
  rw [checkRoot, Tree.validate_of_kind hkind, DottedName.parseAlias, hread]
  rfl

/-- A library with a malformed alias is refused for its defect. -/
theorem checkRoot_malformed {d : Declaration} {defect : NameDefect} (hkind : d.kind = .library)
    (hread : DottedName.parse d.name = .error defect) :
    checkRoot d = .error (.invalidName .library d.name (.malformed defect)) := by
  rw [checkRoot, Tree.validate_of_kind hkind, DottedName.parseAlias, hread]
  rfl

/-- The examination refuses a library by its own alias. -/
theorem checkRoot_isInvalid {d : Declaration} {error : NamingError}
    (h : checkRoot d = .error error) : ∃ reason, error = .invalidName .library d.name reason := by
  by_cases hkind : d.kind = .library
  · cases hread : DottedName.parse d.name with
    | error defect =>
        rw [checkRoot_malformed hkind hread] at h
        exact ⟨_, (Except.error.inj h).symm⟩
    | ok name =>
        rw [checkRoot_eq_match hkind hread] at h
        split at h
        · exact ⟨_, (Except.error.inj h).symm⟩
        · cases h
  · unfold checkRoot Tree.validate at h
    rw [if_neg hkind] at h
    exact ⟨_, (Except.error.inj h).symm⟩

/-- To build a surface is to build a tree and name its groups. -/
theorem buildSurface_eq_bind {kind : Kind} {rootType : String} :
    buildSurface kind rootType declarations =
      ((Tree.build kind declarations).mapError .naming).bind fun tree =>
        .ok (.ofTree tree rootType) := by
  unfold buildSurface
  cases Tree.build kind declarations <;> rfl

/-- A surface is built exactly when its tree is. -/
theorem buildSurface_eq_ok_iff {kind : Kind} {rootType : String} {surface : Surface} :
    buildSurface kind rootType declarations = .ok surface ↔
      ∃ tree, Tree.build kind declarations = .ok tree ∧ surface = .ofTree tree rootType := by
  unfold buildSurface
  cases Tree.build kind declarations <;> simp [eq_comm]

/-- The name of the root type of a kind, given that of the libraries. -/
def rootTypeOf (libraryType : String) : Kind → String
  | .library => libraryType
  | kind => typeSuffix kind

/-- **A build that goes through went through every stage.**  It gave the catalog its name, and each
kind the surface of its tree. -/
theorem surface_of_build (h : build options declarations = .ok catalog) :
    ∃ libraryType, rootType options.name = .ok libraryType ∧ catalog.options = options ∧
      ∀ kind, ∃ tree, Tree.build kind declarations = .ok tree ∧
        catalog.surface kind = .ofTree tree (rootTypeOf libraryType kind) := by
  rw [build_eq_bind] at h
  obtain ⟨libraryType, hname, h⟩ := bind_eq_ok_iff.mp h
  obtain ⟨_, _, h⟩ := bind_eq_ok_iff.mp h
  obtain ⟨libraries, hlibraries, h⟩ := bind_eq_ok_iff.mp h
  obtain ⟨versions, hversions, h⟩ := bind_eq_ok_iff.mp h
  obtain ⟨bundles, hbundles, h⟩ := bind_eq_ok_iff.mp h
  obtain ⟨plugins, hplugins, h⟩ := bind_eq_ok_iff.mp h
  cases h
  refine ⟨libraryType, hname, rfl, fun kind => ?_⟩
  cases kind with
  | library => exact buildSurface_eq_ok_iff.mp hlibraries
  | version => exact buildSurface_eq_ok_iff.mp hversions
  | bundle => exact buildSurface_eq_ok_iff.mp hbundles
  | plugin => exact buildSurface_eq_ok_iff.mp hplugins

/-- A build that goes through built the tree of every kind. -/
theorem tree_of_build (h : build options declarations = .ok catalog) (kind : Kind) :
    Tree.build kind declarations = .ok (catalog.tree kind) := by
  obtain ⟨libraryType, _, _, hsurfaces⟩ := surface_of_build h
  obtain ⟨tree, htree, hsurface⟩ := hsurfaces kind
  rw [htree, Catalog.tree, hsurface]
  rfl

/-- The trees of a built catalog represent the declarations of their kinds. -/
theorem represents_of_build (h : build options declarations = .ok catalog) (kind : Kind) :
    (catalog.tree kind).kind = kind ∧
      (catalog.tree kind).Represents (ofKind kind declarations) :=
  Tree.represents_of_ofDeclarations (tree_of_build h kind)

/-- The declarations of a built catalog are admissible in each kind. -/
theorem admissible_of_build (h : build options declarations = .ok catalog) (kind : Kind) :
    Admissible kind (ofKind kind declarations) :=
  (Tree.admissible_of_ofDeclarations (tree_of_build h kind)).1

end AliasCatalog.Catalog
