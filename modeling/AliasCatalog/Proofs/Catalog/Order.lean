import AliasCatalog.Plan.Basic
import AliasCatalog.Proofs.Catalog.Stages
import AliasCatalog.Proofs.Namespace.Order

/-!
# Catalogs and the order of declarations

Every stage of a build ends alike for a permuted list of declarations, and so does the build
(`build_perm`).  The two catalogs show the same plan, the same fingerprints and the same nodes, and
answer every lookup in the same way.
-/

namespace AliasCatalog

open Accessor Namespace Naming

/-- The errors have one cause and one kind; collisions and refused catalog names are equal. -/
inductive BuildError.Agrees : BuildError → BuildError → Prop where
  | invalidCatalogName (name : String) (defect : SegmentDefect) :
      Agrees (.invalidCatalogName name defect) (.invalidCatalogName name defect)
  | naming {error other : NamingError} (h : error.Agrees other) :
      Agrees (.naming error) (.naming other)

theorem BuildError.Agrees.refl (error : BuildError) : error.Agrees error := by
  cases error with
  | invalidCatalogName name defect => exact .invalidCatalogName name defect
  | naming error => exact .naming (.refl error)

/-- What a listing of a tree shows of a node. -/
def Namespace.Node.listing (node : Node) :
    String × List Identifier × Shape × Option Declaration :=
  (node.name, node.identifiers, node.shape, node.leaf)

namespace Catalog

variable {declarations others : List Declaration}

/-- The surface of a kind does not depend on the order of the declarations. -/
theorem buildSurface_perm (kind : Kind) (rootType : String) (h : declarations.Perm others) :
    Alike BuildError.Agrees (buildSurface kind rootType declarations)
      (buildSurface kind rootType others) := by
  rw [buildSurface_eq_bind, buildSurface_eq_bind]
  have htree : Alike NamingError.Agrees (Tree.build kind declarations) (Tree.build kind others) :=
    Tree.ofDeclarations_perm (h.filter _)
  apply (htree.mapError fun _ _ hagrees => .naming hagrees).bind
  intro tree
  exact .refl BuildError.Agrees.refl _

/-- The trees that are built, or the errors, agree for any order of the declarations. -/
theorem buildTrees_perm (options : Options) (libraryType : String) (h : declarations.Perm others) :
    Alike BuildError.Agrees (buildTrees options libraryType declarations)
      (buildTrees options libraryType others) := by
  apply (buildSurface_perm .library _ h).bind
  intro libraries
  apply (buildSurface_perm .version _ h).bind
  intro versions
  apply (buildSurface_perm .bundle _ h).bind
  intro bundles
  apply (buildSurface_perm .plugin _ h).bind
  intro plugins
  exact .refl BuildError.Agrees.refl _

/-- Libraries are examined alike in any order. -/
theorem forM_checkRoot_perm (h : declarations.Perm others) :
    Alike NamingError.Agrees ((ofKind .library declarations).forM checkRoot)
      ((ofKind .library others).forM checkRoot) := by
  apply Alike.forM (h.filter _)
  intro d e error other hd he
  obtain ⟨reason, rfl⟩ := checkRoot_isInvalid hd
  obtain ⟨otherReason, rfl⟩ := checkRoot_isInvalid he
  exact .invalidName _ _ _ _ _

/-- A build ends with the same catalog, or with an error of the same cause and kind. -/
theorem build_alike (options : Options) (h : declarations.Perm others) :
    Alike BuildError.Agrees (build options declarations) (build options others) := by
  rw [build_eq_bind, build_eq_bind]
  apply (Alike.refl BuildError.Agrees.refl _).bind
  intro libraryType
  apply ((forM_checkRoot_perm h).mapError fun _ _ hagrees => .naming hagrees).bind
  intro _
  exact buildTrees_perm options libraryType h

/-- **A build does not depend on the order of the declarations.**  Permuted lists both make a catalog,
with the same plan, fingerprints, nodes and answers; or both fail, with errors of one cause and one
kind that are equal when they report a collision or the catalog's name. -/
theorem build_perm (options : Options) (h : declarations.Perm others) :
    (∃ catalog other, build options declarations = .ok catalog ∧ build options others = .ok other ∧
      catalog.plan = other.plan ∧ catalog.fingerprints = other.fingerprints ∧
      (∀ kind, (catalog.tree kind).nodes.map Node.listing =
        (other.tree kind).nodes.map Node.listing) ∧
      ∀ kind dotted, catalog.resolve kind dotted = other.resolve kind dotted) ∨
    ∃ error other, build options declarations = .error error ∧
      build options others = .error other ∧ error.Agrees other := by
  rcases build_alike options h with ⟨catalog, hbuild, hbuild'⟩ | hfail
  · exact .inl ⟨catalog, catalog, hbuild, hbuild', rfl, rfl, fun _ => rfl, fun _ _ => rfl⟩
  · exact .inr hfail

/-- Two libraries in either order make one plan. -/
theorem plan_swapped :
    ∃ catalog other,
      build {} [.library "a" "g" "x", .library "a.b" "g" "y"] = .ok catalog ∧
      build {} [.library "a.b" "g" "y", .library "a" "g" "x"] = .ok other ∧
      catalog.plan = other.plan := by
  rcases build_perm {} (.swap (.library "a.b" "g" "y") (.library "a" "g" "x") []) with
    ⟨catalog, other, hbuild, hbuild', hplan, _⟩ | ⟨error, other, hbuild, _⟩
  · exact ⟨catalog, other, hbuild, hbuild', hplan⟩
  · have hok : (build {} [.library "a" "g" "x", .library "a.b" "g" "y"]).isOk = true := by
      decide +kernel
    rw [hbuild] at hok
    cases hok

end Catalog

end AliasCatalog
