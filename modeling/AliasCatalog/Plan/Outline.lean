import AliasCatalog.Plan.Basic
import AliasCatalog.Text.Layout

/-!
# Outlines

The outline of a plan has one line for each accessor, indented by two spaces for each group around
it.  The line of a group gives its type, the line of a declaration the alias behind it.
-/

namespace AliasCatalog

open Text

namespace Plan

def leafLine (depth : Nat) (leaf : LeafPlan) : String :=
  s!"{indent depth}{leaf.method}() -> {leaf.name}"

def groupLine (depth : Nat) (method typeName : String) : String :=
  s!"{indent depth}{method}(): {typeName}"

/-- The lines of what a group exposes itself. -/
def ownLines (depth : Nat) (group : GroupPlan) : List String :=
  (group.provider.toList ++ group.leaves).map (leafLine depth)

def nestedLines (depth : Nat) : Forest GroupPlan → List String
  | .nil => []
  | .cons group inner beside =>
    groupLine depth (group.method.getD "") group.typeName
      :: (ownLines (depth + 1) group ++ nestedLines (depth + 1) inner ++ nestedLines depth beside)

/-- The lines of a kind: libraries stand on the first level, the other kinds below their getter. -/
def kindLines (plan : KindPlan) : List String :=
  match plan.accessor with
  | some getter =>
    groupLine 1 getter plan.root.typeName :: (ownLines 2 plan.root ++ nestedLines 2 plan.groups)
  | none => ownLines 1 plan.root ++ nestedLines 1 plan.groups

end Plan

namespace CatalogPlan

def lines (plan : CatalogPlan) : List String :=
  s!"{plan.typeName} ({plan.name})" :: plan.kinds.flatMap Plan.kindLines

/-- The outline, each line ended by a line feed. -/
def outline (plan : CatalogPlan) : String :=
  String.join (plan.lines.map (· ++ "\n"))

end CatalogPlan

end AliasCatalog
