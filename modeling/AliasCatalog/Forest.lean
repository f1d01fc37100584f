/-!
# Forests

A forest is a finite sequence of trees whose nodes carry labels.  It is given by its first tree's
label and children and by the trees beside that one, so that both directions of the recursion, down
and sideways, are plain structural recursion.
-/

namespace AliasCatalog

inductive Forest (α : Type) where
  | nil : Forest α
  | cons (label : α) (children siblings : Forest α) : Forest α
  deriving DecidableEq, Repr

namespace Forest

variable {α β : Type}

def size : Forest α → Nat
  | nil => 0
  | cons _ children siblings => children.size + siblings.size + 1

def isEmpty : Forest α → Bool
  | nil => true
  | cons _ _ _ => false

/-- The labels of the trees' roots, in order. -/
def roots : Forest α → List α
  | nil => []
  | cons label _ siblings => label :: siblings.roots

/-- The trees, each as its root's label and children. -/
def trees : Forest α → List (α × Forest α)
  | nil => []
  | cons label children siblings => (label, children) :: siblings.trees

/-- All labels, each node's before those of its children. -/
def toList : Forest α → List α
  | nil => []
  | cons label children siblings => label :: (children.toList ++ siblings.toList)

/-- The roots are the first components of the trees. -/
theorem roots_eq_map_trees (forest : Forest α) : forest.roots = forest.trees.map (·.1) := by
  induction forest with
  | nil => rfl
  | cons label children siblings _ beside => simp [roots, trees, beside]

end Forest

end AliasCatalog
