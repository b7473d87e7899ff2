import ComponentSurvey.Tree.Node

/-!
The walk as a loop over a stack of nodes still to visit: the top of the stack is visited and its
children take its place. Main statement: the loop visits exactly the nodes of the recursive walk.
-/

set_option autoImplicit false

namespace ComponentSurvey.Node

def pendingSize (stack : List Node) : Nat := Tree.sizeList (stack.map tree)

theorem pendingSize_append (a b : List Node) :
    pendingSize (a ++ b) = pendingSize a + pendingSize b := by
  simp [pendingSize, Tree.sizeList_append]

theorem pendingSize_siblings (l : Label) (place : List Step) (left ts : List Tree) :
    pendingSize (siblings l place left ts) = Tree.sizeList ts := by
  induction ts generalizing left with
  | nil => rfl
  | cons t ts ih =>
    have h := ih (t :: left)
    simp only [pendingSize] at h
    simp [pendingSize, siblings, Tree.sizeList, h]

theorem pendingSize_children (n : Node) : pendingSize n.children + 1 = n.tree.size := by
  obtain ⟨⟨l, ts⟩, place⟩ := n
  simp only [children, Tree.children, pendingSize_siblings, Tree.size]
  omega

/-- Visits the first node of the stack, then its children, then the rest of the stack. -/
def visit : List Node → List Node
  | [] => []
  | n :: rest => n :: visit (n.children ++ rest)
termination_by stack => pendingSize stack
decreasing_by
  have h := pendingSize_children n
  rw [pendingSize_append]
  simp only [pendingSize, List.map_cons, Tree.sizeList] at h ⊢
  omega

theorem walkForest_eq_flatMap (l : Label) (place : List Step) (left ts : List Tree) :
    walkForest l place left ts = (siblings l place left ts).flatMap walk := by
  induction ts generalizing left with
  | nil => rfl
  | cons t ts ih => simp [walkForest_cons, siblings, ih]

theorem visit_eq_flatMap_walk (stack : List Node) : visit stack = stack.flatMap walk := by
  fun_induction visit stack with
  | case1 => rfl
  | case2 n rest ih =>
    rw [ih, List.flatMap_append, List.flatMap_cons, walk_eq_cons, descendants, children,
      walkForest_eq_flatMap, List.cons_append]

end ComponentSurvey.Node
