import ComponentSurvey.Tree.Node

/-!
Nodes without their siblings: a subtree with the trees above it. What a survey says of a node can be
read off its spine, and the spines of a tree follow from the tree alone.
-/

set_option autoImplicit false

namespace ComponentSurvey

/-- A subtree, and the trees above it, nearest first. -/
structure Spine where
  tree : Tree
  above : List Tree

namespace Tree

mutual
def spines (above : List Tree) : Tree → List Spine
  | .node l ts => ⟨.node l ts, above⟩ :: spinesList (.node l ts :: above) ts
def spinesList (above : List Tree) : List Tree → List Spine
  | [] => []
  | t :: ts => t.spines above ++ spinesList above ts
end

def spinesBelow (t : Tree) : List Spine := spinesList [t] t.children

end Tree

namespace Node

def spine (n : Node) : Spine := ⟨n.tree, n.ancestors.map tree⟩

mutual
theorem map_spine_walk (place : List Step) (t : Tree) :
    (walk ⟨t, place⟩).map spine = t.spines ((ancestorsFrom t place).map tree) := by
  match t with
  | .node l ts =>
    have h := map_spine_walkForest l place [] ts
    rw [walk_eq_cons, List.map_cons, Tree.spines]
    exact congrArg _ h
theorem map_spine_walkForest (l : Label) (place : List Step) (left ts : List Tree) :
    (walkForest l place left ts).map spine =
      Tree.spinesList (.node l (left.reverse ++ ts) ::
        (ancestorsFrom (.node l (left.reverse ++ ts)) place).map tree) ts := by
  match ts with
  | [] => rfl
  | t :: ts =>
    have h := map_spine_walkForest l place (t :: left) ts
    rw [List.reverse_cons, List.append_assoc, List.singleton_append] at h
    rw [walkForest_cons, List.map_append, h, map_spine_walk _ t, Tree.spinesList]
    rfl
end

theorem map_spine_descendants (t : Tree) :
    (ofTree t).descendants.map spine = t.spinesBelow := by
  obtain ⟨l, ts⟩ := t
  exact map_spine_walkForest l [] [] ts

end Node

end ComponentSurvey
