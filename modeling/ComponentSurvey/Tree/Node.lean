import ComponentSurvey.Tree

/-!
A node is a subtree together with its place: the labels above it and the siblings on both sides.
Every pair of a subtree and a place is a node of exactly one tree, so nothing has to be kept in step.
-/

set_option autoImplicit false

namespace ComponentSurvey

/-- One level above a node: the parent's label, and the siblings on the left (nearest first) and right. -/
structure Step where
  label : Label
  left : List Tree
  right : List Tree
  deriving Repr, Inhabited

structure Node where
  tree : Tree
  place : List Step
  deriving Repr, Inhabited

def Step.fill (s : Step) (t : Tree) : Tree :=
  .node s.label (s.left.reverse ++ t :: s.right)

namespace Node

def ofTree (t : Tree) : Node := ⟨t, []⟩

def kind (n : Node) : Kind := n.tree.kind

def parent? (n : Node) : Option Node :=
  match n.place with
  | [] => none
  | s :: above => some ⟨s.fill n.tree, above⟩

def ancestorsFrom : Tree → List Step → List Node
  | _, [] => []
  | t, s :: above => ⟨s.fill t, above⟩ :: ancestorsFrom (s.fill t) above

def ancestors (n : Node) : List Node := ancestorsFrom n.tree n.place

/-- Whether the parent finds this very node by the field. -/
def isField (f : String) (n : Node) : Bool :=
  match n.place with
  | [] => false
  | s :: _ => n.tree.marked f && !s.left.any (Tree.marked f)

def siblings (l : Label) (place : List Step) : List Tree → List Tree → List Node
  | _, [] => []
  | left, t :: ts => ⟨t, ⟨l, left, ts⟩ :: place⟩ :: siblings l place (t :: left) ts

def children (n : Node) : List Node := siblings n.tree.label n.place [] n.tree.children

mutual
/-- The nodes of a tree at a place, a node before its children, and what comes after them. -/
def walkOnto (place : List Step) : Tree → List Node → List Node
  | .node l ts, after => ⟨.node l ts, place⟩ :: walkForestOnto l place [] ts after
def walkForestOnto (l : Label) (place : List Step) (left : List Tree) :
    List Tree → List Node → List Node
  | [], after => after
  | t :: ts, after =>
    walkOnto (⟨l, left, ts⟩ :: place) t (walkForestOnto l place (t :: left) ts after)
end

def walk (n : Node) : List Node := walkOnto n.place n.tree []

def walkForest (l : Label) (place : List Step) (left ts : List Tree) : List Node :=
  walkForestOnto l place left ts []

def descendants (n : Node) : List Node :=
  walkForest n.tree.label n.place [] n.tree.children

mutual
theorem walkOnto_append (place : List Step) (t : Tree) (ms ns : List Node) :
    walkOnto place t (ms ++ ns) = walkOnto place t ms ++ ns := by
  match t with
  | .node l ts => simp [walkOnto, walkForestOnto_append l place [] ts ms ns]
theorem walkForestOnto_append (l : Label) (place : List Step) (left ts : List Tree)
    (ms ns : List Node) :
    walkForestOnto l place left ts (ms ++ ns) = walkForestOnto l place left ts ms ++ ns := by
  match ts with
  | [] => rfl
  | t :: ts =>
    rw [walkForestOnto, walkForestOnto_append l place (t :: left) ts ms ns,
      walkOnto_append _ t _ ns, walkForestOnto]
end

theorem walk_eq_cons (n : Node) : n.walk = n :: n.descendants := by
  obtain ⟨⟨l, ts⟩, place⟩ := n
  rfl

theorem walkForest_nil (l : Label) (place : List Step) (left : List Tree) :
    walkForest l place left [] = [] := rfl

theorem walkForest_cons (l : Label) (place : List Step) (left : List Tree) (t : Tree)
    (ts : List Tree) :
    walkForest l place left (t :: ts) =
      walk ⟨t, ⟨l, left, ts⟩ :: place⟩ ++ walkForest l place (t :: left) ts := by
  rw [walk, ← walkOnto_append, List.nil_append]
  rfl

mutual
theorem map_tree_walkOnto (place : List Step) (t : Tree) (ns : List Node) :
    (walkOnto place t ns).map tree = t.preorderOnto (ns.map tree) := by
  match t with
  | .node l ts => simp [walkOnto, Tree.preorderOnto, map_tree_walkForestOnto l place [] ts ns]
theorem map_tree_walkForestOnto (l : Label) (place : List Step) (left ts : List Tree)
    (ns : List Node) :
    (walkForestOnto l place left ts ns).map tree = Tree.preorderListOnto ts (ns.map tree) := by
  match ts with
  | [] => rfl
  | t :: ts =>
    rw [walkForestOnto, map_tree_walkOnto _ t, map_tree_walkForestOnto l place (t :: left) ts ns,
      Tree.preorderListOnto]
end

theorem map_tree_walk (n : Node) : n.walk.map tree = n.tree.preorder :=
  map_tree_walkOnto n.place n.tree []

theorem map_tree_descendants (n : Node) : n.descendants.map tree = n.tree.descendants :=
  map_tree_walkForestOnto _ _ _ _ []

end Node

end ComponentSurvey
