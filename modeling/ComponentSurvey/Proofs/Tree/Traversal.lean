import Mathlib.Logic.Function.Iterate
import Mathlib.Logic.Relation
import ComponentSurvey.Tree.Flat
import ComponentSurvey.Proofs.Tree.Ancestry

/-!
The walk turn by turn. The loop keeps the subtrees that are still to visit and gives one node in each
turn, so a walk that is broken off has given the first nodes of the whole one. Downwards it meets what
is below a node, upwards what is above it, and both say the same of any two nodes.
-/

set_option autoImplicit false

namespace ComponentSurvey

namespace Tree

def summary (t : Tree) : Label × Nat := (t.label, t.children.length)

mutual
theorem map_summary_preorder (t : Tree) : t.preorder.map summary = t.toFlat := by
  match t with
  | .node l ts =>
    rw [preorder_node, List.map_cons, map_summary_preorderList ts, toFlat]
    rfl
theorem map_summary_preorderList (ts : List Tree) :
    (preorderList ts).map summary = toFlatList ts := by
  match ts with
  | [] => rfl
  | t :: ts =>
    rw [preorderList_cons, List.map_append, map_summary_preorder t, map_summary_preorderList ts,
      toFlatList]
end

mutual
theorem length_preorder (t : Tree) : t.preorder.length = t.size := by
  match t with
  | .node l ts =>
    rw [preorder_node, List.length_cons, length_preorderList ts, size, Nat.add_comm]
theorem length_preorderList (ts : List Tree) : (preorderList ts).length = sizeList ts := by
  match ts with
  | [] => rfl
  | t :: ts =>
    rw [preorderList_cons, List.length_append, length_preorder t, length_preorderList ts, sizeList]
end

end Tree

/-- A walk under way: the nodes whose subtrees are still to visit, the next one last, and the nodes
that it has given. -/
structure Traversal where
  pending : List Node
  given : List Node

namespace Traversal

def start (n : Node) : Traversal := ⟨[n], []⟩

/-- One turn. The last pending node is given and its children take its place, the first child last. -/
def step (w : Traversal) : Traversal :=
  match w.pending.getLast? with
  | none => w
  | some n => ⟨w.pending.dropLast ++ n.children.reverse, w.given ++ [n]⟩

def ahead (w : Traversal) : List Node := w.pending.reverse.flatMap Node.walk

theorem step_nil (given : List Node) : step ⟨[], given⟩ = ⟨[], given⟩ := rfl

theorem step_concat (pending given : List Node) (n : Node) :
    step ⟨pending ++ [n], given⟩ = ⟨pending ++ n.children.reverse, given ++ [n]⟩ := by
  simp [step]

theorem ahead_concat (pending given : List Node) (n : Node) :
    ahead ⟨pending ++ [n], given⟩ = n :: ahead ⟨pending ++ n.children.reverse, given⟩ := by
  simp [ahead, Node.walk_eq_cons, Node.descendants, Node.walkForest_eq_flatMap, Node.children]

theorem pending_eq_nil_iff (w : Traversal) : w.pending = [] ↔ w.ahead = [] := by
  obtain ⟨pending, given⟩ := w
  rcases pending.eq_nil_or_concat' with rfl | ⟨rest, n, rfl⟩
  · simp [ahead]
  · simp [ahead_concat]

/-- A turn gives the first of the nodes that are still to come, if there is one. -/
theorem step_spec (w : Traversal) :
    w.step.given = w.given ++ w.ahead.take 1 ∧ w.step.ahead = w.ahead.drop 1 := by
  obtain ⟨pending, given⟩ := w
  rcases pending.eq_nil_or_concat' with rfl | ⟨rest, n, rfl⟩
  · simp [step_nil, ahead]
  · rw [step_concat, ahead_concat]
    exact ⟨rfl, rfl⟩

theorem iterate_step (w : Traversal) (k : Nat) :
    (step^[k] w).given = w.given ++ w.ahead.take k ∧ (step^[k] w).ahead = w.ahead.drop k := by
  induction k with
  | zero => simp
  | succ k ih =>
    obtain ⟨hg, ha⟩ := ih
    obtain ⟨hg', ha'⟩ := step_spec (step^[k] w)
    rw [Function.iterate_succ_apply', hg', ha', hg, ha, List.append_assoc, ← List.take_add,
      List.drop_drop]
    exact ⟨rfl, rfl⟩

theorem ahead_start (n : Node) : (start n).ahead = n.walk := by
  simp [ahead, start]

end Traversal

namespace Node

theorem length_walk (n : Node) : n.walk.length = n.tree.size := by
  rw [← List.length_map tree, map_tree_walk, Tree.length_preorder]

theorem walk_eq_flatMap_children (n : Node) : n.walk = n :: n.children.flatMap walk := by
  rw [walk_eq_cons, descendants, walkForest_eq_flatMap, children]

theorem mem_walk_iff {n x : Node} :
    x ∈ n.walk ↔ Relation.ReflTransGen (fun a b => b ∈ a.children) n x := by
  constructor
  · intro h
    rw [walk_eq_cons, List.mem_cons, mem_descendants_iff] at h
    obtain ⟨t, place⟩ := x
    induction place generalizing t with
    | nil =>
      obtain rfl := h.resolve_right List.not_mem_nil
      exact .refl
    | cons s place ih =>
      rcases h with rfl | h
      · exact .refl
      · rw [ancestors_cons, List.mem_cons] at h
        exact (ih _ (h.imp_left Eq.symm)).tail (mem_children_of_parent? rfl)
  · intro h
    induction h with
    | refl => exact mem_walk_self n
    | tail _ hc ih =>
      have hd := mem_descendants_of_mem_children hc
      rw [walk_eq_cons] at ih ⊢
      rcases List.mem_cons.1 ih with rfl | ih
      · exact List.mem_cons_of_mem _ hd
      · exact List.mem_cons_of_mem _ (mem_descendants_trans hd ih)

theorem isChain_ancestors (n : Node) :
    (n :: n.ancestors).IsChain fun a b => a.parent? = some b := by
  obtain ⟨t, place⟩ := n
  induction place generalizing t with
  | nil => exact .singleton _
  | cons s place ih => exact .cons_cons rfl (ih (s.fill t))

theorem parent?_getLast_ancestors (n : Node) :
    ((n :: n.ancestors).getLast (List.cons_ne_nil n n.ancestors)).parent? = none := by
  obtain ⟨t, place⟩ := n
  induction place generalizing t with
  | nil => rfl
  | cons s place ih => exact ih (s.fill t)

/-- In each of its turns the loop over a stack gives the next node of the recursive walk, and it ends
after as many turns as there are nodes. The walk has the node itself in front and then everything
below it, every node before its children and once only, as in the flat list of its tree. A node is
below another one just when that one is among its ancestors, which lead from its parent to the root. -/
theorem walk_in_preorder (n : Node) :
    visit [n] = n.walk ∧
    (∀ k, let w := Traversal.step^[k] (.start n)
      w.given = n.walk.take k ∧ (w.pending = [] ↔ n.tree.size ≤ k)) ∧
    n.walk = n :: n.children.flatMap walk ∧ n.walk.Nodup ∧
    (∀ x, x ∈ n.walk ↔ Relation.ReflTransGen (fun a b => b ∈ a.children) n x) ∧
    (∀ flat, Tree.ofFlat? flat = some n.tree ↔ flat = n.walk.map (·.tree.summary)) ∧
    n.walk = n :: n.descendants ∧
    (∀ x, x ∈ n.descendants ↔ n ∈ x.ancestors) ∧
    (n :: n.ancestors).IsChain (fun a b => a.parent? = some b) ∧
    ((n :: n.ancestors).getLast (List.cons_ne_nil n n.ancestors)).parent? = none := by
  refine ⟨?_, fun k => ?_, n.walk_eq_flatMap_children, nodup_walk n.place n.tree,
    fun x => mem_walk_iff, fun flat => ?_, n.walk_eq_cons, fun x => mem_descendants_iff,
    n.isChain_ancestors, n.parent?_getLast_ancestors⟩
  · rw [visit_eq_flatMap_walk, List.flatMap_singleton]
  · obtain ⟨hg, ha⟩ := Traversal.iterate_step (.start n) k
    rw [Traversal.ahead_start] at hg ha
    refine ⟨hg, ?_⟩
    rw [Traversal.pending_eq_nil_iff, ha, List.drop_eq_nil_iff, length_walk]
  · rw [Tree.ofFlat?_eq_some_iff, ← Tree.map_summary_preorder, ← map_tree_walk, List.map_map]
    rfl

end Node

end ComponentSurvey
