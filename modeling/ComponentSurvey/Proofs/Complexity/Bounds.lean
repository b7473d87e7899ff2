import Mathlib.Order.MinMax
import ComponentSurvey.Proofs.Complexity.Paths

/-!
Bounds of metrics. What costs effort is a branch and makes a level, so effort is bounded by branches
and depth. A node stands deeper, and among more others, in the run for a node above it than in its own.
-/

set_option autoImplicit false

namespace ComponentSurvey

namespace Kind

variable {k : Kind}

theorem isBranch_of_isEffort (h : k.isEffort) : k.isBranch := by
  cases k <;> first | rfl | cases h

theorem isNesting_of_isEffort (h : k.isEffort) : k.isNesting := by
  cases k <;> first | rfl | cases h

end Kind

namespace Tally

variable {a b c d : Tally}

def Bounded (a : Tally) : Prop := a.effort ≤ a.branches * a.depth

theorem bounded_zero : zero.Bounded := Nat.le_refl 0

theorem Bounded.join (ha : a.Bounded) (hb : b.Bounded) : (a.join b).Bounded :=
  calc a.effort + b.effort
      ≤ a.branches * a.depth + b.branches * b.depth := Nat.add_le_add ha hb
    _ ≤ a.branches * max a.depth b.depth + b.branches * max a.depth b.depth :=
        Nat.add_le_add (Nat.mul_le_mul_left _ (Nat.le_max_left _ _))
          (Nat.mul_le_mul_left _ (Nat.le_max_right _ _))
    _ = (a.branches + b.branches) * max a.depth b.depth := (Nat.add_mul _ _ _).symm

/-- The effort of a node at a depth is the depth inside of it. -/
theorem bounded_ofNode (t : Tree) (depth : Nat) : (ofNode t depth).Bounded := by
  by_cases h : t.kind.isEffort
  · simp [Bounded, ofNode, h, Kind.isBranch_of_isEffort h, Kind.isNesting_of_isEffort h,
      Nat.add_comm]
  · simp [Bounded, ofNode, h]

theorem Bounded.collect {sum : Tally} (h : sum.Bounded) (stack : List (Tree × Nat)) :
    (collect stack sum).Bounded := by
  fun_induction Tally.collect stack sum with
  | case1 => exact h
  | case2 t depth rest sum ih => exact ih (h.join (bounded_ofNode t depth))

structure AtMost (a b : Tally) : Prop where
  branches : a.branches ≤ b.branches
  effort : a.effort ≤ b.effort
  depth : a.depth ≤ b.depth
  parameters : a.parameters ≤ b.parameters

theorem AtMost.refl (a : Tally) : a.AtMost a :=
  ⟨Nat.le_refl _, Nat.le_refl _, Nat.le_refl _, Nat.le_refl _⟩

theorem AtMost.trans (h : a.AtMost b) (h' : b.AtMost c) : a.AtMost c where
  branches := Nat.le_trans h.branches h'.branches
  effort := Nat.le_trans h.effort h'.effort
  depth := Nat.le_trans h.depth h'.depth
  parameters := Nat.le_trans h.parameters h'.parameters

theorem AtMost.join (h : a.AtMost b) (h' : c.AtMost d) : (a.join c).AtMost (b.join d) where
  branches := Nat.add_le_add h.branches h'.branches
  effort := Nat.add_le_add h.effort h'.effort
  depth := max_le_max h.depth h'.depth
  parameters := max_le_max h.parameters h'.parameters

theorem atMost_join_left (a b : Tally) : a.AtMost (a.join b) :=
  ⟨Nat.le_add_right _ _, Nat.le_add_right _ _, Nat.le_max_left _ _, Nat.le_max_left _ _⟩

theorem atMost_join_right (a b : Tally) : b.AtMost (a.join b) :=
  ⟨Nat.le_add_left _ _, Nat.le_add_left _ _, Nat.le_max_right _ _, Nat.le_max_right _ _⟩

section Deeper

variable {depth deeper : Nat} (h : depth ≤ deeper)
include h

theorem inner_mono (k : Kind) : inner k depth ≤ inner k deeper := by
  rw [inner_eq, inner_eq]
  exact Nat.add_le_add_right h _

theorem ofNode_mono (t : Tree) : (ofNode t depth).AtMost (ofNode t deeper) where
  branches := Nat.le_refl _
  effort := by
    unfold ofNode
    split_ifs <;> simp [h]
  depth := by
    unfold ofNode
    split_ifs <;> simp [h]
  parameters := Nat.le_refl _

end Deeper

mutual
theorem ofTree_mono {depth deeper : Nat} (h : depth ≤ deeper) (t : Tree) :
    (ofTree depth t).AtMost (ofTree deeper t) := by
  match t with
  | .node l ts => exact (ofNode_mono h (.node l ts)).join (ofForest_mono (inner_mono h l.kind) ts)
theorem ofForest_mono {depth deeper : Nat} (h : depth ≤ deeper) (ts : List Tree) :
    (ofForest depth ts).AtMost (ofForest deeper ts) := by
  match ts with
  | [] => exact .refl zero
  | t :: ts => exact (ofTree_mono h t).join (ofForest_mono h ts)
end

mutual
/-- What is below a node of a tree counts for the tree too, at whatever depth the tree stands. -/
theorem below_atMost_ofTree {u : Tree} (depth : Nat) (t : Tree) (h : u ∈ t.preorder) :
    (ofForest 0 u.children).AtMost (ofTree depth t) := by
  match t with
  | .node l ts =>
    rw [Tree.preorder_node] at h
    refine AtMost.trans ?_ (atMost_join_right _ _)
    rcases List.mem_cons.1 h with rfl | h
    · exact ofForest_mono (Nat.zero_le _) ts
    · exact below_atMost_ofForest _ ts h
theorem below_atMost_ofForest {u : Tree} (depth : Nat) (ts : List Tree)
    (h : u ∈ Tree.preorderList ts) : (ofForest 0 u.children).AtMost (ofForest depth ts) := by
  match ts with
  | [] => cases h
  | t :: ts =>
    rw [Tree.preorderList_cons] at h
    rcases List.mem_append.1 h with h | h
    · exact (below_atMost_ofTree depth t h).trans (atMost_join_left _ _)
    · exact (below_atMost_ofForest depth ts h).trans (atMost_join_right _ _)
end

theorem below_atMost_descendant {n d : Node} (h : d ∈ n.descendants) :
    (ofForest 0 d.tree.children).AtMost (ofForest 0 n.tree.children) := by
  refine below_atMost_ofForest 0 _ ?_
  rw [← Tree.descendants, ← Node.map_tree_descendants]
  exact List.mem_map_of_mem h

end Tally

/-- The metrics that the loop over a stack finds for a node: each branch costs at most the depth, so
nothing costs effort where nothing is nested, and none of the metrics, apart from the lines, is larger
for a node below. -/
theorem Node.metrics_bounded (source : Source) (lines : Option Int) (n : Node) :
    let m := n.tree.measured source lines
    m.cognitive ≤ (m.cyclomatic - 1) * m.nestingDepth ∧
    (m.nestingDepth = 0 → m.cognitive = 0) ∧
    ∀ d ∈ n.descendants, ∀ inside : Option Int,
      let k := d.tree.measured source inside
      k.cyclomatic ≤ m.cyclomatic ∧ k.cognitive ≤ m.cognitive ∧
      k.nestingDepth ≤ m.nestingDepth ∧ k.parameterCount ≤ m.parameterCount := by
  intro m
  have hm : m.cognitive ≤ (m.cyclomatic - 1) * m.nestingDepth := by
    have h := Tally.bounded_zero.collect (n.tree.children.map (·, 0))
    simp only [m, Tree.measured, Int.add_sub_cancel]
    exact_mod_cast h
  refine ⟨hm, fun hd => ?_, fun d hd inside => ?_⟩
  · rw [hd, Int.mul_zero] at hm
    exact le_antisymm hm (Int.natCast_nonneg _)
  · have h := Tally.below_atMost_descendant hd
    simp only [m, Tree.measured_eq, Tree.metricsOver]
    exact ⟨Int.add_le_add_right (Int.ofNat_le.2 h.branches) 1, Int.ofNat_le.2 h.effort,
      Int.ofNat_le.2 h.depth, Int.ofNat_le.2 h.parameters⟩

/-- A function with a branch in a loop, and another branch beside them, which makes no level. -/
theorem Node.metrics_bounded_of_loop :
    let part (type : String) := Tree.node ⟨type, true, false, ⟨0, 0⟩, []⟩
    let loop := part "while_statement" [part "if_statement" []]
    let choice := part "ternary_expression" []
    let f := part "function_declaration" [loop, choice]
    let inner : Node := ⟨loop, [⟨f.label, [], [choice]⟩]⟩
    let source := Source.ofBytes []
    let m := f.measured source none
    let k := loop.measured source none
    inner ∈ (Node.ofTree f).descendants ∧ m = ⟨4, 3, 1, 2, 0⟩ ∧ k = ⟨2, 1, 1, 1, 0⟩ ∧
      m.cognitive ≤ (m.cyclomatic - 1) * m.nestingDepth ∧ k.cyclomatic ≤ m.cyclomatic ∧
      k.cognitive ≤ m.cognitive ∧ k.nestingDepth ≤ m.nestingDepth ∧
      k.parameterCount ≤ m.parameterCount := by
  intro part loop choice f inner source m k
  have hd : inner ∈ (Node.ofTree f).descendants := List.mem_cons_self
  have hm : m = ⟨4, 3, 1, 2, 0⟩ := (Tree.measured_eq source none f).trans (by decide)
  have hk : k = ⟨2, 1, 1, 1, 0⟩ := (Tree.measured_eq source none loop).trans (by decide)
  obtain ⟨he, -, hb⟩ := metrics_bounded source none (Node.ofTree f)
  exact ⟨hd, hm, hk, he, hb inner hd none⟩

end ComponentSurvey
