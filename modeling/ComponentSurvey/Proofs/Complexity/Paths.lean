import Mathlib.Algebra.BigOperators.Group.List.Basic
import Mathlib.Algebra.GroupWithZero.Nat
import Mathlib.Order.Bounds.Defs
import ComponentSurvey.Complexity
import ComponentSurvey.Proofs.Tree.Ancestry

/-!
Metrics by paths. What the loop over a stack finds below a node is told by the nodes there and the nodes
between them and it: how many branches there are, how deep each of those stands that cost effort, and
how many levels a path downwards goes through.
-/

set_option autoImplicit false

namespace ComponentSurvey

namespace Tally

theorem ofTree_eq (depth : Nat) (t : Tree) :
    ofTree depth t = (ofNode t depth).join (ofForest (inner t.kind depth) t.children) := by
  cases t
  rfl

theorem foldl_forest (depth : Nat) (ts : List Tree) (sum : Tally) :
    (ts.map (·, depth)).foldl (fun sum p => sum.join (ofTree p.2 p.1)) sum =
      sum.join (ofForest depth ts) := by
  induction ts generalizing sum with
  | nil => exact (join_zero sum).symm
  | cons t ts ih => rw [List.map_cons, List.foldl_cons, ih, join_assoc, ofForest]

/-- Whatever is on the stack, the loop adds the contributions of its subtrees to what it has. -/
theorem collect_eq_foldl (stack : List (Tree × Nat)) (sum : Tally) :
    collect stack sum = stack.foldl (fun sum p => sum.join (ofTree p.2 p.1)) sum := by
  fun_induction collect stack sum with
  | case1 => rfl
  | case2 sum t depth rest ih =>
    rw [ih, List.foldl_append, foldl_forest, List.foldl_cons, ofTree_eq, join_assoc]

theorem collect_children (t : Tree) :
    collect (t.children.map (·, 0)) zero = ofForest 0 t.children := by
  rw [collect_eq_foldl, foldl_forest, zero_join]

end Tally

theorem Tree.measured_eq (source : Source) (lines : Option Int) (t : Tree) :
    t.measured source lines = t.metricsOver (lines.getD (source.row t.span.stop + 1)) := by
  rw [measured, Tally.collect_children, metricsOver]

namespace Kind

theorem isBranch_eq (k : Kind) : k.isBranch = decide
    (k ∈ [ifStatement, whileLoop, forLoop, doLoop, switchCase, ternary]) := by
  cases k <;> rfl

theorem isEffort_eq (k : Kind) : k.isEffort = decide (k ∈ [ifStatement, whileLoop, forLoop]) := by
  cases k <;> rfl

theorem isNesting_eq (k : Kind) : k.isNesting = decide
    (k ∈ [block, ifStatement, whileLoop, forLoop, doLoop]) := by
  cases k <;> rfl

theorem hasCountedParameters_eq (k : Kind) :
    k.hasCountedParameters = decide (k ∈ [function, arrow, method]) := by
  cases k <;> rfl

end Kind

namespace Node

/-- Nodes around `d` that are deeper than `n`, nearest to `d` first. -/
def between (n d : Node) : List Node :=
  d.ancestors.filter fun a => n.place.length < a.place.length

/-- For a node below `n` these are the nodes around it that are below `n` too. -/
theorem mem_between {n d a : Node} (h : d ∈ n.descendants) :
    a ∈ n.between d ↔ a ∈ d.ancestors ∧ a ∈ n.descendants := by
  rw [between, List.mem_filter, decide_eq_true_iff]
  refine ⟨fun ⟨ha, hl⟩ => ⟨ha, ?_⟩, fun ⟨ha, hn⟩ =>
    ⟨ha, length_place_of_mem_ancestors (mem_descendants_iff.1 hn)⟩⟩
  obtain ⟨inner, hd, hi⟩ := ancestors_of_mem_descendants h
  rw [hd] at ha
  rcases List.mem_append.1 ha with ha | ha
  · exact hi a ha
  · rcases List.mem_cons.1 ha with rfl | ha
    · exact absurd hl (Nat.lt_irrefl _)
    · exact absurd (length_place_of_mem_ancestors ha) (Nat.lt_asymm hl)

/-- Levels that the steps of a place go through, those of the first `k` steps from the top left out. -/
def levels (k : Nat) : List Step → Nat
  | [] => 0
  | s :: place => (if s.label.kind.isNesting && k < place.length then 1 else 0) + levels k place

theorem countP_between (n d : Node) :
    (n.between d).countP (·.kind.isNesting) = levels n.place.length d.place := by
  obtain ⟨t, place⟩ := d
  induction place generalizing t with
  | nil => rfl
  | cons s place ih =>
    have hs := ih (s.fill t)
    rw [between] at hs ⊢
    rw [ancestors_cons, List.filter_cons, levels, ← hs]
    by_cases hl : n.place.length < place.length
    · simp [hl, List.countP_cons, Nat.add_comm, kind, Step.fill, Tree.kind, Tree.label]
    · simp [hl]

theorem levels_eq_zero {k : Nat} {place : List Step} (h : place.length ≤ k + 1) :
    levels k place = 0 := by
  induction place with
  | nil => rfl
  | cons s place ih =>
    rw [List.length_cons] at h
    rw [levels, ih (by omega), if_neg (by simp; omega)]

end Node

namespace Tally

open Node

def cost (k : Nat) (d : Node) : Nat := 1 + levels k d.place

def costs (k : Nat) (ds : List Node) : Nat := ((ds.filter (·.kind.isEffort)).map (cost k)).sum

theorem costs_append (k : Nat) (ds es : List Node) : costs k (ds ++ es) = costs k ds + costs k es := by
  rw [costs, List.filter_append, List.map_append, List.sum_append]
  rfl

theorem costs_cons (k : Nat) (d : Node) (ds : List Node) :
    costs k (d :: ds) = (if d.kind.isEffort then cost k d else 0) + costs k ds := by
  by_cases h : d.kind.isEffort <;> simp [costs, h]

/-- Children stand one level deeper when their parent makes a level and is not at the top. -/
theorem inner_levels {k : Nat} {place : List Step} (h : k < place.length) (l : Label)
    (left right : List Tree) : inner l.kind (levels k place) = levels k (⟨l, left, right⟩ :: place) := by
  by_cases hn : l.kind.isNesting <;> simp [inner, levels, h, hn, Nat.add_comm]

mutual
theorem effort_ofTree {k : Nat} {place : List Step} (h : k < place.length) (t : Tree) :
    (ofTree (levels k place) t).effort = costs k (walk ⟨t, place⟩) := by
  match t with
  | .node l ts =>
    rw [ofTree, join, inner_levels h l [] ts, effort_ofForest (Nat.le_of_lt h) l [] ts, walk_eq_cons,
      costs_cons]
    rfl
theorem effort_ofForest {k : Nat} {place : List Step} (h : k ≤ place.length) (l : Label)
    (left ts : List Tree) :
    (ofForest (levels k (⟨l, left, ts⟩ :: place)) ts).effort =
      costs k (walkForest l place left ts) := by
  match ts with
  | [] => rfl
  | t :: ts =>
    have hlt : k < ((⟨l, left, ts⟩ : Step) :: place).length := Nat.lt_succ_of_le h
    have ht := effort_ofTree hlt t
    have hts := effort_ofForest h l (t :: left) ts
    rw [walkForest_cons, costs_append, ← ht, ← hts]
    rfl
end

theorem effort_children (n : Node) :
    (ofForest 0 n.tree.children).effort = costs n.place.length n.descendants := by
  have h := effort_ofForest (Nat.le_refl n.place.length) n.tree.label [] n.tree.children
  rwa [levels_eq_zero (Nat.le_refl _)] at h

end Tally

namespace Node

def IsPathBelow (n : Node) (path : List Node) : Prop :=
  (n :: path).IsChain fun a b => b ∈ a.children

theorem isPathBelow_nil (n : Node) : n.IsPathBelow [] := .singleton n

theorem isPathBelow_cons {n d : Node} {path : List Node} :
    n.IsPathBelow (d :: path) ↔ d ∈ n.children ∧ d.IsPathBelow path := List.isChain_cons_cons

end Node

namespace Tally

open Node

def levelsOf (path : List Node) : Nat := path.countP (·.kind.isNesting)

theorem inner_eq (k : Kind) (depth : Nat) : inner k depth = depth + if k.isNesting then 1 else 0 := by
  unfold inner
  split <;> rfl

theorem inner_le_max (t : Tree) (depth : Nat) :
    inner t.kind depth ≤ max depth (ofNode t depth).depth := by
  rw [inner, ofNode]
  split <;> simp

theorem depth_le_ofForest {t : Tree} {ts : List Tree} (h : t ∈ ts) (depth : Nat) :
    (ofTree depth t).depth ≤ (ofForest depth ts).depth := by
  induction ts with
  | nil => cases h
  | cons u us ih =>
    rw [ofForest, join]
    rcases List.mem_cons.1 h with rfl | h
    · exact Nat.le_max_left _ _
    · exact Nat.le_trans (ih h) (Nat.le_max_right _ _)

theorem tree_mem_children {n d : Node} (h : d ∈ n.children) : d.tree ∈ n.tree.children := by
  rw [← map_tree_children]
  exact List.mem_map_of_mem h

theorem levelsOf_cons (d : Node) (path : List Node) :
    levelsOf (d :: path) = levelsOf path + if d.kind.isNesting then 1 else 0 := List.countP_cons

/-- Induction on the path; the depth grows with each of its nodes that makes a level. -/
theorem levelsOf_le {n : Node} {path : List Node} (h : n.IsPathBelow path) (depth : Nat) :
    depth + levelsOf path ≤ max depth (ofForest depth n.tree.children).depth := by
  induction path generalizing n depth with
  | nil => exact Nat.le_max_left _ _
  | cons d path ih =>
    obtain ⟨hd, hp⟩ := isPathBelow_cons.1 h
    have hi := ih hp (inner d.kind depth)
    have hm : inner d.kind depth ≤ _ := inner_le_max d.tree depth
    have hd := depth_le_ofForest (tree_mem_children hd) depth
    rw [ofTree_eq, join] at hd
    have hc := levelsOf_cons d path
    have he := inner_eq d.kind depth
    calc depth + levelsOf (d :: path)
        = inner d.kind depth + levelsOf path := by omega
      _ ≤ max (inner d.kind depth) (ofForest (inner d.kind depth) d.tree.children).depth := hi
      _ ≤ max depth (ofForest depth n.tree.children).depth := by
        simp only [kind] at hm hd ⊢
        omega

mutual
/-- The depth of a tree that makes levels is that of a path that begins with it. -/
theorem exists_path_ofTree (place : List Step) (depth : Nat) (t : Tree) :
    (ofTree depth t).depth = 0 ∨ ∃ path, IsPathBelow ⟨t, place⟩ path ∧
      (ofTree depth t).depth = depth + levelsOf (⟨t, place⟩ :: path) := by
  match t with
  | .node l ts =>
    have hc := levelsOf_cons ⟨.node l ts, place⟩
    have he := inner_eq l.kind depth
    have hn : (ofNode (.node l ts) depth).depth = if l.kind.isNesting then depth + 1 else 0 := rfl
    simp only [ofTree, join]
    rcases exists_path_ofForest l place [] (inner l.kind depth) ts with h | ⟨d, hd, path, hp, h⟩
    · by_cases hl : l.kind.isNesting
      · refine .inr ⟨[], isPathBelow_nil _, ?_⟩
        rw [h, hn, hc, levelsOf, List.countP_nil]
        simp [hl, kind, Tree.kind, Tree.label]
      · exact .inl (by simp [h, hn, hl])
    · refine .inr ⟨d :: path, isPathBelow_cons.2 ⟨hd, hp⟩, ?_⟩
      have hk : (⟨.node l ts, place⟩ : Node).kind = l.kind := rfl
      rw [h, hn, hc, hk]
      split_ifs at he ⊢ <;> omega
theorem exists_path_ofForest (l : Label) (place : List Step) (left : List Tree) (depth : Nat)
    (ts : List Tree) :
    (ofForest depth ts).depth = 0 ∨ ∃ d ∈ siblings l place left ts, ∃ path, d.IsPathBelow path ∧
      (ofForest depth ts).depth = depth + levelsOf (d :: path) := by
  match ts with
  | [] => exact .inl rfl
  | t :: ts =>
    simp only [ofForest, join]
    rcases exists_path_ofForest l place (t :: left) depth ts with h | ⟨d, hd, path, hp, h⟩
    · rw [h, Nat.max_zero]
      rcases exists_path_ofTree (⟨l, left, ts⟩ :: place) depth t with ht | ⟨path, hp, ht⟩
      · exact .inl ht
      · exact .inr ⟨_, List.mem_cons_self, path, hp, ht⟩
    · rcases exists_path_ofTree (⟨l, left, ts⟩ :: place) depth t with ht | ⟨path', hp', ht⟩
      · rw [ht, Nat.zero_max]
        exact .inr ⟨d, List.mem_cons_of_mem _ hd, path, hp, h⟩
      · rcases Nat.le_total (ofTree depth t).depth (ofForest depth ts).depth with hm | hm
        · rw [Nat.max_eq_right hm]
          exact .inr ⟨d, List.mem_cons_of_mem _ hd, path, hp, h⟩
        · rw [Nat.max_eq_left hm]
          exact .inr ⟨_, List.mem_cons_self, path', hp', ht⟩
end

theorem isGreatest_levelsOf (n : Node) :
    IsGreatest {k : Nat | ∃ path, n.IsPathBelow path ∧ k = levelsOf path}
      (ofForest 0 n.tree.children).depth := by
  constructor
  · rcases exists_path_ofForest n.tree.label n.place [] 0 n.tree.children with h | ⟨d, hd, path, hp, h⟩
    · exact ⟨[], isPathBelow_nil n, h⟩
    · exact ⟨d :: path, isPathBelow_cons.2 ⟨hd, hp⟩, by rw [h, Nat.zero_add]⟩
  · rintro k ⟨path, hp, rfl⟩
    have h := levelsOf_le hp 0
    rwa [Nat.zero_add, Nat.zero_max] at h

mutual
theorem branches_ofTree (depth : Nat) (t : Tree) :
    (ofTree depth t).branches = t.preorder.countP (·.kind.isBranch) := by
  match t with
  | .node l ts =>
    have hn : (ofNode (.node l ts) depth).branches =
        [Tree.node l ts].countP (·.kind.isBranch) := by
      rw [List.countP_singleton]
      rfl
    rw [ofTree, join, branches_ofForest, hn, Tree.preorder_node, ← List.countP_append,
      List.singleton_append]
theorem branches_ofForest (depth : Nat) (ts : List Tree) :
    (ofForest depth ts).branches = (Tree.preorderList ts).countP (·.kind.isBranch) := by
  match ts with
  | [] => rfl
  | t :: ts =>
    rw [ofForest, join, branches_ofTree, branches_ofForest, Tree.preorderList_cons,
      List.countP_append]
end

def mostParameters (ts : List Tree) : Nat :=
  ((ts.filter (·.kind.hasCountedParameters)).map Tree.parameterCount).foldr max 0

theorem mostParameters_cons (t : Tree) (ts : List Tree) :
    mostParameters (t :: ts) =
      max (if t.kind.hasCountedParameters then t.parameterCount else 0) (mostParameters ts) := by
  by_cases h : t.kind.hasCountedParameters <;> simp [mostParameters, h]

theorem mostParameters_append (ts us : List Tree) :
    mostParameters (ts ++ us) = max (mostParameters ts) (mostParameters us) := by
  induction ts with
  | nil => exact (Nat.zero_max _).symm
  | cons t ts ih => rw [List.cons_append, mostParameters_cons, ih, mostParameters_cons, Nat.max_assoc]

mutual
theorem parameters_ofTree (depth : Nat) (t : Tree) :
    (ofTree depth t).parameters = mostParameters t.preorder := by
  match t with
  | .node l ts =>
    rw [ofTree, join, parameters_ofForest, Tree.preorder_node, mostParameters_cons]
    rfl
theorem parameters_ofForest (depth : Nat) (ts : List Tree) :
    (ofForest depth ts).parameters = mostParameters (Tree.preorderList ts) := by
  match ts with
  | [] => rfl
  | t :: ts =>
    rw [ofForest, join, parameters_ofTree, parameters_ofForest, Tree.preorderList_cons,
      mostParameters_append]
end

end Tally

open Tally in
/-- What the loop over a stack finds below a node, and what is reported of the node, told by nodes and
paths: one more than the branches below; for each node that costs effort, one and one more for every
level between it and the node at the top; the most levels on any path downwards; the most parameters
of any function, arrow or method; and the lines given or else those up to the last row. -/
theorem Node.metrics_by_paths (source : Source) (lines : Option Int) (n : Node) :
    let m := n.tree.measured source lines
    m = n.tree.metricsOver (lines.getD (source.row n.tree.span.stop + 1)) ∧
    m.cyclomatic = 1 + n.descendants.countP
      (·.kind ∈ [.ifStatement, .whileLoop, .forLoop, .doLoop, .switchCase, .ternary]) ∧
    m.cognitive =
      ((n.descendants.filter (·.kind ∈ [.ifStatement, .whileLoop, .forLoop])).map fun d =>
        1 + (n.between d).countP
          (·.kind ∈ [.block, .ifStatement, .whileLoop, .forLoop, .doLoop])).sum ∧
    IsGreatest {k : Int | ∃ path, n.IsPathBelow path ∧ k = path.countP
      (·.kind ∈ [.block, .ifStatement, .whileLoop, .forLoop, .doLoop])} m.nestingDepth ∧
    m.parameterCount = ((n.descendants.filter (·.kind ∈ [.function, .arrow, .method])).map
      (·.tree.parameterCount)).foldr max 0 ∧
    m.linesOfCode = lines.getD (source.row n.tree.span.stop + 1) := by
  intro m
  have hm : m = n.tree.metricsOver _ := Tree.measured_eq source lines n.tree
  refine ⟨hm, ?_, ?_, ?_, ?_, by rw [hm]; rfl⟩ <;>
    simp only [hm, Tree.metricsOver, ← Kind.isBranch_eq, ← Kind.isEffort_eq, ← Kind.isNesting_eq,
      ← Kind.hasCountedParameters_eq]
  · rw [branches_ofForest, ← Tree.descendants, ← map_tree_descendants, List.countP_map, add_comm]
    rfl
  · simp only [effort_children, costs, countP_between]
    rfl
  · obtain ⟨⟨path, hp, h⟩, hle⟩ := isGreatest_levelsOf n
    refine ⟨⟨path, hp, by rw [h]; rfl⟩, ?_⟩
    rintro k ⟨path, hp, rfl⟩
    exact Int.ofNat_le.2 (hle ⟨path, hp, rfl⟩)
  · rw [parameters_ofForest, ← Tree.descendants, ← map_tree_descendants, mostParameters,
      List.filter_map, List.map_map]
    rfl

end ComponentSurvey
