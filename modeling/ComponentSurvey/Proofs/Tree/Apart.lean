import ComponentSurvey.Tree

/-!
Subtrees taken out of a forest from left to right, none of them inside another. Their nodes, one
subtree after the other, are nodes of the forest in the same order, and no node is taken twice.
-/

set_option autoImplicit false

namespace ComponentSurvey.Tree

variable {t u : Tree} {ts us vs : List Tree} {f : String}

theorem preorder_eq_cons (t : Tree) : t.preorder = t :: t.descendants := by
  cases t
  rfl

theorem preorderList_eq_flatMap (ts : List Tree) : preorderList ts = ts.flatMap preorder := by
  induction ts with
  | nil => rfl
  | cons t ts ih => rw [preorderList_cons, List.flatMap_cons, ih]

theorem preorderList_singleton (t : Tree) : preorderList [t] = t.preorder := by
  rw [preorderList_eq_flatMap, List.flatMap_singleton]

theorem preorderList_append (ts us : List Tree) :
    preorderList (ts ++ us) = preorderList ts ++ preorderList us := by
  rw [preorderList_eq_flatMap, List.flatMap_append, ← preorderList_eq_flatMap,
    ← preorderList_eq_flatMap]

/-- The trees of a forest come among its nodes in their order. -/
theorem sublist_preorderList (ts : List Tree) : ts.Sublist (preorderList ts) := by
  induction ts with
  | nil => exact .slnil
  | cons t ts ih =>
    rw [preorderList_cons, preorder_eq_cons, List.cons_append]
    exact (ih.trans (List.sublist_append_right _ _)).cons_cons t

theorem preorderList_sublist (h : us.Sublist ts) :
    (preorderList us).Sublist (preorderList ts) := by
  induction h with
  | slnil => exact .slnil
  | cons t _ ih =>
    rw [preorderList_cons]
    exact ih.trans (List.sublist_append_right _ _)
  | cons_cons t _ ih =>
    rw [preorderList_cons, preorderList_cons]
    exact ih.append_left _

/-- The trees `us` are subtrees of the forest `ts`, taken from left to right and none from inside
another. -/
def Apart (ts us : List Tree) : Prop := (preorderList us).Sublist (preorderList ts)

theorem Apart.refl (ts : List Tree) : Apart ts ts := List.Sublist.refl _

theorem Apart.nil (ts : List Tree) : Apart ts [] := List.nil_sublist _

theorem Apart.trans (h : Apart ts us) (h' : Apart us vs) : Apart ts vs := List.Sublist.trans h' h

theorem Apart.of_sublist (h : us.Sublist ts) : Apart ts us := preorderList_sublist h

theorem Apart.of_mem (h : t ∈ ts) : Apart ts [t] := .of_sublist (List.singleton_sublist.2 h)

theorem Apart.children (t : Tree) : Apart [t] t.children := by
  rw [Apart, preorderList_singleton, preorder_eq_cons]
  exact List.sublist_cons_self _ _

theorem Apart.of_mem_children (h : u ∈ t.children) : Apart [t] [u] := (children t).trans (.of_mem h)

/-- Subtrees of subtrees that stand apart do so as well. -/
theorem Apart.flatMap {α : Type} {g : α → Tree} {f : α → List Tree} {as : List α}
    (h : ∀ a ∈ as, Apart [g a] (f a)) : Apart (as.map g) (as.flatMap f) := by
  induction as with
  | nil => exact .refl []
  | cons a as ih =>
    obtain ⟨ha, has⟩ := List.forall_mem_cons.1 h
    rw [Apart, preorderList_singleton] at ha
    rw [Apart, List.map_cons, List.flatMap_cons, preorderList_cons, preorderList_append]
    exact ha.append (ih has)

theorem Apart.flatMap_trees {f : Tree → List Tree} (h : ∀ t ∈ ts, Apart [t] (f t)) :
    Apart ts (ts.flatMap f) := by
  have hm := Apart.flatMap (g := id) h
  rwa [List.map_id] at hm

theorem Apart.sublist (h : Apart ts us) : us.Sublist (preorderList ts) :=
  (sublist_preorderList us).trans h

mutual
theorem Apart.of_mem_preorder {t u : Tree} (h : u ∈ t.preorder) : Apart [t] [u] := by
  match t with
  | .node l ts =>
    rw [preorder_node, List.mem_cons] at h
    rcases h with rfl | h
    · exact .refl _
    · exact (children _).trans (Apart.of_mem_preorderList h)
theorem Apart.of_mem_preorderList {ts : List Tree} {u : Tree} (h : u ∈ preorderList ts) :
    Apart ts [u] := by
  match ts with
  | [] => cases h
  | t :: ts =>
    rw [preorderList_cons, List.mem_append] at h
    rcases h with h | h
    · exact (Apart.of_mem List.mem_cons_self).trans (Apart.of_mem_preorder h)
    · exact (Apart.of_sublist (List.sublist_cons_self t ts)).trans (Apart.of_mem_preorderList h)
end

theorem Apart.field? (h : t.field? f = some u) : Apart [t] [u] :=
  .of_mem_children (List.mem_of_find?_eq_some h)

mutual
theorem Apart.unparenthesized {t u : Tree} (h : t.unparenthesized = some u) : Apart [t] [u] := by
  match t with
  | .node l ts =>
    rw [Tree.unparenthesized] at h
    by_cases hp : l.type == "parenthesized_expression"
    · rw [if_pos hp] at h
      exact (children _).trans (Apart.firstUnparenthesized h)
    · rw [if_neg hp] at h
      cases h
      exact .refl _
theorem Apart.firstUnparenthesized {ts : List Tree} {u : Tree}
    (h : firstUnparenthesized ts = some u) : Apart ts [u] := by
  match ts with
  | [] => cases h
  | t :: ts =>
    rw [Tree.firstUnparenthesized] at h
    by_cases hc : t.named && !t.isComment
    · rw [if_pos hc] at h
      exact (Apart.of_mem List.mem_cons_self).trans (Apart.unparenthesized h)
    · rw [if_neg hc] at h
      exact (Apart.of_sublist (List.sublist_cons_self t ts)).trans (Apart.firstUnparenthesized h)
end

theorem Apart.namedChildren (t : Tree) : Apart t.children t.namedChildren :=
  .of_sublist List.filter_sublist

end ComponentSurvey.Tree
