import ComponentSurvey.Analysis
import ComponentSurvey.Proofs.Complexity.Paths
import ComponentSurvey.Proofs.Survey.Parts
import Mathlib.Algebra.Ring.Int.Defs

/-!
Branches are counted once. The complexity of a tree is one more than the number of branching nodes
below it, whatever their depth, so parts of a file that stand apart have together no more branches
than the file.
-/

set_option autoImplicit false

namespace ComponentSurvey

namespace Tree

variable {root t : Tree} {us : List Tree}

theorem cyclomatic_sub_one (t : Tree) :
    t.cyclomatic - 1 = t.descendants.countP (·.kind.isBranch) := by
  rw [cyclomatic, Tally.branches_ofForest, ← descendants, add_sub_cancel_right]

theorem sum_cyclomatic (us : List Tree) :
    (us.map fun u => u.cyclomatic - 1).sum =
      ((us.flatMap descendants).countP (·.kind.isBranch) : Int) := by
  induction us with
  | nil => rfl
  | cons u us ih =>
    rw [List.map_cons, List.sum_cons, ih, cyclomatic_sub_one, List.flatMap_cons, List.countP_append,
      Int.natCast_add]

theorem flatMap_descendants_sublist (us : List Tree) :
    (us.flatMap descendants).Sublist (preorderList us) := by
  induction us with
  | nil => exact .slnil
  | cons u us ih =>
    rw [List.flatMap_cons, preorderList_cons, preorder_eq_cons]
    exact (List.sublist_cons_self _ _).append ih

/-- Parts that stand apart below a tree have together no more branches than the tree. -/
theorem Apart.sum_cyclomatic_le (h : Apart t.children us) :
    (us.map fun u => u.cyclomatic - 1).sum ≤ t.cyclomatic - 1 := by
  rw [sum_cyclomatic, cyclomatic_sub_one, Int.ofNat_le]
  exact ((flatMap_descendants_sublist us).trans h).countP_le

theorem Apart.cyclomatic_le (h : Apart t.children us) {u : Tree} (hu : u ∈ us) :
    u.cyclomatic ≤ t.cyclomatic := by
  have hs := (h.trans (.of_mem hu)).sum_cyclomatic_le
  rw [List.map_singleton, List.sum_singleton] at hs
  omega

end Tree

namespace Declaration

variable {source : Source} {d : Declaration}

theorem kind_of_mem_callables {m : Callable} (hd : d.form = .classLike)
    (hm : m ∈ d.callables source) : m.kind = "method" := by
  rw [callables, if_pos (by simp [hd])] at hm
  obtain ⟨t, -, rfl⟩ := List.mem_map.1 hm
  rfl

/-- Declarations that give a component or a function give one only, as complex as their target. -/
theorem sum_complexity_le (source : Source) (d : Declaration) :
    ((d.component? source).toList.map fun c => c.complexity - 1).sum +
        (((d.callables source).filter (·.kind != "method")).map fun f => f.complexity - 1).sum ≤
      d.target.cyclomatic - 1 := by
  have hpos : 0 ≤ d.target.cyclomatic - 1 := by
    rw [Tree.cyclomatic_sub_one]
    exact Int.natCast_nonneg _
  -- A class gives methods only, anything else either a component or a function.
  by_cases hd : d.form = .classLike
  · have hf : (d.callables source).filter (·.kind != "method") = [] := by
      rw [List.filter_eq_nil_iff]
      intro m hm
      simp [kind_of_mem_callables hd hm]
    rw [hf, component?, if_pos (by simp [hd])]
    split
    · simp [classComponent]
    · simpa using hpos
  · have hk : d.form.name != "method" := by cases d.form <;> decide
    have hb : ¬ d.form == .classLike := by simpa using hd
    rw [component?, callables, if_neg hb, if_neg hb]
    split
    · simp [functionComponent]
    · simp [callable, hk]

/-- A record of a function is as complex as a tree that is part of the declaration. -/
theorem complexity_of_mem_callables {f : Callable} (hf : f ∈ d.callables source) :
    ∃ t, f.complexity = t.cyclomatic ∧ Tree.Apart [d.target] [t] := by
  unfold callables at hf
  split at hf
  · obtain ⟨m, hm, rfl⟩ := List.mem_map.1 hf
    have hs := (Tree.apart_methods source d.target).trans (.of_mem hm)
    exact ⟨m, rfl, (Tree.Apart.children d.target).trans hs⟩
  · split at hf
    · cases hf
    · cases List.mem_singleton.1 hf
      exact ⟨d.target, rfl, .refl _⟩

theorem complexity_of_component? {c : Component} (h : d.component? source = some c) :
    c.complexity = d.target.cyclomatic := by
  rcases eq_of_component? h with rfl | rfl
  · rfl
  · rfl

theorem sum_methods_le (hd : d.form = .classLike) :
    ((d.callables source).map fun m => m.complexity - 1).sum ≤ d.target.cyclomatic - 1 := by
  rw [callables, if_pos (by simp [hd]), List.map_map]
  exact (Tree.apart_methods source d.target).sum_cyclomatic_le

theorem sum_complexities_le (source : Source) (ds : List Declaration) :
    ((ds.filterMap (component? source)).map fun c => c.complexity - 1).sum +
        (((ds.flatMap (callables source)).filter (·.kind != "method")).map
          fun f => f.complexity - 1).sum ≤
      (ds.map fun d => d.target.cyclomatic - 1).sum := by
  induction ds with
  | nil => simp
  | cons d ds ih =>
    have hd := sum_complexity_le source d
    have hc : (d :: ds).filterMap (component? source) =
        (d.component? source).toList ++ ds.filterMap (component? source) := by
      cases hc : d.component? source <;> simp [hc]
    rw [hc, List.flatMap_cons, List.filter_append, List.map_append, List.map_append, List.map_cons,
      List.sum_append, List.sum_append, List.sum_cons]
    omega

end Declaration

/-- In the survey of any tree, components and functions that are no methods have together no more
branches than the file, and the methods of a class no more than the class; so nothing that is
reported is more complex than its file. -/
theorem Survey.branches_counted_once (table : Weights) (path : String) (source : Source)
    (root : Tree) :
    let v := Survey.ofTree table path source root
    (v.components.map fun c => c.complexity - 1).sum +
        ((v.functions.filter (·.kind != "method")).map fun f => f.complexity - 1).sum ≤
      v.complexity.cyclomatic - 1 ∧
    (∀ d ∈ root.declarations source, d.form = .classLike →
      ((d.callables source).map fun m => m.complexity - 1).sum ≤ d.target.cyclomatic - 1) ∧
    (∀ c ∈ v.components, c.complexity ≤ v.complexity.cyclomatic) ∧
    ∀ f ∈ v.functions, f.complexity ≤ v.complexity.cyclomatic := by
  intro v
  have ht := Tree.apart_targets source root
  have hs := ht.sum_cyclomatic_le
  rw [List.map_map] at hs
  have hd := Declaration.sum_complexities_le source (root.declarations source)
  refine ⟨Int.le_trans hd hs, fun d _ hd => Declaration.sum_methods_le hd, fun c hc => ?_,
    fun f hf => ?_⟩
  · obtain ⟨d, hd, hdc⟩ := List.mem_filterMap.1 hc
    rw [Declaration.complexity_of_component? hdc]
    exact ht.cyclomatic_le (List.mem_map_of_mem hd)
  · obtain ⟨d, hd, hdf⟩ := List.mem_flatMap.1 hf
    obtain ⟨t, hft, hp⟩ := Declaration.complexity_of_mem_callables hdf
    have hpart := (ht.trans (.of_mem (List.mem_map_of_mem hd))).trans hp
    rw [hft]
    exact hpart.cyclomatic_le List.mem_cons_self

end ComponentSurvey
