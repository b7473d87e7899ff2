import Mathlib.Data.List.Nodup
import ComponentSurvey.Tree.Pending

/-!
Above and below. A node stands below another one exactly when that one is among its ancestors, the
nodes below a node are one stretch of every walk that reaches it, and no walk meets a node twice.
-/

set_option autoImplicit false

namespace ComponentSurvey.Node

theorem ancestors_cons (t : Tree) (s : Step) (place : List Step) :
    ancestors ⟨t, s :: place⟩ = ⟨s.fill t, place⟩ :: ancestors ⟨s.fill t, place⟩ := rfl

theorem map_tree_siblings (l : Label) (place : List Step) (left ts : List Tree) :
    (siblings l place left ts).map tree = ts := by
  induction ts generalizing left with
  | nil => rfl
  | cons t ts ih => rw [siblings, List.map_cons, ih]

theorem map_tree_children (n : Node) : n.children.map tree = n.tree.children :=
  map_tree_siblings _ _ _ _

theorem mem_walk_self (n : Node) : n ∈ n.walk := by
  rw [walk_eq_cons]
  exact List.mem_cons_self

theorem mem_walk_of_mem_descendants {n m : Node} (h : m ∈ n.descendants) : m ∈ n.walk := by
  rw [walk_eq_cons]
  exact List.mem_cons_of_mem n h

mutual
theorem walk_stretch {place : List Step} {t : Tree} {m : Node} (h : m ∈ walk ⟨t, place⟩) :
    ∃ pre post, walk ⟨t, place⟩ = pre ++ m.walk ++ post := by
  match t with
  | .node l ts =>
    rw [walk_eq_cons] at h
    rcases List.mem_cons.1 h with rfl | h
    · exact ⟨[], [], by simp⟩
    · obtain ⟨pre, post, hw⟩ := walkForest_stretch h
      refine ⟨⟨.node l ts, place⟩ :: pre, post, ?_⟩
      rw [walk_eq_cons]
      exact congrArg _ hw
theorem walkForest_stretch {l : Label} {place : List Step} {left ts : List Tree} {m : Node}
    (h : m ∈ walkForest l place left ts) :
    ∃ pre post, walkForest l place left ts = pre ++ m.walk ++ post := by
  match ts with
  | [] => cases h
  | t :: ts =>
    rw [walkForest_cons] at h ⊢
    rcases List.mem_append.1 h with h | h
    · obtain ⟨pre, post, hw⟩ := walk_stretch h
      exact ⟨pre, post ++ walkForest l place (t :: left) ts, by simp [hw]⟩
    · obtain ⟨pre, post, hw⟩ := walkForest_stretch h
      exact ⟨walk ⟨t, ⟨l, left, ts⟩ :: place⟩ ++ pre, post, by simp [hw]⟩
end

theorem descendants_stretch {n m : Node} (h : m ∈ n.descendants) :
    ∃ pre post, n.descendants = pre ++ m.walk ++ post := walkForest_stretch h

theorem mem_descendants_trans {x y z : Node} (hx : x ∈ y.descendants) (hy : y ∈ z.descendants) :
    x ∈ z.descendants := by
  obtain ⟨pre, post, hz⟩ := descendants_stretch hy
  rw [hz]
  exact List.mem_append_left _ (List.mem_append_right _ (mem_walk_of_mem_descendants hx))

theorem mem_descendants_of_mem_walk {x y z : Node} (hx : x ∈ y.walk) (hy : y ∈ z.descendants) :
    x ∈ z.descendants := by
  rw [walk_eq_cons] at hx
  rcases List.mem_cons.1 hx with rfl | hx
  · exact hy
  · exact mem_descendants_trans hx hy

mutual
/-- Between a node and one above it stand only nodes below the latter. -/
theorem ancestors_of_mem_walk {place : List Step} {t : Tree} {x : Node}
    (h : x ∈ walk ⟨t, place⟩) : x = ⟨t, place⟩ ∨ ∃ between,
      x.ancestors = between ++ ⟨t, place⟩ :: ancestors ⟨t, place⟩ ∧
        ∀ a ∈ between, a ∈ descendants ⟨t, place⟩ := by
  match t with
  | .node l ts =>
    rw [walk_eq_cons] at h
    rcases List.mem_cons.1 h with rfl | h
    · exact .inl rfl
    · exact .inr (ancestors_of_mem_walkForest h)
theorem ancestors_of_mem_walkForest {l : Label} {place : List Step} {left ts : List Tree}
    {x : Node} (h : x ∈ walkForest l place left ts) : ∃ between,
      x.ancestors = between ++ ⟨.node l (left.reverse ++ ts), place⟩ ::
        ancestors ⟨.node l (left.reverse ++ ts), place⟩ ∧
      ∀ a ∈ between, a ∈ walkForest l place left ts := by
  match ts with
  | [] => cases h
  | t :: ts =>
    rw [walkForest_cons] at h ⊢
    rcases List.mem_append.1 h with h | h
    · rcases ancestors_of_mem_walk h with rfl | ⟨between, hx, hb⟩
      · exact ⟨[], rfl, by simp⟩
      · refine ⟨between ++ [⟨t, ⟨l, left, ts⟩ :: place⟩], ?_, fun a ha => ?_⟩
        · rw [hx, ancestors_cons, List.append_assoc]
          rfl
        · rcases List.mem_append.1 ha with ha | ha
          · exact List.mem_append_left _ (mem_walk_of_mem_descendants (hb a ha))
          · rw [List.mem_singleton.1 ha]
            exact List.mem_append_left _ (mem_walk_self _)
    · obtain ⟨between, hx, hb⟩ := ancestors_of_mem_walkForest h
      rw [List.reverse_cons, List.append_assoc, List.singleton_append] at hx
      exact ⟨between, hx, fun a ha => List.mem_append_right _ (hb a ha)⟩
end

theorem ancestors_of_mem_descendants {n x : Node} (h : x ∈ n.descendants) : ∃ between,
    x.ancestors = between ++ n :: n.ancestors ∧ ∀ a ∈ between, a ∈ n.descendants := by
  obtain ⟨⟨l, ts⟩, place⟩ := n
  exact ancestors_of_mem_walkForest h

theorem mem_siblings_append (l : Label) (place : List Step) (left as bs : List Tree) (t : Tree) :
    ⟨t, ⟨l, as.reverse ++ left, bs⟩ :: place⟩ ∈ siblings l place left (as ++ t :: bs) := by
  induction as generalizing left with
  | nil => exact List.mem_cons_self
  | cons a as ih =>
    rw [List.reverse_cons, List.append_assoc]
    exact List.mem_cons_of_mem _ (ih (a :: left))

theorem mem_children_of_parent? {x p : Node} (h : x.parent? = some p) : x ∈ p.children := by
  obtain ⟨t, _ | ⟨⟨l, left, right⟩, place⟩⟩ := x
  · cases h
  · cases h
    simpa [children, Step.fill, Tree.label, Tree.children] using
      mem_siblings_append l place [] left.reverse right t

theorem parent?_of_mem_siblings {l : Label} {place : List Step} {left ts : List Tree} {x : Node}
    (h : x ∈ siblings l place left ts) :
    x.parent? = some ⟨.node l (left.reverse ++ ts), place⟩ := by
  induction ts generalizing left with
  | nil => cases h
  | cons t ts ih =>
    rcases List.mem_cons.1 h with rfl | h
    · rfl
    · rw [ih h, List.reverse_cons, List.append_assoc, List.singleton_append]

theorem mem_children_iff {x p : Node} : x ∈ p.children ↔ x.parent? = some p := by
  refine ⟨fun h => ?_, mem_children_of_parent?⟩
  obtain ⟨⟨l, ts⟩, place⟩ := p
  exact parent?_of_mem_siblings h

theorem ancestors_of_mem_children {x p : Node} (h : x ∈ p.children) :
    x.ancestors = p :: p.ancestors := by
  have hp := mem_children_iff.1 h
  obtain ⟨t, _ | ⟨s, place⟩⟩ := x
  · cases hp
  · cases hp
    rfl

theorem mem_descendants_of_mem_children {x p : Node} (h : x ∈ p.children) :
    x ∈ p.descendants := by
  rw [descendants, walkForest_eq_flatMap]
  exact List.mem_flatMap.2 ⟨x, h, mem_walk_self x⟩

theorem mem_descendants_of_mem_ancestors {x y : Node} (h : y ∈ x.ancestors) :
    x ∈ y.descendants := by
  obtain ⟨t, place⟩ := x
  induction place generalizing t with
  | nil => cases h
  | cons s place ih =>
    have hp : ⟨t, s :: place⟩ ∈ descendants ⟨s.fill t, place⟩ :=
      mem_descendants_of_mem_children (mem_children_of_parent? rfl)
    rw [ancestors_cons] at h
    rcases List.mem_cons.1 h with rfl | h
    · exact hp
    · exact mem_descendants_trans hp (ih _ h)

theorem mem_descendants_iff {x y : Node} : x ∈ y.descendants ↔ y ∈ x.ancestors := by
  refine ⟨fun h => ?_, mem_descendants_of_mem_ancestors⟩
  obtain ⟨between, hx, -⟩ := ancestors_of_mem_descendants h
  rw [hx]
  exact List.mem_append_right _ List.mem_cons_self

theorem length_place_of_mem_ancestors {x y : Node} (h : y ∈ x.ancestors) :
    y.place.length < x.place.length := by
  obtain ⟨t, place⟩ := x
  induction place generalizing t with
  | nil => cases h
  | cons s place ih =>
    rw [ancestors_cons] at h
    rcases List.mem_cons.1 h with rfl | h
    · simp
    · have hl := ih _ h
      simp only [List.length_cons] at hl ⊢
      omega

theorem not_mem_descendants_self (n : Node) : n ∉ n.descendants := fun h =>
  Nat.lt_irrefl _ (length_place_of_mem_ancestors (mem_descendants_iff.1 h))

mutual
theorem place_suffix_of_mem_walk {place : List Step} {t : Tree} {x : Node}
    (h : x ∈ walk ⟨t, place⟩) : place <:+ x.place := by
  match t with
  | .node l ts =>
    rw [walk_eq_cons] at h
    rcases List.mem_cons.1 h with rfl | h
    · exact List.suffix_refl place
    · obtain ⟨s, -, hs⟩ := place_suffix_of_mem_walkForest h
      exact (List.suffix_cons s place).trans hs
/-- A node below siblings tells by its place how many of them stand on its left. -/
theorem place_suffix_of_mem_walkForest {l : Label} {place : List Step} {left ts : List Tree}
    {x : Node} (h : x ∈ walkForest l place left ts) :
    ∃ s : Step, left.length ≤ s.left.length ∧ s :: place <:+ x.place := by
  match ts with
  | [] => cases h
  | t :: ts =>
    rw [walkForest_cons] at h
    rcases List.mem_append.1 h with h | h
    · exact ⟨⟨l, left, ts⟩, Nat.le_refl _, place_suffix_of_mem_walk h⟩
    · obtain ⟨s, hl, hs⟩ := place_suffix_of_mem_walkForest h
      exact ⟨s, Nat.le_of_succ_le hl, hs⟩
end

theorem eq_of_cons_suffix {s r : Step} {place above : List Step} (hs : s :: place <:+ above)
    (hr : r :: place <:+ above) : s = r := by
  have h := List.suffix_of_suffix_length_le hs hr (by simp)
  exact (List.cons.inj (h.eq_of_length (by simp))).1

mutual
theorem nodup_walk (place : List Step) (t : Tree) : (walk ⟨t, place⟩).Nodup := by
  match t with
  | .node l ts =>
    rw [walk_eq_cons]
    exact List.nodup_cons.2 ⟨not_mem_descendants_self _, nodup_walkForest l place [] ts⟩
theorem nodup_walkForest (l : Label) (place : List Step) (left ts : List Tree) :
    (walkForest l place left ts).Nodup := by
  match ts with
  | [] => exact List.nodup_nil
  | t :: ts =>
    rw [walkForest_cons]
    refine List.nodup_append'.2
      ⟨nodup_walk _ t, nodup_walkForest l place (t :: left) ts, fun x hx hy => ?_⟩
    obtain ⟨s, hl, hs⟩ := place_suffix_of_mem_walkForest hy
    rw [← eq_of_cons_suffix (place_suffix_of_mem_walk hx) hs] at hl
    exact Nat.not_succ_le_self left.length hl
end

theorem nodup_descendants (n : Node) : n.descendants.Nodup := nodup_walkForest _ _ _ _

open scoped Classical in
/-- What a walk meets below one of its nodes is the walk below that node. -/
theorem filter_descendants {n m : Node} (h : m ∈ n.descendants) :
    n.descendants.filter (· ∈ m.descendants) = m.descendants := by
  obtain ⟨pre, post, hn⟩ := descendants_stretch h
  have hd := nodup_descendants n
  rw [hn, walk_eq_cons] at hd ⊢
  rw [List.append_assoc, List.cons_append] at hd ⊢
  obtain ⟨-, hmid, hdis⟩ := List.nodup_append'.1 hd
  have hpre : pre.filter (· ∈ m.descendants) = [] := by
    refine List.filter_eq_nil_iff.2 fun x hx hxm => ?_
    exact hdis hx (List.mem_cons_of_mem m (List.mem_append_left post (of_decide_eq_true hxm)))
  have hpost : post.filter (· ∈ m.descendants) = [] := by
    refine List.filter_eq_nil_iff.2 fun x hx hxm => ?_
    exact (List.nodup_append'.1 (List.nodup_cons.1 hmid).2).2.2 (of_decide_eq_true hxm) hx
  have hself : m.descendants.filter (· ∈ m.descendants) = m.descendants :=
    List.filter_eq_self.2 fun x hx => decide_eq_true hx
  rw [List.filter_append, List.filter_cons_of_neg, List.filter_append, hpre, hpost, hself,
    List.nil_append, List.append_nil]
  simpa using not_mem_descendants_self m

end ComponentSurvey.Node
