import ComponentSurvey.Proofs.Tree.Apart
import ComponentSurvey.Survey.Callables
import Mathlib.Data.List.Basic

/-!
Where the trees that are reported stand in their file. Statements, declarations, what they declare
and the methods of classes are parts of the file that stand apart.
-/

set_option autoImplicit false

namespace ComponentSurvey

variable {source : Source}

/-- What the images of some elements show comes in the order of the elements. -/
theorem map_filterMap_sublist {α β γ : Type} {f : α → Option β} {g : β → γ} {h : α → γ}
    {as : List α} (hf : ∀ a b, f a = some b → g b = h a) :
    ((as.filterMap f).map g).Sublist (as.map h) := by
  induction as with
  | nil => exact .slnil
  | cons a as ih =>
    cases ha : f a with
    | none =>
      rw [List.filterMap_cons_none ha, List.map_cons]
      exact ih.cons _
    | some b =>
      rw [List.filterMap_cons_some ha, List.map_cons, List.map_cons, hf a b ha]
      exact ih.cons_cons _

namespace Tree

variable {root s declarator : Tree} {d : Declaration}

theorem Apart.exported? {t : Tree} (h : s.exported? = some t) : Apart [s] [t] := by
  unfold Tree.exported? at h
  cases hd : s.field? "declaration" with
  | some u =>
    rw [hd] at h
    exact .field? (hd.trans h)
  | none =>
    rw [hd] at h
    exact .field? (f := "value") h

theorem apart_topLevel (root : Tree) : Apart root.children root.topLevel := by
  rw [topLevel, List.filterMap_eq_flatMap_toList]
  refine (Apart.namedChildren root).trans (.flatMap_trees fun s _ => ?_)
  cases he : s.isExport with
  | false => exact .refl _
  | true =>
    cases ht : s.exported? with
    | none => exact .nil _
    | some t => exact .exported? ht

/-- A statement is the one thing it declares, or its declarators may declare functions. -/
theorem declarationsOf_cases (source : Source) (s : Tree) :
    (∃ d, s.declarationsOf source = [d] ∧ d.node = s ∧ d.target = s) ∨
      s.declarationsOf source = s.declarators.filterMap (boundFunction? source) ∨
      s.declarationsOf source = [] := by
  unfold declarationsOf
  split
  · exact .inl ⟨_, rfl, rfl, rfl⟩
  · exact .inl ⟨_, rfl, rfl, rfl⟩
  · exact .inl ⟨_, rfl, rfl, rfl⟩
  · exact .inl ⟨_, rfl, rfl, rfl⟩
  · split
    · exact .inr (.inl rfl)
    · exact .inr (.inr rfl)

theorem apart_of_boundFunction? (h : declarator.boundFunction? source = some d) :
    d.node = declarator ∧ Apart [declarator] [d.target] := by
  unfold boundFunction? at h
  split at h
  · rename_i name value _ hv
    obtain ⟨v, hf, hu⟩ := Option.bind_eq_some_iff.1 hv
    have hvalue : Apart [declarator] [value] := (Apart.field? hf).trans (.unparenthesized hu)
    split at h
    · cases h
      exact ⟨rfl, hvalue⟩
    · cases h
      exact ⟨rfl, hvalue⟩
    · cases h
  · cases h

theorem apart_target (h : d ∈ s.declarationsOf source) : Apart [d.node] [d.target] := by
  rcases declarationsOf_cases source s with ⟨e, he, hn, ht⟩ | he | he
  · rw [he, List.mem_singleton] at h
    subst h
    rw [hn, ht]
    exact .refl _
  · rw [he] at h
    obtain ⟨declarator, -, hb⟩ := List.mem_filterMap.1 h
    obtain ⟨hn, ht⟩ := apart_of_boundFunction? hb
    rwa [hn]
  · rw [he] at h
    cases h

theorem apart_nodesOf (source : Source) (s : Tree) :
    Apart [s] ((s.declarationsOf source).map (·.node)) := by
  rcases declarationsOf_cases source s with ⟨d, hd, hn, -⟩ | hd | hd
  · rw [hd, List.map_singleton, hn]
    exact .refl _
  · have hs : ((s.declarators.filterMap (boundFunction? source)).map (·.node)).Sublist
        (s.declarators.map id) :=
      map_filterMap_sublist fun t d hb => (apart_of_boundFunction? hb).1
    rw [List.map_id] at hs
    have hc : s.declarators.Sublist s.children := List.filter_sublist.trans List.filter_sublist
    rw [hd]
    exact (Apart.children s).trans (.of_sublist (hs.trans hc))
  · rw [hd]
    exact .nil _

theorem apart_nodes (source : Source) (root : Tree) :
    Apart root.children ((root.declarations source).map (·.node)) := by
  rw [declarations, List.map_flatMap]
  exact (apart_topLevel root).trans (.flatMap_trees fun s _ => apart_nodesOf source s)

/-- Parts of each declaration are parts of the file. -/
theorem apart_flatMap_declarations (root : Tree) {f : Declaration → List Tree}
    (h : ∀ s d, d ∈ declarationsOf source s → Apart [d.node] (f d)) :
    Apart root.children ((root.declarations source).flatMap f) := by
  refine (apart_nodes source root).trans (.flatMap fun d hd => ?_)
  obtain ⟨s, -, hs⟩ := List.mem_flatMap.1 hd
  exact h s d hs

theorem apart_targets (source : Source) (root : Tree) :
    Apart root.children ((root.declarations source).map (·.target)) := by
  rw [List.map_eq_flatMap]
  exact apart_flatMap_declarations root fun _ _ => apart_target

theorem apart_members (t : Tree) : Apart t.children t.members := by
  unfold members
  cases hb : t.field? "body" with
  | none => exact .nil _
  | some body =>
    have hc : body ∈ t.children := List.mem_of_find?_eq_some hb
    exact (Apart.of_mem hc).trans ((Apart.children body).trans (.namedChildren body))

theorem apart_methods (source : Source) (t : Tree) :
    Apart t.children (t.members.filter (isPlainMethod source)) :=
  (apart_members t).trans (.of_sublist List.filter_sublist)

end Tree

theorem Declaration.eq_of_component? {d : Declaration} {c : Component}
    (h : d.component? source = some c) :
    c = d.classComponent source ∨ c = d.functionComponent source := by
  unfold component? at h
  split at h
  · split at h
    · exact .inl (Option.some.inj h).symm
    · cases h
  · split at h
    · exact .inr (Option.some.inj h).symm
    · cases h

end ComponentSurvey
