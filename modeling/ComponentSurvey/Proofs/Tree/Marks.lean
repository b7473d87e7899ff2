import Mathlib.Data.List.Basic
import ComponentSurvey.Proofs.Tree.Spine

/-!
Trees found by other fields. The marks of a tree tell its parent where to find it; nothing that is
said of the tree itself, or of what is below it, depends on them.
-/

set_option autoImplicit false

namespace ComponentSurvey

def Label.unmarked (l : Label) : Label := { l with fields := [] }

namespace Tree

def marking (fields : List String) : Tree → Tree
  | .node l ts => .node { l with fields } ts

def unmarked (t : Tree) : Tree := t.marking []

@[simp] theorem unmarked_marking (fields : List String) (t : Tree) :
    (t.marking fields).unmarked = t.unmarked := by
  cases t
  rfl

@[simp] theorem unmarked_unmarked (t : Tree) : t.unmarked.unmarked = t.unmarked :=
  unmarked_marking [] t

@[simp] theorem kind_unmarked (t : Tree) : t.unmarked.kind = t.kind := by
  cases t
  rfl

@[simp] theorem type_unmarked (t : Tree) : t.unmarked.type = t.type := by
  cases t
  rfl

@[simp] theorem children_unmarked (t : Tree) : t.unmarked.children = t.children := by
  cases t
  rfl

end Tree

def Spine.unmarked (s : Spine) : Spine := ⟨s.tree.unmarked, s.above.map Tree.unmarked⟩

namespace Tree

mutual
theorem map_unmarked_spines {above above' : List Tree}
    (h : above.map unmarked = above'.map unmarked) (t : Tree) :
    (t.spines above).map Spine.unmarked = (t.spines above').map Spine.unmarked := by
  match t with
  | .node l ts =>
    have ha : (node l ts :: above).map unmarked = (node l ts :: above').map unmarked := by
      rw [List.map_cons, h, List.map_cons]
    have hts := map_unmarked_spinesList ha ts
    rw [spines, List.map_cons, hts, Spine.unmarked, h, spines]
    rfl
theorem map_unmarked_spinesList {above above' : List Tree}
    (h : above.map unmarked = above'.map unmarked) (ts : List Tree) :
    (spinesList above ts).map Spine.unmarked = (spinesList above' ts).map Spine.unmarked := by
  match ts with
  | [] => rfl
  | t :: ts =>
    rw [spinesList, List.map_append, map_unmarked_spines h t, map_unmarked_spinesList h ts,
      ← List.map_append, ← spinesList]
end

theorem map_unmarked_spines_marking (fields : List String) (t : Tree) (above : List Tree) :
    ((t.marking fields).spines above).map Spine.unmarked =
      (t.spines above).map Spine.unmarked := by
  obtain ⟨l, ts⟩ := t
  have ha : ((node l ts).marking fields :: above).map unmarked =
      (node l ts :: above).map unmarked := by
    rw [List.map_cons, unmarked_marking, List.map_cons]
  have h := map_unmarked_spinesList ha ts
  simp only [marking, spines, List.map_cons, Spine.unmarked] at h ⊢
  rw [h]
  rfl

end Tree

/-- A level whose tree is found by no field; the siblings keep their marks. -/
def Step.unmarked (s : Step) : Step := { s with label := s.label.unmarked }

namespace Node

def unmarkedAbove (n : Node) : Node := ⟨n.tree, n.place.map Step.unmarked⟩

mutual
theorem map_unmarkedAbove_walk {place place' : List Step}
    (h : place.map Step.unmarked = place'.map Step.unmarked) (t : Tree) :
    (walk ⟨t, place⟩).map unmarkedAbove = (walk ⟨t, place'⟩).map unmarkedAbove := by
  match t with
  | .node l ts =>
    have hts := map_unmarkedAbove_walkForest (rfl : l.unmarked = l.unmarked) h [] ts
    rw [walk_eq_cons, walk_eq_cons, List.map_cons, List.map_cons, unmarkedAbove, h]
    exact congrArg _ hts
theorem map_unmarkedAbove_walkForest {l l' : Label} (hl : l.unmarked = l'.unmarked)
    {place place' : List Step} (h : place.map Step.unmarked = place'.map Step.unmarked)
    (left ts : List Tree) :
    (walkForest l place left ts).map unmarkedAbove =
      (walkForest l' place' left ts).map unmarkedAbove := by
  match ts with
  | [] => rfl
  | t :: ts =>
    have hp : (⟨l, left, ts⟩ :: place).map Step.unmarked =
        (⟨l', left, ts⟩ :: place').map Step.unmarked := by
      rw [List.map_cons, List.map_cons, h, Step.unmarked, Step.unmarked, hl]
    have ht := map_unmarkedAbove_walk hp t
    rw [walkForest_cons, walkForest_cons, List.map_append, List.map_append, ht,
      map_unmarkedAbove_walkForest hl h (t :: left) ts]
end

/-- Below a tree, its own marks make no difference but to the levels. -/
theorem map_unmarkedAbove_descendants (t : Tree) :
    (ofTree t.unmarked).descendants.map unmarkedAbove =
      (ofTree t).descendants.map unmarkedAbove := by
  obtain ⟨l, ts⟩ := t
  have hl : l.unmarked.unmarked = l.unmarked := rfl
  exact map_unmarkedAbove_walkForest hl rfl [] ts

end Node

end ComponentSurvey
