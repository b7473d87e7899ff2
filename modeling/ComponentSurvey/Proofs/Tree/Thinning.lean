import ComponentSurvey.Proofs.Tree.Pruning

/-!
Nodes of a tree and of the same tree without some of its leaves. The walks over both go side by side:
each node is one that is left, at a place without the same leaves, or it is a leaf that is gone.
-/

set_option autoImplicit false

namespace ComponentSurvey

variable {g : Label → Bool}

namespace Tree

variable {t u : Tree}

mutual
theorem Thinned.refl (g : Label → Bool) (t : Tree) : Thinned g t t := by
  match t with
  | .node _ ts => exact .node (ThinnedList.refl g ts)
theorem ThinnedList.refl (g : Label → Bool) (ts : List Tree) : ThinnedList g ts ts := by
  match ts with
  | [] => exact .nil
  | t :: ts => exact .keep (Thinned.refl g t) (ThinnedList.refl g ts)
end

theorem Thinned.label_eq (h : Thinned g t u) : t.label = u.label := by
  cases h
  rfl

theorem Thinned.children (h : Thinned g t u) : ThinnedList g t.children u.children := by
  obtain ⟨hts⟩ := h
  exact hts

/-- Induction along both lists; the trees that are left stay as they are. -/
@[elab_as_elim]
theorem ThinnedList.induction {motive : ∀ ts us, ThinnedList g ts us → Prop}
    (nil : motive [] [] .nil)
    (keep : ∀ {t u ts us} (ht : Thinned g t u) (hts : ThinnedList g ts us),
      motive ts us hts → motive (t :: ts) (u :: us) (.keep ht hts))
    (drop : ∀ {l ts us} (hl : g l) (hts : ThinnedList g ts us),
      motive ts us hts → motive (.node l [] :: ts) us (.drop hl hts))
    {ts us : List Tree} (h : ThinnedList g ts us) : motive ts us h := by
  cases h with
  | nil => exact nil
  | keep ht hts => exact keep ht hts (hts.induction nil keep drop)
  | drop hl hts => exact drop hl hts (hts.induction nil keep drop)
termination_by ts.length

theorem ThinnedList.append {ts us ts' us' : List Tree} (h : ThinnedList g ts us)
    (h' : ThinnedList g ts' us') : ThinnedList g (ts ++ ts') (us ++ us') := by
  induction h using ThinnedList.induction with
  | nil => exact h'
  | keep ht _ ih => exact .keep ht ih
  | drop hl _ ih => exact .drop hl ih

theorem ThinnedList.reverse {ts us : List Tree} (h : ThinnedList g ts us) :
    ThinnedList g ts.reverse us.reverse := by
  induction h using ThinnedList.induction with
  | nil => exact .nil
  | keep ht _ ih =>
    rw [List.reverse_cons, List.reverse_cons]
    exact ih.append (.keep ht .nil)
  | drop hl _ ih =>
    have h := ih.append (.drop hl .nil)
    rwa [List.append_nil, ← List.reverse_cons] at h

inductive FoundThinned (g : Label → Bool) : Option Tree → Option Tree → Prop where
  | none : FoundThinned g none none
  | some {t u : Tree} : Thinned g t u → FoundThinned g (some t) (some u)

theorem FoundThinned.isSome_eq {x y : Option Tree} (h : FoundThinned g x y) :
    x.isSome = y.isSome := by
  cases h <;> rfl

theorem FoundThinned.bind_eq {α : Type} {x y : Option Tree} (h : FoundThinned g x y)
    {f : Tree → Option α} (hf : ∀ t u, Thinned g t u → f t = f u) : x.bind f = y.bind f := by
  cases h with
  | none => rfl
  | some h => exact hf _ _ h

theorem FoundThinned.filter {x y : Option Tree} (h : FoundThinned g x y) (p : Label → Bool) :
    FoundThinned g (x.filter (p ·.label)) (y.filter (p ·.label)) := by
  cases h with
  | none => exact .none
  | some h =>
    rw [Option.filter_some, Option.filter_some, h.label_eq]
    split
    · exact .some h
    · exact .none

theorem ThinnedList.find? {p : Label → Bool} (hp : ∀ l, g l → p l = false) {ts us : List Tree}
    (h : ThinnedList g ts us) :
    FoundThinned g (ts.find? (p ·.label)) (us.find? (p ·.label)) := by
  induction h using ThinnedList.induction with
  | nil => exact .none
  | @keep t u _ _ ht _ ih =>
    rw [List.find?_cons, List.find?_cons, ht.label_eq]
    cases p u.label with
    | true => exact .some ht
    | false => exact ih
  | @drop l _ _ hl _ ih =>
    have hn : p (node l []).label = false := hp l hl
    rw [List.find?_cons, hn]
    exact ih

theorem ThinnedList.any_eq {p : Label → Bool} (hp : ∀ l, g l → p l = false) {ts us : List Tree}
    (h : ThinnedList g ts us) : ts.any (p ·.label) = us.any (p ·.label) := by
  rw [← List.isSome_find?, ← List.isSome_find?, (h.find? hp).isSome_eq]

theorem Thinned.field? (hg : ∀ l, g l → l.fields = []) (h : Thinned g t u) (f : String) :
    FoundThinned g (t.field? f) (u.field? f) :=
  h.children.find? (p := fun l => l.fields.contains f) fun l hl => by simp [hg l hl]

end Tree

structure Step.Thinned (g : Label → Bool) (s r : Step) : Prop where
  label_eq : s.label = r.label
  left : Tree.ThinnedList g s.left r.left
  right : Tree.ThinnedList g s.right r.right

theorem Step.Thinned.fill {s r : Step} (h : s.Thinned g r) {t u : Tree} (ht : Tree.Thinned g t u) :
    Tree.Thinned g (s.fill t) (r.fill u) := by
  rw [Step.fill, Step.fill, h.label_eq]
  exact .node (h.left.reverse.append (.keep ht h.right))

namespace Node

structure Thinned (g : Label → Bool) (n m : Node) : Prop where
  tree : Tree.Thinned g n.tree m.tree
  place : List.Forall₂ (Step.Thinned g) n.place m.place

variable {n m : Node}

theorem Thinned.kind_eq (h : n.Thinned g m) : n.kind = m.kind := by
  rw [kind, Tree.kind, h.tree.label_eq]
  rfl

/-- Either both nodes are roots, or their parents are left as well. -/
theorem Thinned.parent? (h : n.Thinned g m) :
    (n.parent? = none ∧ m.parent? = none) ∨
      ∃ p q, n.parent? = some p ∧ m.parent? = some q ∧ p.Thinned g q := by
  obtain ⟨t, place⟩ := n
  obtain ⟨u, place'⟩ := m
  obtain ⟨ht, hp⟩ := h
  cases hp with
  | nil => exact .inl ⟨rfl, rfl⟩
  | cons hs habove => exact .inr ⟨_, _, rfl, rfl, hs.fill ht, habove⟩

theorem Thinned.isField_eq (hg : ∀ l, g l → l.fields = []) (h : n.Thinned g m) (f : String) :
    n.isField f = m.isField f := by
  obtain ⟨t, place⟩ := n
  obtain ⟨u, place'⟩ := m
  obtain ⟨ht, hp⟩ := h
  cases hp with
  | nil => rfl
  | @cons s r _ _ hs _ =>
    have hl : s.left.any (Tree.marked f) = r.left.any (Tree.marked f) :=
      hs.left.any_eq (p := fun l => l.fields.contains f) fun l hl => by simp [hg l hl]
    have ht : t.marked f = u.marked f := by rw [Tree.marked, ht.label_eq, Tree.marked]
    simp only [isField, hl, ht]

/-- The second list has the nodes of the first one that are left; each of the others is a leaf that is
gone. -/
inductive Aligned (g : Label → Bool) : List Node → List Node → Prop where
  | nil : Aligned g [] []
  | keep {n m : Node} {ns ms : List Node} :
      n.Thinned g m → Aligned g ns ms → Aligned g (n :: ns) (m :: ms)
  | drop {n : Node} {ns ms : List Node} :
      g n.tree.label → Aligned g ns ms → Aligned g (n :: ns) ms

variable {ns ms : List Node}

theorem Aligned.append {ns' ms' : List Node} (h : Aligned g ns ms) (h' : Aligned g ns' ms') :
    Aligned g (ns ++ ns') (ms ++ ms') := by
  induction h with
  | nil => exact h'
  | keep hn _ ih => exact .keep hn ih
  | drop hn _ ih => exact .drop hn ih

mutual
theorem aligned_walk {place place' : List Step} (hp : List.Forall₂ (Step.Thinned g) place place')
    {t u : Tree} (h : Tree.Thinned g t u) : Aligned g (walk ⟨t, place⟩) (walk ⟨u, place'⟩) := by
  match t, u, h with
  | .node l ts, .node _ us, .node hts =>
    rw [walk_eq_cons, walk_eq_cons]
    exact .keep ⟨.node hts, hp⟩ (aligned_walkForest l hp .nil hts)
theorem aligned_walkForest (l : Label) {place place' : List Step}
    (hp : List.Forall₂ (Step.Thinned g) place place') {left left' ts us : List Tree}
    (hl : Tree.ThinnedList g left left') (h : Tree.ThinnedList g ts us) :
    Aligned g (walkForest l place left ts) (walkForest l place' left' us) := by
  match ts, us, h with
  | [], [], .nil => exact .nil
  | t :: ts, u :: us, .keep ht hts =>
    rw [walkForest_cons, walkForest_cons]
    have hs : Step.Thinned g ⟨l, left, ts⟩ ⟨l, left', us⟩ := ⟨rfl, hl, hts⟩
    exact (aligned_walk (.cons hs hp) ht).append (aligned_walkForest l hp (.keep ht hl) hts)
  | .node k [] :: ts, us, .drop hk hts =>
    rw [walkForest_cons]
    exact .drop hk (aligned_walkForest l hp (.drop hk hl) hts)
end

theorem aligned_descendants {t u : Tree} (h : Tree.Thinned g t u) :
    Aligned g (ofTree t).descendants (ofTree u).descendants := by
  have hd := h.children
  rw [descendants, descendants, ofTree, ofTree, h.label_eq]
  exact aligned_walkForest u.label .nil .nil hd

/-- What a search collects, when it finds nothing in the leaves that are gone. -/
theorem Aligned.filterMap {f : Node → Option Tree} (h : Aligned g ns ms)
    (hg : ∀ n, g n.tree.label → f n = none)
    (hf : ∀ n m, n.Thinned g m → Tree.FoundThinned g (f n) (f m)) :
    List.Forall₂ (Tree.Thinned g) (ns.filterMap f) (ms.filterMap f) := by
  induction h with
  | nil => exact .nil
  | @keep n m _ _ hn _ ih =>
    rw [List.filterMap_cons, List.filterMap_cons]
    have hfound := hf n m hn
    generalize f n = x, f m = y at hfound
    cases hfound with
    | none => exact ih
    | some ht => exact .cons ht ih
  | drop hn _ ih => rwa [List.filterMap_cons_none (hg _ hn)]

end Node

end ComponentSurvey
