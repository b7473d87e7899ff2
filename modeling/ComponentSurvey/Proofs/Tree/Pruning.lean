import Mathlib.Data.List.Basic
import ComponentSurvey.Source
import ComponentSurvey.Proofs.Tree.Spine

/-!
Leaving leaves out of a tree. Any set of leaves with certain labels can be left out; when all of
them are, and the leaves that this makes, a normal form is reached that does not depend on the
order. What reads the same in a tree and in its normal form is therefore blind to such leaves.
-/

set_option autoImplicit false

namespace ComponentSurvey

namespace Tree

mutual
/-- The second tree is the first one without some of its leaves; each left out has such a label. -/
inductive Thinned (g : Label → Bool) : Tree → Tree → Prop where
  | node {l : Label} {ts us : List Tree} :
      ThinnedList g ts us → Thinned g (.node l ts) (.node l us)
inductive ThinnedList (g : Label → Bool) : List Tree → List Tree → Prop where
  | nil : ThinnedList g [] []
  | keep {t u : Tree} {ts us : List Tree} :
      Thinned g t u → ThinnedList g ts us → ThinnedList g (t :: ts) (u :: us)
  | drop {l : Label} {ts us : List Tree} :
      g l → ThinnedList g ts us → ThinnedList g (.node l [] :: ts) us
end

def isLoose (g : Label → Bool) (t : Tree) : Bool := g t.label && t.children.isEmpty

mutual
def prune (g : Label → Bool) : Tree → Tree
  | .node l ts => .node l (pruneList g ts)
def pruneList (g : Label → Bool) : List Tree → List Tree
  | [] => []
  | t :: ts =>
    if (t.prune g).isLoose g then pruneList g ts else t.prune g :: pruneList g ts
end

/-- Whether something of a tree is left when such leaves are taken away. -/
def isKept (g : Label → Bool) (t : Tree) : Bool := !(t.prune g).isLoose g

section

variable {g : Label → Bool}

mutual
theorem Thinned.prune_eq {t u : Tree} (h : Thinned g t u) : t.prune g = u.prune g := by
  match t, u, h with
  | .node l ts, .node _ us, .node hl => rw [prune, prune, hl.prune_eq]
theorem ThinnedList.prune_eq {ts us : List Tree} (h : ThinnedList g ts us) :
    pruneList g ts = pruneList g us := by
  match ts, us, h with
  | [], [], .nil => rfl
  | t :: ts, u :: us, .keep ht hts => rw [pruneList, pruneList, ht.prune_eq, hts.prune_eq]
  | .node l [] :: ts, us, .drop hl hts =>
    rw [pruneList, hts.prune_eq, if_pos]
    simpa [isLoose, prune, pruneList, label, children] using hl
end

mutual
theorem Thinned.all_preorder {t u : Tree} (h : Thinned g t u) (p : Label → Bool)
    (ht : t.preorder.all (p ·.label)) : u.preorder.all (p ·.label) := by
  match t, u, h with
  | .node l ts, .node _ us, .node hl =>
    rw [preorder_node, List.all_cons, Bool.and_eq_true] at ht ⊢
    exact ⟨ht.1, hl.all_preorderList p ht.2⟩
theorem ThinnedList.all_preorderList {ts us : List Tree} (h : ThinnedList g ts us)
    (p : Label → Bool) (ht : (preorderList ts).all (p ·.label)) :
    (preorderList us).all (p ·.label) := by
  match ts, us, h with
  | [], [], .nil => exact ht
  | t :: ts, u :: us, .keep hu hus =>
    rw [preorderList_cons, List.all_append, Bool.and_eq_true] at ht ⊢
    exact ⟨hu.all_preorder p ht.1, hus.all_preorderList p ht.2⟩
  | .node l [] :: ts, us, .drop hl hts =>
    rw [preorderList_cons, List.all_append, Bool.and_eq_true] at ht
    exact hts.all_preorderList p ht.2
end

@[simp] theorem label_prune (t : Tree) : (t.prune g).label = t.label := by
  obtain ⟨l, ts⟩ := t
  rfl

@[simp] theorem type_prune (t : Tree) : (t.prune g).type = t.type := by simp [type]

@[simp] theorem named_prune (t : Tree) : (t.prune g).named = t.named := by simp [named]

@[simp] theorem kind_prune (t : Tree) : (t.prune g).kind = t.kind := by simp [kind]

@[simp] theorem isComment_prune (t : Tree) : (t.prune g).isComment = t.isComment := by
  simp [isComment]

@[simp] theorem marked_prune (f : String) (t : Tree) : marked f (t.prune g) = marked f t := by
  simp [marked]

@[simp] theorem text_prune (source : Source) (t : Tree) :
    (t.prune g).text source = t.text source := by
  simp [text, span]

@[simp] theorem location_prune (source : Source) (t : Tree) :
    (t.prune g).location source = t.location source := by
  simp [location, span]

@[simp] theorem textOf_map_prune (source : Source) (t : Option Tree) :
    textOf source (t.map (prune g)) = textOf source t := by
  cases t <;> simp [textOf]

def kept (g : Label → Bool) (ts : List Tree) : List Tree := (ts.filter (isKept g)).map (prune g)

theorem kept_cons_of_isKept {t : Tree} (h : t.isKept g) (ts : List Tree) :
    kept g (t :: ts) = t.prune g :: kept g ts := by
  simp [kept, h]

theorem kept_cons_of_not_isKept {t : Tree} (h : t.isKept g = false) (ts : List Tree) :
    kept g (t :: ts) = kept g ts := by
  simp [kept, h]

theorem kept_append (ts us : List Tree) : kept g (ts ++ us) = kept g ts ++ kept g us := by
  simp [kept]

theorem pruneList_cons (t : Tree) (ts : List Tree) :
    pruneList g (t :: ts) = if t.isKept g then t.prune g :: pruneList g ts else pruneList g ts := by
  cases h : (t.prune g).isLoose g <;> simp [pruneList, isKept, h]

theorem pruneList_eq (ts : List Tree) : pruneList g ts = kept g ts := by
  induction ts with
  | nil => rfl
  | cons t ts ih =>
    cases h : t.isKept g with
    | true => rw [pruneList_cons, if_pos h, kept_cons_of_isKept h, ih]
    | false => rw [pruneList_cons, if_neg (by simp [h]), kept_cons_of_not_isKept h, ih]

theorem children_prune (t : Tree) : (t.prune g).children = kept g t.children := by
  obtain ⟨l, ts⟩ := t
  exact pruneList_eq ts

theorem isKept_of_not {t : Tree} (h : ¬ g t.label) : t.isKept g := by
  simp [isKept, isLoose, h]

theorem label_of_isKept_eq_false {t : Tree} (h : t.isKept g = false) : g t.label := by
  by_cases hl : g t.label
  · exact hl
  · simp [isKept_of_not hl] at h

section

variable {p : Tree → Bool} {ts : List Tree} (hp : ∀ t, p (t.prune g) = p t)
  (hg : ∀ t ∈ ts, g t.label → p t = false)

include hp hg

theorem filter_kept : (kept g ts).filter p = (ts.filter p).map (prune g) := by
  rw [kept, List.filter_map, List.filter_filter]
  refine congrArg _ (List.filter_congr fun t ht => ?_)
  cases hk : t.isKept g with
  | true => simp [hp]
  | false => simp [hg t ht (label_of_isKept_eq_false hk)]

theorem find?_kept : (kept g ts).find? p = (ts.find? p).map (prune g) := by
  rw [← List.head?_filter, filter_kept hp hg, List.head?_map, List.head?_filter]

theorem any_kept : (kept g ts).any p = ts.any p := by
  rw [← List.isSome_find?, find?_kept hp hg, Option.isSome_map, List.isSome_find?]

end

/-- A commuting filter, when it lets some of the leaves through that are left out. -/
theorem filter_kept_comm {p : Tree → Bool} (hp : ∀ t, p (t.prune g) = p t) (ts : List Tree) :
    (kept g ts).filter p = kept g (ts.filter p) := by
  simp [kept, List.filter_map, List.filter_filter, Function.comp_def, hp, Bool.and_comm]

theorem namedChildren_prune (t : Tree) :
    (t.prune g).namedChildren = kept g t.namedChildren := by
  rw [namedChildren, children_prune, filter_kept_comm (by simp), namedChildren]

theorem flatMap_kept {α : Type} {f f' : Tree → List α} {ts : List Tree}
    (hf : ∀ t, f (t.prune g) = f' t) (hg : ∀ t ∈ ts, g t.label → f' t = []) :
    (kept g ts).flatMap f = ts.flatMap f' := by
  induction ts with
  | nil => rfl
  | cons t ts ih =>
    have hts := ih fun u hu => hg u (List.mem_cons_of_mem t hu)
    cases hk : t.isKept g with
    | true => rw [kept_cons_of_isKept hk, List.flatMap_cons, List.flatMap_cons, hf, hts]
    | false =>
      rw [kept_cons_of_not_isKept hk, List.flatMap_cons,
        hg t List.mem_cons_self (label_of_isKept_eq_false hk), hts, List.nil_append]

theorem filterMap_kept {α : Type} {f : Tree → Option α} {ts : List Tree}
    (hf : ∀ t, f (t.prune g) = f t) (hg : ∀ t ∈ ts, g t.label → f t = none) :
    (kept g ts).filterMap f = ts.filterMap f := by
  rw [kept, List.filterMap_map, List.filterMap_filter]
  refine List.filterMap_congr fun t ht => ?_
  cases hk : t.isKept g with
  | true => simp [hf]
  | false => simp [hg t ht (label_of_isKept_eq_false hk)]

theorem findSome?_kept {α : Type} {f : Tree → Option α} {ts : List Tree}
    (hf : ∀ t, f (t.prune g) = f t) (hg : ∀ t ∈ ts, g t.label → f t = none) :
    (kept g ts).findSome? f = ts.findSome? f := by
  rw [← List.head?_filterMap, filterMap_kept hf hg, List.head?_filterMap]

mutual
/-- Below a tree of which nothing is left, nothing is left either. -/
theorem kept_preorder_eq_nil {t : Tree} (h : t.isKept g = false) : kept g t.preorder = [] := by
  match t with
  | .node l ts =>
    have hl : pruneList g ts = [] := by
      simp only [isKept, isLoose, prune, children, Bool.not_eq_false', Bool.and_eq_true] at h
      exact List.isEmpty_iff.1 h.2
    rw [preorder_node, kept_cons_of_not_isKept h, kept_preorderList_eq_nil hl]
theorem kept_preorderList_eq_nil {ts : List Tree} (h : pruneList g ts = []) :
    kept g (preorderList ts) = [] := by
  match ts with
  | [] => rfl
  | t :: ts =>
    rw [pruneList_cons] at h
    cases ht : t.isKept g with
    | true => simp [ht] at h
    | false =>
      have hts : pruneList g ts = [] := by simpa [ht] using h
      rw [preorderList_cons, kept_append, kept_preorder_eq_nil ht, kept_preorderList_eq_nil hts,
        List.nil_append]
end

mutual
theorem preorder_prune {t : Tree} (h : t.isKept g) : (t.prune g).preorder = kept g t.preorder := by
  match t with
  | .node l ts =>
    rw [preorder_node, kept_cons_of_isKept h, prune, preorder_node, preorderList_prune ts]
theorem preorderList_prune (ts : List Tree) :
    preorderList (pruneList g ts) = kept g (preorderList ts) := by
  match ts with
  | [] => rfl
  | t :: ts =>
    rw [pruneList_cons, preorderList_cons, kept_append, ← preorderList_prune ts]
    cases ht : t.isKept g with
    | true => rw [if_pos rfl, preorderList_cons, preorder_prune ht]
    | false => rw [if_neg (by simp), kept_preorder_eq_nil ht, List.nil_append]
end

theorem descendants_prune (t : Tree) : (t.prune g).descendants = kept g t.descendants := by
  obtain ⟨l, ts⟩ := t
  exact preorderList_prune ts

end

end Tree

namespace Spine

def prune (g : Label → Bool) (s : Spine) : Spine := ⟨s.tree.prune g, s.above.map (Tree.prune g)⟩

def kept (g : Label → Bool) (ss : List Spine) : List Spine :=
  (ss.filter (·.tree.isKept g)).map (prune g)

variable {g : Label → Bool}

theorem kept_append (ss rs : List Spine) : kept g (ss ++ rs) = kept g ss ++ kept g rs := by
  simp [kept]

theorem kept_eq_nil {ss : List Spine} (h : Tree.kept g (ss.map tree) = []) : kept g ss = [] := by
  simpa [kept, Tree.kept, List.filter_map] using h

theorem filterMap_kept {α : Type} {f : Spine → Option α} {ss : List Spine}
    (hf : ∀ s, f (s.prune g) = f s) (hg : ∀ s ∈ ss, g s.tree.label → f s = none) :
    (kept g ss).filterMap f = ss.filterMap f := by
  rw [kept, List.filterMap_map, List.filterMap_filter]
  refine List.filterMap_congr fun s hs => ?_
  cases hk : s.tree.isKept g with
  | true => simp [hf]
  | false => simp [hg s hs (Tree.label_of_isKept_eq_false hk)]

end Spine

namespace Tree

variable {g : Label → Bool}

mutual
theorem map_tree_spines (above : List Tree) (t : Tree) :
    (t.spines above).map Spine.tree = t.preorder := by
  match t with
  | .node l ts => rw [spines, List.map_cons, map_tree_spinesList _ ts, preorder_node]
theorem map_tree_spinesList (above ts : List Tree) :
    (spinesList above ts).map Spine.tree = preorderList ts := by
  match ts with
  | [] => rfl
  | t :: ts =>
    rw [spinesList, List.map_append, map_tree_spines above t, map_tree_spinesList above ts,
      preorderList_cons]
end

mutual
theorem spines_prune (above : List Tree) {t : Tree} (h : t.isKept g) :
    (t.prune g).spines (above.map (prune g)) = Spine.kept g (t.spines above) := by
  match t with
  | .node l ts =>
    have hts := spinesList_prune (.node l ts :: above) ts
    rw [List.map_cons, prune] at hts
    rw [prune, spines, hts, spines]
    simp [Spine.kept, h, Spine.prune, prune]
theorem spinesList_prune (above ts : List Tree) :
    spinesList (above.map (prune g)) (pruneList g ts) = Spine.kept g (spinesList above ts) := by
  match ts with
  | [] => rfl
  | t :: ts =>
    rw [pruneList_cons, spinesList, Spine.kept_append, ← spinesList_prune above ts]
    cases ht : t.isKept g with
    | true => rw [if_pos rfl, spinesList, spines_prune above ht]
    | false =>
      have hn := kept_preorder_eq_nil ht
      rw [← map_tree_spines above t] at hn
      rw [if_neg (by simp), Spine.kept_eq_nil hn, List.nil_append]
end

theorem spinesBelow_prune (t : Tree) :
    (t.prune g).spinesBelow = Spine.kept g t.spinesBelow := by
  obtain ⟨l, ts⟩ := t
  exact spinesList_prune [.node l ts] ts

end Tree

end ComponentSurvey
