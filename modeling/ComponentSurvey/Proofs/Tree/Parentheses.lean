import ComponentSurvey.Proofs.Survey.Sites
import ComponentSurvey.Proofs.Tree.Traversal

/-!
What stands inside parentheses. They are opened one pair after the other, each time going on with the
first thing in them that is no comment, until something is reached that has no parentheses or a pair
that holds nothing. Where this ends does not depend on how many pairs there are around it.
-/

set_option autoImplicit false

namespace ComponentSurvey

/-- A tree inside of several steps, the innermost first. -/
def Tree.enclosed (t : Tree) (steps : List Step) : Tree := steps.foldl (fun t s => s.fill t) t

/-- A pair of parentheses with only tokens and comments in front of what is in it. -/
structure Step.IsLayer (s : Step) : Prop where
  type_eq : s.label.type = "parenthesized_expression"
  named : s.label.named
  isComment_of_mem_left : ∀ t ∈ s.left, t.named → t.isComment

namespace Node

def isParenthesized (n : Node) : Bool := n.tree.type == "parenthesized_expression"

def contents (n : Node) : List Node := n.namedChildren.filter (!·.tree.isComment)

def opened : Option Node → Option Node
  | none => none
  | some n => if n.isParenthesized then n.contents.head? else some n

def Inward (n c : Node) : Prop := n.isParenthesized ∧ n.contents.head? = some c

theorem firstUnparenthesizedAt_eq (l : Label) (place : List Step) (left ts : List Tree) :
    firstUnparenthesizedAt l place left ts =
      (((siblings l place left ts).filter (·.tree.named)).filter (!·.tree.isComment)).head?.bind
        unparenthesized := by
  induction ts generalizing left with
  | nil => rfl
  | cons t ts ih =>
    by_cases hn : t.named <;> by_cases hc : t.isComment <;>
      simp [firstUnparenthesizedAt, siblings, hn, hc, ih, unparenthesized]

theorem unparenthesized_eq (n : Node) :
    n.unparenthesized =
      if n.isParenthesized then n.contents.head?.bind unparenthesized else some n := by
  obtain ⟨⟨l, ts⟩, place⟩ := n
  rw [unparenthesized, unparenthesizedAt, firstUnparenthesizedAt_eq]
  rfl

theorem unparenthesized_of_not {n : Node} (h : ¬ n.isParenthesized) :
    n.unparenthesized = some n := by
  rw [unparenthesized_eq, if_neg h]

theorem Inward.unparenthesized_eq {n c : Node} (h : n.Inward c) :
    n.unparenthesized = c.unparenthesized := by
  rw [Node.unparenthesized_eq, if_pos h.1, h.2, Option.bind_some]

theorem Inward.mem_children {n c : Node} (h : n.Inward c) : c ∈ n.children :=
  mem_children_of_mem_namedChildren (List.mem_of_mem_filter (List.mem_of_head? h.2))

theorem size_lt_of_mem_children {n c : Node} (h : c ∈ n.children) : c.tree.size < n.tree.size := by
  have hn := pendingSize_children n
  obtain ⟨before, after, hc⟩ := List.append_of_mem h
  rw [hc, pendingSize_append] at hn
  simp only [pendingSize, List.map_cons, Tree.sizeList] at hn
  omega

inductive OpensTo : Node → Option Node → Prop where
  | plain {n : Node} (h : ¬ n.isParenthesized) : OpensTo n (some n)
  | empty {n : Node} (h : n.isParenthesized) (hc : n.contents = []) : OpensTo n none
  | inward {n c : Node} {r : Option Node} (h : n.Inward c) (hr : OpensTo c r) : OpensTo n r

theorem opensTo_unparenthesized (n : Node) : OpensTo n n.unparenthesized := by
  by_cases h : n.isParenthesized
  · cases hc : n.contents with
    | nil =>
      rw [unparenthesized_eq, if_pos h, hc]
      exact .empty h hc
    | cons c rest =>
      have hi : n.Inward c := ⟨h, by rw [hc, List.head?_cons]⟩
      have : c.tree.size < n.tree.size := size_lt_of_mem_children hi.mem_children
      rw [hi.unparenthesized_eq]
      exact .inward hi (opensTo_unparenthesized c)
  · rw [unparenthesized_of_not h]
    exact .plain h
termination_by n.tree.size

namespace OpensTo

variable {n m : Node} {r : Option Node}

theorem not_isParenthesized (h : OpensTo n (some m)) : ¬ m.isParenthesized := by
  generalize hr : some m = r at h
  induction h with
  | plain h =>
    obtain rfl := Option.some.inj hr
    exact h
  | empty => cases hr
  | inward _ _ ih => exact ih hr

/-- As many turns of the loop as there are pairs, each of which finds parentheses. -/
theorem exists_turns (h : OpensTo n r) : ∃ turns ≤ n.tree.size, opened^[turns] (some n) = r ∧
    ∀ j < turns, ∃ p, opened^[j] (some n) = some p ∧ p.isParenthesized := by
  induction h with
  | plain => exact ⟨0, Nat.zero_le _, rfl, fun j hj => absurd hj (Nat.not_lt_zero j)⟩
  | @empty n h hc =>
    obtain ⟨⟨l, ts⟩, place⟩ := n
    refine ⟨1, Nat.le_add_right 1 _, by simp [opened, h, hc], fun j hj => ?_⟩
    obtain rfl := Nat.lt_one_iff.1 hj
    exact ⟨_, rfl, h⟩
  | @inward n c r h _ ih =>
    obtain ⟨turns, hle, hr, hp⟩ := ih
    have hsize := size_lt_of_mem_children h.mem_children
    have hopened : opened (some n) = some c := by rw [opened, if_pos h.1, h.2]
    refine ⟨turns + 1, by omega, by rw [Function.iterate_succ_apply, hopened, hr], fun j hj => ?_⟩
    cases j with
    | zero => exact ⟨n, rfl, h.1⟩
    | succ j =>
      rw [Function.iterate_succ_apply, hopened]
      exact hp j (Nat.lt_of_succ_lt_succ hj)

theorem exists_chain (h : OpensTo n r) : ∃ last, Relation.ReflTransGen Inward n last ∧
    (r = some last ∨ r = none ∧ last.isParenthesized ∧ last.contents = []) := by
  induction h with
  | @plain n => exact ⟨n, .refl, .inl rfl⟩
  | @empty n h hc => exact ⟨n, .refl, .inr ⟨rfl, h, hc⟩⟩
  | inward h _ ih =>
    obtain ⟨last, hl, hr⟩ := ih
    exact ⟨last, .head h hl, hr⟩

end OpensTo

variable {n m : Node}

theorem unparenthesized_chain (h : Relation.ReflTransGen Inward n m) :
    n.unparenthesized = m.unparenthesized := by
  induction h with
  | refl => rfl
  | tail _ h ih => rw [ih, h.unparenthesized_eq]

theorem unparenthesized_eq_none_iff : n.unparenthesized = none ↔
    ∃ last, Relation.ReflTransGen Inward n last ∧ last.isParenthesized ∧ last.contents = [] := by
  constructor
  · intro h
    obtain ⟨last, hl, hr⟩ := (opensTo_unparenthesized n).exists_chain
    rw [h] at hr
    exact ⟨last, hl, (hr.resolve_left nofun).2⟩
  · rintro ⟨last, hl, hp, hc⟩
    rw [unparenthesized_chain hl, unparenthesized_eq, if_pos hp, hc]
    rfl

theorem not_isParenthesized_of_unparenthesized (h : n.unparenthesized = some m) :
    ¬ m.isParenthesized := (h ▸ opensTo_unparenthesized n).not_isParenthesized

theorem unparenthesized_idem (n : Node) :
    n.unparenthesized.bind unparenthesized = n.unparenthesized := by
  cases h : n.unparenthesized with
  | none => rfl
  | some m => exact unparenthesized_of_not (not_isParenthesized_of_unparenthesized h)

/-- The way inwards is a way downwards, and it ends elsewhere than it starts. -/
theorem mem_descendants_of_unparenthesized (hp : n.isParenthesized)
    (h : n.unparenthesized = some m) : m ∈ n.descendants := by
  obtain ⟨last, hl, hr⟩ := (opensTo_unparenthesized n).exists_chain
  rw [h] at hr
  obtain rfl := Option.some.inj (hr.resolve_right nofun)
  have hw := mem_walk_iff.2 (Relation.ReflTransGen.mono (fun _ _ => Inward.mem_children) _ _ hl)
  rw [walk_eq_cons] at hw
  refine (List.mem_cons.1 hw).resolve_left ?_
  rintro rfl
  exact not_isParenthesized_of_unparenthesized h hp

theorem firstUnparenthesizedAt_skip {skipped : List Tree} (h : ∀ a ∈ skipped, a.named → a.isComment)
    {t : Tree} (hn : t.named) (hc : t.isComment = false) (l : Label) (place : List Step)
    (left right : List Tree) :
    firstUnparenthesizedAt l place left (skipped ++ t :: right) =
      unparenthesizedAt (⟨l, skipped.reverse ++ left, right⟩ :: place) t := by
  induction skipped generalizing left with
  | nil => simp [firstUnparenthesizedAt, hn, hc]
  | cons a skipped ih =>
    obtain ⟨ha, h⟩ := List.forall_mem_cons.1 h
    have hskip : (a.named && !a.isComment) = false := by
      cases hnamed : a.named <;> simp [hnamed, ha]
    rw [List.cons_append, firstUnparenthesizedAt, hskip, if_neg Bool.false_ne_true, ih h,
      List.reverse_cons, List.append_assoc, List.singleton_append]

theorem unparenthesized_fill {s : Step} (hs : s.IsLayer) {t : Tree} (hn : t.named)
    (hc : t.isComment = false) (place : List Step) :
    unparenthesized ⟨s.fill t, place⟩ = unparenthesized ⟨t, s :: place⟩ := by
  have hleft : ∀ a ∈ s.left.reverse, a.named → a.isComment := fun a ha =>
    hs.isComment_of_mem_left a (List.mem_reverse.1 ha)
  have hp : s.label.type == "parenthesized_expression" := beq_iff_eq.2 hs.type_eq
  simp only [unparenthesized, Step.fill, unparenthesizedAt, hp, if_true,
    firstUnparenthesizedAt_skip hleft hn hc, List.reverse_reverse, List.append_nil]

theorem unparenthesized_enclosed {layers : List Step} (hl : ∀ s ∈ layers, s.IsLayer) {t : Tree}
    (hn : t.named) (hc : t.isComment = false) (place : List Step) :
    unparenthesized ⟨t.enclosed layers, place⟩ = unparenthesized ⟨t, layers ++ place⟩ := by
  induction layers generalizing t with
  | nil => rfl
  | cons s layers ih =>
    obtain ⟨hs, hl⟩ := List.forall_mem_cons.1 hl
    have hcomment : (s.fill t).isComment = false := by
      simp [Step.fill, Tree.isComment, Tree.type, Tree.label, hs.type_eq]
    calc unparenthesized ⟨(s.fill t).enclosed layers, place⟩
        = unparenthesized ⟨s.fill t, layers ++ place⟩ := ih hl hs.named hcomment
      _ = unparenthesized ⟨t, s :: (layers ++ place)⟩ :=
          unparenthesized_fill hs hn hc (layers ++ place)

/-- Opening parentheses ends after at most as many turns as there are nodes, with what has none, and
opening them again changes nothing. What has none is left as it is; what has some leads to a node below
it, or to nothing just when the way inwards ends in a pair that holds nothing but comments and tokens.
However many layers are put around something that is neither a comment nor a token, they lead to
what it leads to. -/
theorem parentheses_opened (n : Option Node) :
    let inside := n.bind unparenthesized
    (∃ turns, opened^[turns] n = inside ∧ (∀ m, n = some m → turns ≤ m.tree.size) ∧
      ∀ j < turns, ∃ p, opened^[j] n = some p ∧ p.isParenthesized) ∧
    (∀ m, inside = some m → m.tree.type ≠ "parenthesized_expression") ∧
    inside.bind unparenthesized = inside ∧
    inside.map tree = (n.map tree).bind Tree.unparenthesized ∧
    (∀ m, n = some m → ¬ m.isParenthesized → inside = some m) ∧
    (∀ m r, n = some m → m.isParenthesized → inside = some r → r ∈ m.descendants) ∧
    (inside = none ↔ ∀ m, n = some m → ∃ last, Relation.ReflTransGen Inward m last ∧
      last.isParenthesized ∧ last.contents = []) ∧
    ∀ t place layers, t.named → t.isComment = false → (∀ s ∈ layers, s.IsLayer) →
      unparenthesized ⟨t.enclosed layers, place⟩ = unparenthesized ⟨t, layers ++ place⟩ ∧
      (t.enclosed layers).unparenthesized = t.unparenthesized := by
  have hlayers (t : Tree) (place layers : List Step) (hn : t.named) (hc : t.isComment = false)
      (hl : ∀ s ∈ layers, s.IsLayer) :
      unparenthesized ⟨t.enclosed layers, place⟩ = unparenthesized ⟨t, layers ++ place⟩ ∧
        (t.enclosed layers).unparenthesized = t.unparenthesized := by
    have h := unparenthesized_enclosed hl hn hc place
    refine ⟨h, ?_⟩
    rw [← map_tree_unparenthesized ⟨t.enclosed layers, place⟩, h, map_tree_unparenthesized]
  cases n with
  | none =>
    exact ⟨⟨0, rfl, nofun, fun j hj => absurd hj (Nat.not_lt_zero j)⟩, nofun, rfl, rfl, nofun,
      nofun, ⟨fun _ => nofun, fun _ => rfl⟩, hlayers⟩
  | some n =>
    obtain ⟨turns, hle, hr, hp⟩ := (opensTo_unparenthesized n).exists_turns
    refine ⟨⟨turns, hr, ?_, hp⟩, fun m hm => ?_, unparenthesized_idem n, map_tree_unparenthesized n,
      ?_, ?_, ?_, hlayers⟩
    · rintro m ⟨⟩
      exact hle
    · simpa [isParenthesized] using not_isParenthesized_of_unparenthesized hm
    · rintro m ⟨⟩ hm
      exact unparenthesized_of_not hm
    · rintro m r ⟨⟩ hm h
      exact mem_descendants_of_unparenthesized hm h
    · rw [Option.bind_some, unparenthesized_eq_none_iff]
      simp

/-- A name in two layers, each with a comment on both sides of what is in it. -/
theorem parentheses_opened_around_name :
    let leaf (type : String) (named : Bool) := Tree.node ⟨type, named, false, ⟨0, 0⟩, []⟩ []
    let name := leaf "identifier" true
    let note := leaf "comment" true
    let layer : Step := ⟨⟨"parenthesized_expression", true, false, ⟨0, 0⟩, []⟩,
      [note, leaf "(" false], [note, leaf ")" false]⟩
    let n : Node := ⟨name.enclosed [layer, layer], []⟩
    let inner : Node := ⟨name, [layer, layer]⟩
    n.isParenthesized ∧ layer.IsLayer ∧ n.unparenthesized = some inner ∧
      inner.tree.type ≠ "parenthesized_expression" ∧ inner ∈ n.descendants := by
  intro leaf name note layer n inner
  have hs : layer.IsLayer := ⟨rfl, rfl, by decide⟩
  obtain ⟨-, hplain, -, -, -, hbelow, -, hlayers⟩ := parentheses_opened (some n)
  have hn : n.unparenthesized = some inner :=
    (hlayers name [] [layer, layer] rfl rfl (by simp [hs])).1
  exact ⟨rfl, hs, hn, hplain inner hn, hbelow n inner rfl rfl hn⟩

end Node

end ComponentSurvey
