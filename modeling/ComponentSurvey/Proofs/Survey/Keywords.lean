import ComponentSurvey.Proofs.Complexity.Paths
import ComponentSurvey.Proofs.Survey.Ignorable
import ComponentSurvey.Proofs.Tree.Thinning

/-!
Keywords and punctuation. A token can have the type of a real node, such as `class` or `function`; no
metric counts it for one, and no hook is judged by it.
-/

set_option autoImplicit false

namespace ComponentSurvey

/-- A token that no field leads to. Heritage clauses are looked for among tokens as well. -/
def Label.isKeyword (l : Label) : Bool :=
  !l.named && l.fields.isEmpty && l.type != "class_heritage"

instance : Label.Ignorable Label.isKeyword where
  fields_eq_nil l h := by
    simp only [Label.isKeyword, Bool.and_eq_true, List.isEmpty_iff] at h
    exact h.1.2
  type_of_named l h hn := by simp [Label.isKeyword, hn] at h
  type_ne_heritage l h := by
    simp only [Label.isKeyword, Bool.and_eq_true, bne_iff_ne] at h
    exact h.2

section

variable {g : Label → Bool} [Label.Ignorable g] {source : Source}

namespace Tree

variable {t u : Tree}

@[simp] theorem measured_prune (t : Tree) (lines : Option Int) :
    (t.prune g).measured source lines = t.measured source lines := by
  rw [measured_eq, measured_eq, metricsOver_prune, span, label_prune, span]

theorem Thinned.measured_eq (h : Thinned g t u) (lines : Option Int) :
    u.measured source lines = t.measured source lines := by
  rw [← measured_prune (g := g), ← h.prune_eq, measured_prune]

theorem Thinned.hooks_eq (h : Thinned g t u) : u.hooks source = t.hooks source := by
  rw [← hooks_prune (g := g), ← h.prune_eq, hooks_prune]

end Tree

end

open Label (isKeyword) in
/-- Whichever keywords are left out of a tree: the walk over it meets the nodes that are left, each of
them has the metrics it had, and the hooks of the file are the same. -/
theorem Tree.keywords_unseen (source : Source) {t u : Tree} (h : Thinned isKeyword t u) :
    Node.Aligned isKeyword (Node.ofTree t).walk (Node.ofTree u).walk ∧
      (∀ n m : Node, n.Thinned isKeyword m → ∀ lines,
        m.tree.measured source lines = n.tree.measured source lines) ∧
      u.hooks source = t.hooks source :=
  ⟨Node.aligned_walk .nil h, fun _ _ hn => hn.tree.measured_eq, h.hooks_eq⟩

/-- The tree of `function A(){if(b)useC()}`, with what stands before the name `A` and before `(b)`. -/
def Tree.guardedCall (first second : List Tree) : Tree :=
  .node ⟨"program", true, false, ⟨0, 25⟩, []⟩
    [.node ⟨"function_declaration", true, false, ⟨0, 25⟩, []⟩
      (first ++ [.node ⟨"identifier", true, false, ⟨9, 10⟩, ["name"]⟩ [],
        .node ⟨"formal_parameters", true, false, ⟨10, 12⟩, ["parameters"]⟩ [],
        .node ⟨"statement_block", true, false, ⟨12, 25⟩, ["body"]⟩
          [.node ⟨"if_statement", true, false, ⟨13, 24⟩, []⟩
            (second ++ [.node ⟨"parenthesized_expression", true, false, ⟨15, 18⟩, []⟩ [],
              .node ⟨"call_expression", true, false, ⟨18, 24⟩, []⟩
                [.node ⟨"identifier", true, false, ⟨18, 22⟩, ["function"]⟩ [],
                  .node ⟨"arguments", true, false, ⟨22, 24⟩, ["arguments"]⟩ []]])]])]

theorem Tree.thinned_guardedCall {g : Label → Bool} {first first' second second' : List Tree}
    (h : ThinnedList g first first') (h' : ThinnedList g second second') :
    Thinned g (guardedCall first second) (guardedCall first' second') :=
  .node (.keep (.node (h.append (.keep (.refl _ _) (.keep (.refl _ _)
    (.keep (.node (.keep (.node (h'.append (.refl _ _))) .nil)) .nil))))) .nil)

theorem Tree.keywords_unseen_around_call :
    let source := Source.ofBytes "function A(){if(b)useC()}".toUTF8.toList
    let t := guardedCall [.node ⟨"function", false, false, ⟨0, 8⟩, []⟩ []]
      [.node ⟨"if", false, false, ⟨13, 15⟩, []⟩ []]
    let u := guardedCall [] []
    u.hooks source = t.hooks source ∧ u.measured source none = t.measured source none ∧
      (t.hooks source).map (·.violations) = [some ["Hook called conditionally"]] := by
  intro source t u
  have h : Thinned Label.isKeyword t u :=
    thinned_guardedCall (.drop (by decide) .nil) (.drop (by decide) .nil)
  have hall := keywords_unseen source h
  exact ⟨hall.2.2, hall.2.1 (.ofTree t) (.ofTree u) ⟨h, .nil⟩ none, by decide +kernel⟩

end ComponentSurvey
