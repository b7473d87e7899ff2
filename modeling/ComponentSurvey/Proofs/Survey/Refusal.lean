import ComponentSurvey.Proofs.Survey.SourceOrder
import ComponentSurvey.Proofs.Text.Excerpt
import ComponentSurvey.Tree.Pending

/-!
Refusals of broken sources. When a parser says that there is an error just where there is one, a
source is refused at the first error of the walk. No other error begins before it.
-/

set_option autoImplicit false

namespace ComponentSurvey

namespace Tree

/-- The first syntax error on a walk over the tree, and one that begins no later than any other. -/
structure IsFirstError (t b : Tree) : Prop where
  isBroken : b.label.isBroken
  first : ∃ before after, (Node.visit [.ofTree t]).map Node.tree = before ++ b :: after ∧
    ∀ u ∈ before, ¬ u.label.isBroken
  leftmost : ∀ u ∈ t.preorder, u.label.isBroken → b.span.start ≤ u.span.start

theorem map_tree_visit (t : Tree) : (Node.visit [.ofTree t]).map Node.tree = t.preorder := by
  rw [Node.visit_eq_flatMap_walk, List.flatMap_singleton, Node.map_tree_walk]
  rfl

theorem hasError_iff (t : Tree) : t.hasError ↔ ∃ u ∈ t.preorder, u.label.isBroken := by
  simp [hasError]

theorem WellNested.isFirstError {t b : Tree} (h : t.WellNested) (hb : t.firstBroken? = some b) :
    t.IsFirstError b := by
  obtain ⟨hbroken, before, after, hsplit, hbefore⟩ := List.find?_eq_some_iff_append.1 hb
  simp only [Bool.not_eq_true'] at hbefore
  refine ⟨hbroken, ⟨before, after, by rw [map_tree_visit, hsplit], ?_⟩, fun u hu hbu => ?_⟩
  · intro u hu
    simp [hbefore u hu]
  · have hp := h.pairwise_preorder
    rw [hsplit, List.pairwise_append, List.pairwise_cons] at hp
    rw [hsplit, List.mem_append, List.mem_cons] at hu
    rcases hu with hu | rfl | hu
    · rw [hbefore u hu] at hbu
      cases hbu
    · exact Nat.le_refl _
    · exact hp.2.1.1 u hu

theorem type_of_isBroken {b : Tree} (h : b.label.isBroken) (hm : ¬ b.label.missing) :
    b.type = "ERROR" := by
  simpa [type, Label.isBroken, hm] using h

end Tree

namespace Survey

variable {path : String} {source : Source} {hasError : Bool} {t : Tree}

theorem parsedTree_of_error {b : Tree} (hl : ∃ l, Language.ofPath path = .ok l)
    (hb : t.firstBroken? = some b) (he : hasError = true) :
    parsedTree path source hasError t = .error (b.syntaxFailure source path) := by
  obtain ⟨l, hl⟩ := hl
  unfold parsedTree
  simp only [hl, he, if_true, hb]

theorem parsedTree_of_no_error (hl : ∃ l, Language.ofPath path = .ok l) (he : hasError = false) :
    parsedTree path source hasError t = .ok t := by
  obtain ⟨l, hl⟩ := hl
  unfold parsedTree
  simp [hl, he]

/-- A source is refused just when there is an error or a missing token in its tree, and always with
the place of the first one. What is quoted of a stretch that fits no rule is the beginning of one
line, and empty only when nothing but blanks is there. -/
theorem refused_at_first_error (path : String) (source : Source) (t : Tree) (hasError : Bool)
    (hn : t.WellNested) (he : hasError = true ↔ ∃ u ∈ t.preorder, u.label.isBroken)
    (hl : ∃ l, Language.ofPath path = .ok l) :
    (parsedTree path source hasError t = .ok t ↔ ¬ ∃ u ∈ t.preorder, u.label.isBroken) ∧
    ((∃ reason line column,
        parsedTree path source hasError t = .error (.brokenSource path reason line column)) ↔
      ∃ u ∈ t.preorder, u.label.isBroken) ∧
    ∀ f, parsedTree path source hasError t = .error f → ∃ b reason,
      f = .brokenSource path reason (some (source.row b.span.start + 1))
        (some (source.column b.span.start + 1)) ∧
      t.IsFirstError b ∧
      (b.label.missing → reason = "Missing '" ++ b.type ++ "'") ∧
      (¬ b.label.missing → b.type = "ERROR" ∧
        ∃ line, Text.IsFirstLine (b.text source).toList line ∧
          let quoted := line.take snippetLength
          reason = "Unexpected '" ++
            (String.ofList quoted ++ if snippetLength < line.length then "..." else "") ++ "'" ∧
          quoted.length ≤ 40 ∧ (∀ c ∈ quoted, Text.isLineBreak c = false) ∧
          (quoted = [] → ∀ c ∈ (b.text source).toList, Text.isBlank c)) := by
  rw [← t.hasError_iff, ← t.isSome_firstBroken?] at he ⊢
  cases hb : t.firstBroken? with
  | none =>
    have hf : hasError = false := by simpa [hb] using he
    rw [parsedTree_of_no_error hl hf]
    simp
  | some b =>
    have ht : hasError = true := he.2 (by simp [hb])
    have hfirst := hn.isFirstError hb
    rw [parsedTree_of_error hl hb ht]
    refine ⟨by simp, ⟨fun _ => rfl, fun _ => ⟨_, _, _, rfl⟩⟩, ?_⟩
    rintro f ⟨⟩
    refine ⟨b, b.brokenReason source, rfl, hfirst, fun hm => ?_, fun hm => ?_⟩
    · rw [Tree.brokenReason, if_pos hm]
    · have hline := Text.isFirstLine_firstLine (b.text source)
      refine ⟨Tree.type_of_isBroken hfirst.isBroken hm, _, hline, ?_, ?_, ?_, ?_⟩
      · rw [Tree.brokenReason, if_neg hm, snippet_eq]
      · exact List.length_take_le _ _
      · obtain ⟨-, -, -, -, hbreak, -⟩ := hline
        exact fun c hc => hbreak c (List.mem_of_mem_take hc)
      · intro hq
        refine hline.eq_nil_iff.1 ?_
        simpa [snippetLength] using hq

/-- The tree of `\t\t)\t\t)\n)`, three brackets on two lines. -/
theorem refused_at_first_error_of_brackets :
    let bracket (start : Nat) := Tree.node ⟨")", false, false, ⟨start, start + 1⟩, []⟩ []
    let error := Tree.node ⟨"ERROR", true, false, ⟨2, 8⟩, []⟩ [bracket 2, bracket 5, bracket 7]
    let root := Tree.node ⟨"program", true, false, ⟨2, 8⟩, []⟩ [error]
    let source := Source.ofBytes "\t\t)\t\t)\n)".toUTF8.toList
    root.WellNested ∧ (∃ l, Language.ofPath "a.ts" = .ok l) ∧
      ∃ b, root.IsFirstError b ∧ parsedTree "a.ts" source true root =
        .error (.brokenSource "a.ts" "Unexpected ')\t\t)'" (some (source.row b.span.start + 1))
          (some (source.column b.span.start + 1))) := by
  intro bracket error root source
  have hn : root.WellNested := ⟨by decide, by decide, by decide⟩
  have hl : ∃ l, Language.ofPath "a.ts" = .ok l := ⟨.typescript, by decide +kernel⟩
  have he : true = true ↔ ∃ u ∈ root.preorder, u.label.isBroken := by decide
  have hs : error.syntaxFailure source "a.ts" =
      .brokenSource "a.ts" "Unexpected ')\t\t)'" (some 1) (some 3) := by decide +kernel
  have hf : parsedTree "a.ts" source true root = .error (error.syntaxFailure source "a.ts") :=
    parsedTree_of_error hl rfl rfl
  rw [hs] at hf
  obtain ⟨b, reason, hb, hfirst, -⟩ :=
    (refused_at_first_error "a.ts" source root true hn he hl).2.2 _ hf
  obtain ⟨-, rfl, -⟩ := Failure.brokenSource.inj hb
  exact ⟨hn, hl, b, hfirst, hf.trans (congrArg Except.error hb)⟩

end Survey

end ComponentSurvey
