import ComponentSurvey.Proofs.Complexity.Paths
import ComponentSurvey.Signature

/-!
Parameters counted and parameters read. The count that goes into the metrics and the list of
parameters that is reported look at the children of a parameter list in different ways and agree on
all of them.
-/

set_option autoImplicit false

namespace ComponentSurvey

namespace Tree

variable {source : Source} {t : Tree}

/-- Whatever stands in a list of parameters is one of them, unless it is a comment. -/
theorem isSome_parameter? (source : Source) (t : Tree) :
    (t.parameter? source).isSome = !t.isComment := by
  unfold parameter?
  split
  · rename_i h
    have hc : t.isComment = false := by
      rw [Bool.or_eq_true, beq_iff_eq, beq_iff_eq] at h
      rcases h with h | h <;> simp [isComment, h]
    simp [hc]
  · split
    · rename_i h
      simp [isComment, eq_of_beq h]
    · split
      · rename_i h
        simp [h]
      · rename_i h
        simp [h]

theorem length_filterMap_parameter? (source : Source) (ts : List Tree) :
    (ts.filterMap (parameter? source)).length = (ts.filter (!·.isComment)).length := by
  rw [List.length_filterMap_eq_countP, List.countP_eq_length_filter]
  simp only [isSome_parameter?]

/-- A node that is no function may have parameters too, but they are not counted. -/
theorem parameterCount_eq (source : Source) (t : Tree) :
    t.parameterCount = if t.kind.isFunctionLike then (t.parameters source).length else 0 := by
  unfold parameterCount parameters
  cases t.kind.isFunctionLike with
  | false => rfl
  | true =>
    cases t.field? "parameter" with
    | some single => rfl
    | none =>
      cases t.field? "parameters" with
      | none => rfl
      | some ps => exact (length_filterMap_parameter? source ps.namedChildren).symm

theorem parameterCount_of_isFunctionLike (source : Source) (h : t.kind.isFunctionLike) :
    t.parameterCount = (t.parameters source).length := by
  rw [parameterCount_eq source, if_pos h]

end Tree

namespace Kind

variable {k : Kind}

theorem hasCountedParameters_iff :
    k.hasCountedParameters ↔ k ∈ [.function, .arrow, .method] := by
  rw [hasCountedParameters_eq, decide_eq_true_iff]

theorem isFunctionLike_of_hasCountedParameters (h : k.hasCountedParameters) :
    k.isFunctionLike := by
  cases k <;> first | rfl | cases h

end Kind

namespace Tally

variable {t : Tree} {ts : List Tree}

theorem parameterCount_le_mostParameters (h : t ∈ ts) (hk : t.kind.hasCountedParameters) :
    t.parameterCount ≤ mostParameters ts := by
  induction ts with
  | nil => cases h
  | cons u ts ih =>
    rw [mostParameters_cons]
    rcases List.mem_cons.1 h with rfl | h
    · rw [if_pos hk]
      exact Nat.le_max_left _ _
    · exact Nat.le_trans (ih h) (Nat.le_max_right _ _)

/-- The largest number is that of one of the trees, unless it is zero. -/
theorem mostParameters_attained (ts : List Tree) : mostParameters ts = 0 ∨
    ∃ t ∈ ts, t.kind.hasCountedParameters ∧ mostParameters ts = t.parameterCount := by
  induction ts with
  | nil => exact .inl rfl
  | cons u ts ih =>
    rw [mostParameters_cons]
    have hrest (h : ∃ t ∈ ts, t.kind.hasCountedParameters ∧ mostParameters ts = t.parameterCount) :
        ∃ t ∈ u :: ts, t.kind.hasCountedParameters ∧ mostParameters ts = t.parameterCount := by
      obtain ⟨t, ht, hk⟩ := h
      exact ⟨t, List.mem_cons_of_mem u ht, hk⟩
    by_cases hu : u.kind.hasCountedParameters
    · rw [if_pos hu]
      rcases Nat.le_total u.parameterCount (mostParameters ts) with hle | hle
      · rw [Nat.max_eq_right hle]
        exact ih.imp_right hrest
      · rw [Nat.max_eq_left hle]
        exact .inr ⟨u, List.mem_cons_self, hu, rfl⟩
    · rw [if_neg hu, Nat.zero_max]
      exact ih.imp_right hrest

theorem mostParameters_eq_zero (h : ∀ t ∈ ts, ¬ t.kind.hasCountedParameters) :
    mostParameters ts = 0 := by
  refine (mostParameters_attained ts).resolve_right ?_
  rintro ⟨t, ht, hk, -⟩
  exact h t ht hk

theorem isGreatest_mostParameters (h : ∃ t ∈ ts, t.kind.hasCountedParameters) :
    IsGreatest {k | ∃ t ∈ ts, t.kind.hasCountedParameters ∧ k = t.parameterCount}
      (mostParameters ts) := by
  refine ⟨?_, ?_⟩
  · rcases mostParameters_attained ts with hz | ha
    · obtain ⟨t, ht, hk⟩ := h
      have hle := parameterCount_le_mostParameters ht hk
      exact ⟨t, ht, hk, Nat.le_antisymm (by omega) hle⟩
    · exact ha
  · rintro k ⟨t, ht, hk, rfl⟩
    exact parameterCount_le_mostParameters ht hk

end Tally

theorem Tree.parameterCount_metricsOver (t : Tree) (lines : Int) :
    (t.metricsOver lines).parameterCount = Tally.mostParameters t.descendants := by
  rw [metricsOver, Tally.parameters_ofForest, descendants]

/-- The parameters of a function, function expression, arrow or method are counted as they are
listed, whatever stands between them. So the metrics of anything have the length of the longest list
of parameters of a function, arrow or method below it, and zero where there is none. -/
theorem Tree.parameters_counted_as_listed (source : Source) (lines : Option Int) (t : Tree) :
    (t.kind ∈ [.function, .functionExpression, .arrow, .method] →
      t.parameterCount = (t.parameters source).length) ∧
    let count := (t.measured source lines).parameterCount
    ((∀ d ∈ t.descendants, d.kind ∉ [.function, .arrow, .method]) → count = 0) ∧
    ((∃ d ∈ t.descendants, d.kind ∈ [.function, .arrow, .method]) →
      IsGreatest {k : Int | ∃ d ∈ t.descendants, d.kind ∈ [.function, .arrow, .method] ∧
        k = (d.parameters source).length} count) := by
  have hlike : ∀ k ∈ [Kind.function, .functionExpression, .arrow, .method], k.isFunctionLike := by
    decide
  have hlength {d : Tree} (hk : d.kind.hasCountedParameters) :
      d.parameterCount = (d.parameters source).length :=
    parameterCount_of_isFunctionLike source (Kind.isFunctionLike_of_hasCountedParameters hk)
  refine ⟨fun hk => parameterCount_of_isFunctionLike source (hlike t.kind hk), ?_⟩
  intro count
  have hcount : count = Tally.mostParameters t.descendants :=
    (congrArg Metrics.parameterCount (measured_eq source lines t)).trans
      (t.parameterCount_metricsOver _)
  simp only [← Kind.hasCountedParameters_iff, hcount]
  refine ⟨fun h => congrArg Int.ofNat (Tally.mostParameters_eq_zero h), fun h => ?_⟩
  obtain ⟨⟨d, hd, hk, hmost⟩, hle⟩ := Tally.isGreatest_mostParameters h
  refine ⟨⟨d, hd, hk, ?_⟩, ?_⟩
  · rw [hmost, hlength hk]
  · rintro k ⟨e, he, hk, rfl⟩
    rw [← hlength hk]
    exact Int.ofNat_le.2 (hle ⟨e, he, hk, rfl⟩)

/-- A required parameter, a comment, an optional one, a pattern, one with a default and a rest. -/
theorem Tree.parameters_counted_of_mixture :
    let part (type : String) := Tree.node ⟨type, true, false, ⟨0, 0⟩, []⟩ []
    let list := Tree.node ⟨"formal_parameters", true, false, ⟨0, 0⟩, ["parameters"]⟩
      (["required_parameter", "comment", "optional_parameter", "object_pattern",
        "assignment_pattern", "rest_pattern"].map part)
    let f := Tree.node ⟨"function_declaration", true, false, ⟨0, 0⟩, []⟩ [list]
    let root := Tree.node ⟨"program", true, false, ⟨0, 0⟩, []⟩ [f]
    let source := Source.ofBytes []
    f.kind = .function ∧ f.parameterCount = 5 ∧ f.parameterCount = (f.parameters source).length ∧
      IsGreatest {k : Int | ∃ d ∈ root.descendants, d.kind ∈ [.function, .arrow, .method] ∧
        k = (d.parameters source).length} (root.measured source none).parameterCount := by
  intro part list f root source
  have hf := (parameters_counted_as_listed source none f).1 (by decide)
  have hroot := (parameters_counted_as_listed source none root).2.2
  exact ⟨rfl, by decide, hf, hroot ⟨f, List.mem_cons_self, by decide⟩⟩

end ComponentSurvey
