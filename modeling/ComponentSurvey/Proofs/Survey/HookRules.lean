import ComponentSurvey.Survey.Hooks
import Mathlib.Data.List.TakeWhile

/-!
Rules of hooks by ancestors. A call is conditional when code that is not always run stands above it
with no function in between, and it is outside when no function stands above it at all. Nothing else
that is above a call has a say.
-/

set_option autoImplicit false

namespace ComponentSurvey

namespace Kind

def functions : List Kind := [function, functionExpression, arrow, method]

def conditionals : List Kind := [ifStatement, whileLoop, doLoop, forLoop, switch, ternary]

theorem isFunctionLike_iff {k : Kind} : k.isFunctionLike ↔ k ∈ functions := by
  cases k <;> decide

theorem isConditional_iff {k : Kind} : k.isConditional ↔ k ∈ conditionals := by
  cases k <;> decide

theorem not_isFunctionLike_of_isConditional {k : Kind} (h : k.isConditional) :
    !k.isFunctionLike := by
  cases k <;> first | rfl | cases h

end Kind

/-- A search up to the first element that ends it, for elements that do not end it themselves. -/
theorem any_takeWhile_iff {α : Type} {p q : α → Bool} (hqp : ∀ x, q x → p x) {xs : List α} :
    (xs.takeWhile p).any q ↔
      ∃ inner x outer, xs = inner ++ x :: outer ∧ q x ∧ ∀ y ∈ inner, p y := by
  constructor
  · intro h
    obtain ⟨x, hx, hq⟩ := List.any_eq_true.1 h
    obtain ⟨inner, rest, hsplit⟩ := List.append_of_mem hx
    refine ⟨inner, x, rest ++ xs.dropWhile p, ?_, hq, fun y hy => ?_⟩
    · rw [← List.cons_append, ← List.append_assoc, ← hsplit, List.takeWhile_append_dropWhile]
    · exact List.mem_takeWhile_imp (hsplit ▸ List.mem_append_left _ hy)
  · rintro ⟨inner, x, outer, rfl, hq, hinner⟩
    rw [List.takeWhile_append_of_pos hinner, List.takeWhile_cons_of_pos (hqp x hq), List.any_append,
      List.any_cons, hq]
    simp

namespace Node

def boundaries (n : Node) : List Kind :=
  (n.ancestors.map kind).filter (· ∈ Kind.conditionals ++ Kind.functions)

theorem map_kind_ancestors (n : Node) : n.ancestors.map kind = n.place.map (·.label.kind) := by
  obtain ⟨t, place⟩ := n
  induction place generalizing t with
  | nil => rfl
  | cons s place ih => exact congrArg (s.label.kind :: ·) (ih (s.fill t))

end Node

namespace Kind

/-- The walk over the kinds above a call, nearest first: the first that is a function ends it. -/
def meetConditional : List Kind → Bool
  | [] => false
  | k :: above => !k.isFunctionLike && (k.isConditional || meetConditional above)

theorem meetConditional_eq (ks : List Kind) :
    meetConditional ks = (ks.takeWhile (!·.isFunctionLike)).any (·.isConditional) := by
  induction ks with
  | nil => rfl
  | cons k ks ih =>
    rw [meetConditional, ih]
    cases h : k.isFunctionLike <;> simp [h]

theorem meetConditional_cons {k : Kind} (h : k ∉ conditionals ++ functions) (above : List Kind) :
    meetConditional (k :: above) = meetConditional above := by
  rw [List.mem_append, not_or, ← isConditional_iff, ← isFunctionLike_iff] at h
  simp [meetConditional, h.1, h.2]

theorem meetConditional_filter (ks : List Kind) :
    meetConditional (ks.filter (· ∈ conditionals ++ functions)) = meetConditional ks := by
  induction ks with
  | nil => rfl
  | cons k ks ih =>
    by_cases h : k ∈ conditionals ++ functions
    · rw [List.filter_cons_of_pos (by simpa using h), meetConditional, meetConditional, ih]
    · rw [List.filter_cons_of_neg (by simpa using h), ih, meetConditional_cons h]

theorem any_isFunctionLike_filter (ks : List Kind) :
    (ks.filter (· ∈ conditionals ++ functions)).any isFunctionLike = ks.any isFunctionLike := by
  rw [List.any_filter]
  refine congrArg (List.any ks) (funext fun k => ?_)
  cases k <;> decide

end Kind

namespace Node

theorem isConditional_eq (n : Node) : n.isConditional = Kind.meetConditional n.boundaries := by
  rw [boundaries, Kind.meetConditional_filter, Kind.meetConditional_eq, List.takeWhile_map,
    List.any_map]
  rfl

theorem isInFunction_eq (n : Node) : n.isInFunction = n.boundaries.any Kind.isFunctionLike := by
  rw [boundaries, Kind.any_isFunctionLike_filter, List.any_map]
  rfl

/-- Calls with the same functions and conditionals above them break the same rules. -/
theorem violations_congr {m n : Node} (h : m.boundaries = n.boundaries) :
    m.violations = n.violations := by
  rw [violations, violations, isConditional_eq, isConditional_eq, isInFunction_eq, isInFunction_eq,
    h]

theorem boundaries_insert {others : List Step}
    (h : ∀ s ∈ others, s.label.kind ∉ Kind.conditionals ++ Kind.functions) (t : Tree)
    (inner outer : List Step) :
    boundaries ⟨t, inner ++ others ++ outer⟩ = boundaries ⟨t, inner ++ outer⟩ := by
  have hn : (others.map (·.label.kind)).filter (· ∈ Kind.conditionals ++ Kind.functions) = [] := by
    rw [List.filter_eq_nil_iff]
    rintro k hk
    obtain ⟨s, hs, rfl⟩ := List.mem_map.1 hk
    simpa using h s hs
  simp only [boundaries, map_kind_ancestors, List.map_append, List.filter_append, hn,
    List.append_nil]

theorem isConditional_iff {n : Node} : n.isConditional ↔
    ∃ inner a outer, n.ancestors = inner ++ a :: outer ∧ a.kind ∈ Kind.conditionals ∧
      ∀ b ∈ inner, b.kind ∉ Kind.functions := by
  rw [isConditional, any_takeWhile_iff fun a => Kind.not_isFunctionLike_of_isConditional]
  simp only [Kind.isConditional_iff, Bool.not_eq_true', ← Kind.isFunctionLike_iff,
    Bool.not_eq_true]

theorem isInFunction_eq_false_iff {n : Node} :
    n.isInFunction = false ↔ ∀ a ∈ n.ancestors, a.kind ∉ Kind.functions := by
  simp only [isInFunction, List.any_eq_false, Kind.isFunctionLike_iff]

theorem mem_violations_conditional {n : Node} :
    .conditional ∈ n.violations ↔ n.isConditional := by
  cases hc : n.isConditional <;> cases hf : n.isInFunction <;> simp [violations, hc, hf]

theorem mem_violations_outsideFunction {n : Node} :
    .outsideFunction ∈ n.violations ↔ n.isInFunction = false := by
  cases hc : n.isConditional <;> cases hf : n.isInFunction <;> simp [violations, hc, hf]

theorem violations_sublist (n : Node) :
    n.violations.Sublist [.conditional, .outsideFunction] := by
  cases hc : n.isConditional <;> cases hf : n.isInFunction <;> simp [violations, hc, hf]

end Node

theorem HookViolation.text_injective {v w : HookViolation} (h : v.text = w.text) : v = w := by
  cases v <;> cases w <;> first | rfl | exact absurd h (by decide)

theorem HookViolation.text_mem_iff (v : HookViolation) {vs : List HookViolation} :
    v.text ∈ vs.map text ↔ v ∈ vs := by
  refine ⟨fun h => ?_, List.mem_map_of_mem⟩
  obtain ⟨w, hw, ht⟩ := List.mem_map.1 h
  exact text_injective ht ▸ hw

/-- A call breaks the rule against conditions when an ancestor is a conditional with no function
between it and the call, and the rule to be inside a function when no ancestor is one. It is said to
break each rule once at most, the first one first. Ancestors of other kinds make no difference, how
many there are and wherever they stand. -/
theorem Node.violations_by_ancestors (n : Node) :
    let texts := n.violations.map HookViolation.text
    ("Hook called conditionally" ∈ texts ↔
      ∃ inner a outer, n.ancestors = inner ++ a :: outer ∧
        a.kind ∈ [.ifStatement, .whileLoop, .doLoop, .forLoop, .switch, .ternary] ∧
        ∀ b ∈ inner, b.kind ∉ [.function, .functionExpression, .arrow, .method]) ∧
    ("Hook not called inside function component" ∈ texts ↔
      ∀ a ∈ n.ancestors, a.kind ∉ [.function, .functionExpression, .arrow, .method]) ∧
    texts.Sublist ["Hook called conditionally", "Hook not called inside function component"] ∧
    (∀ m : Node, m.boundaries = n.boundaries → m.violations = n.violations) ∧
    ∀ inner others outer, n.place = inner ++ outer →
      (∀ s ∈ others, s.label.kind ∉ [.ifStatement, .whileLoop, .doLoop, .forLoop, .switch,
        .ternary, .function, .functionExpression, .arrow, .method]) →
      violations ⟨n.tree, inner ++ others ++ outer⟩ = n.violations := by
  intro texts
  refine ⟨?_, ?_, n.violations_sublist.map _, fun m => violations_congr, ?_⟩
  · exact (HookViolation.text_mem_iff .conditional).trans
      (mem_violations_conditional.trans isConditional_iff)
  · exact (HookViolation.text_mem_iff .outsideFunction).trans
      (mem_violations_outsideFunction.trans isInFunction_eq_false_iff)
  · intro inner others outer hplace hothers
    have hn : n = ⟨n.tree, inner ++ outer⟩ := by rw [← hplace]
    rw [hn]
    exact violations_congr (boundaries_insert hothers n.tree inner outer)

/-- A call in a branch inside an arrow, and the same call deeper in that branch. -/
theorem Node.violations_of_call_in_branch :
    let above (types : List String) : List Step :=
      types.map fun type => ⟨⟨type, true, false, ⟨0, 0⟩, []⟩, [], []⟩
    let call := Tree.node ⟨"call_expression", true, false, ⟨0, 0⟩, []⟩ []
    let branch : Node := ⟨call, above ["if_statement", "arrow_function", "program"]⟩
    let deeper : Node := ⟨call, above ["arguments", "statement_block", "if_statement",
      "arrow_function", "program"]⟩
    deeper.violations = branch.violations ∧
      branch.violations.map HookViolation.text = ["Hook called conditionally"] := by
  intro above call branch deeper
  refine ⟨?_, by decide⟩
  exact (violations_by_ancestors branch).2.2.2.2 [] (above ["arguments", "statement_block"])
    (above ["if_statement", "arrow_function", "program"]) rfl (by decide)

end ComponentSurvey
