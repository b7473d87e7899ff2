import ComponentSurvey.Analysis
import ComponentSurvey.Proofs.Complexity.Parameters
import ComponentSurvey.Proofs.Survey.Classification
import ComponentSurvey.Proofs.Survey.Parts
import ComponentSurvey.Proofs.Survey.Sites

/-!
Functions that are reported and functions whose parameters are counted. The metrics of a file cover
every function that is read from a function declaration, an arrow or a method with a body.
-/

set_option autoImplicit false

namespace ComponentSurvey

variable {source : Source} {root : Tree}

/-- A function is reported for the target of a declaration that is no component, or for a method of
a class. -/
inductive Callable.ReadFrom (source : Source) (root : Tree) : Tree → Callable → Prop where
  | function {d : Declaration} (hd : d ∈ root.declarations source) (hf : d.form ≠ .classLike)
      (hc : ¬ d.isComponentFunction) : ReadFrom source root d.target (d.callable source)
  | method {d : Declaration} {m : Tree} (hd : d ∈ root.declarations source)
      (hf : d.form = .classLike) (hm : m ∈ d.target.members) (hp : m.isPlainMethod source) :
      ReadFrom source root m (m.method source d.displayName)

namespace Callable

variable {t : Tree} {f : Callable}

theorem mem_callables_iff : f ∈ root.callables source ↔ ∃ t, ReadFrom source root t f := by
  rw [Tree.callables, List.mem_flatMap]
  constructor
  · rintro ⟨d, hd, hf⟩
    unfold Declaration.callables at hf
    split at hf
    · rename_i hform
      obtain ⟨m, hm, rfl⟩ := List.mem_map.1 hf
      obtain ⟨hm, hp⟩ := List.mem_filter.1 hm
      exact ⟨m, .method hd (eq_of_beq hform) hm hp⟩
    · rename_i hform
      split at hf
      · cases hf
      · rename_i hc
        cases List.mem_singleton.1 hf
        exact ⟨d.target, .function hd (by simpa using hform) hc⟩
  · rintro ⟨t, h⟩
    cases h with
    | @function d hd hf hc =>
      refine ⟨d, hd, ?_⟩
      rw [Declaration.callables, if_neg (by simpa using hf), if_neg hc]
      exact List.mem_singleton_self _
    | @method d m hd hf hm hp =>
      refine ⟨d, hd, ?_⟩
      rw [Declaration.callables, if_pos (by simpa using hf)]
      exact List.mem_map_of_mem (List.mem_filter.2 ⟨hm, hp⟩)

theorem ReadFrom.parameters_eq (h : ReadFrom source root t f) :
    f.parameters = t.parameters source := by
  cases h <;> rfl

theorem ReadFrom.mem_descendants (h : ReadFrom source root t f) : t ∈ root.descendants := by
  have htargets := Tree.apart_targets source root
  cases h with
  | function hd hf hc => exact htargets.sublist.subset (List.mem_map_of_mem hd)
  | @method d _ hd hf hm hp =>
    have htarget : Tree.Apart root.children [d.target] :=
      htargets.trans (.of_mem (List.mem_map_of_mem hd))
    have hmember : Tree.Apart [d.target] [t] :=
      (Tree.Apart.children d.target).trans ((Tree.apart_members d.target).trans (.of_mem hm))
    exact (htarget.trans hmember).sublist.subset List.mem_cons_self

end Callable

theorem Tree.isFunctionLike_target {d : Declaration} (hd : d ∈ root.declarations source)
    (hf : d.form ≠ .classLike) : d.target.kind.isFunctionLike := by
  rw [← map_declaration_sites] at hd
  obtain ⟨s, hs, rfl⟩ := List.mem_map.1 hd
  exact (found_sites hs).1.isFunctionLike_target hf

theorem Tree.named_of_mem_members {t m : Tree} (h : m ∈ t.members) : m.named := by
  unfold members at h
  split at h
  · cases h
  · exact (List.mem_filter.1 h).2

/-- What is no function is a signature, which declares a method and has no body. -/
theorem Callable.ReadFrom.kind_or_type {t : Tree} {f : Callable} (h : ReadFrom source root t f) :
    t.kind.isFunctionLike ∨ t.type ∈ ["method_signature", "abstract_method_signature"] := by
  cases h with
  | function hd hf hc => exact .inl (Tree.isFunctionLike_target hd hf)
  | method hd hf hm hp =>
    rcases (Tree.isPlainMethod_iff.1 hp).type_eq with ht | ht | ht
    · refine .inl ?_
      have hn : t.label.named := Tree.named_of_mem_members hm
      rw [Tree.kind, Label.kind, if_pos hn, show t.label.type = "method_definition" from ht]
      rfl
    · exact .inr (by simp [ht])
    · exact .inr (by simp [ht])

/-- The functions of a survey are those read from declarations and methods. The metrics of the file
count at least the parameters of each that is read from a function declaration, an arrow or a method
with a body; any other is read from a function expression or from a signature. -/
theorem Survey.counts_declared_functions (table : Weights) (path : String) (source : Source)
    (root : Tree) :
    let v := ofTree table path source root
    (∀ f, f ∈ v.functions ↔ ∃ t, Callable.ReadFrom source root t f) ∧
    ∀ t f, Callable.ReadFrom source root t f →
      (t.kind ∈ [.function, .arrow, .method] →
        (f.parameters.length : Int) ≤ v.complexity.parameterCount) ∧
      (t.kind ∉ [.function, .arrow, .method] →
        t.kind = .functionExpression ∨ t.type ∈ ["method_signature", "abstract_method_signature"]) := by
  intro v
  refine ⟨fun f => Callable.mem_callables_iff, fun t f h => ⟨fun hk => ?_, fun hk => ?_⟩⟩
  · have hcounted := Kind.hasCountedParameters_iff.2 hk
    have hle := Tally.parameterCount_le_mostParameters h.mem_descendants hcounted
    rw [Tree.parameterCount_of_isFunctionLike source
      (Kind.isFunctionLike_of_hasCountedParameters hcounted), ← h.parameters_eq] at hle
    rw [show v.complexity = root.metricsOver source.lineCount from rfl,
      Tree.parameterCount_metricsOver]
    exact Int.ofNat_le.2 hle
  · refine h.kind_or_type.imp_left fun hlike => ?_
    revert hk hlike
    cases t.kind <;> decide

/-- The arrow of `const f=a=>a`. -/
theorem Survey.counts_declared_functions_of_arrow :
    let letter (start : Nat) (field : String) :=
      Tree.node ⟨"identifier", true, false, ⟨start, start + 1⟩, [field]⟩ []
    let arrow := Tree.node ⟨"arrow_function", true, false, ⟨8, 12⟩, ["value"]⟩
      [letter 8 "parameter", letter 11 "body"]
    let declarator := Tree.node ⟨"variable_declarator", true, false, ⟨6, 12⟩, []⟩
      [letter 6 "name", arrow]
    let root := Tree.node ⟨"program", true, false, ⟨0, 12⟩, []⟩
      [.node ⟨"lexical_declaration", true, false, ⟨0, 12⟩, []⟩ [declarator]]
    let source := Source.ofBytes "const f=a=>a".toUTF8.toList
    let f := Declaration.callable source
      ⟨.arrow, some ((letter 6 "name").text source), declarator, arrow⟩
    Callable.ReadFrom source root arrow f ∧ arrow.kind = .arrow ∧ f.parameters.length = 1 ∧
      (f.parameters.length : Int) ≤ (ofTree [] "a.ts" source root).complexity.parameterCount := by
  intro letter arrow declarator root source f
  let d : Declaration := ⟨.arrow, some ((letter 6 "name").text source), declarator, arrow⟩
  have hd : d ∈ root.declarations source := List.mem_cons_self
  have hform : d.form ≠ .classLike := by decide
  have hc : ¬ d.isComponentFunction := by decide +kernel
  have hf : Callable.ReadFrom source root arrow f := .function hd hform hc
  have hcounted := (counts_declared_functions [] "a.ts" source root).2 arrow f hf
  exact ⟨hf, rfl, rfl, hcounted.1 (by decide)⟩

/-- The signature in `abstract class A { abstract m(a); }` and the function expression in the next
line, `const f = function (b, c) {};`, are reported with their parameters, of which none is
counted. -/
theorem Survey.functions_left_uncounted :
    let token (text : String) (start : Nat) :=
      Tree.node ⟨text, false, false, ⟨start, start + text.length⟩, []⟩ []
    let letter (type : String) (start : Nat) (field : String) :=
      Tree.node ⟨type, true, false, ⟨start, start + 1⟩, [field]⟩ []
    let parameter (start : Nat) := Tree.node ⟨"required_parameter", true, false,
      ⟨start, start + 1⟩, []⟩ [letter "identifier" start "pattern"]
    let signature := Tree.node ⟨"abstract_method_signature", true, false, ⟨19, 32⟩, []⟩
      [token "abstract" 19, letter "property_identifier" 28 "name",
        .node ⟨"formal_parameters", true, false, ⟨29, 32⟩, ["parameters"]⟩
          [token "(" 29, parameter 30, token ")" 31]]
    let classA := Tree.node ⟨"abstract_class_declaration", true, false, ⟨0, 35⟩, []⟩
      [token "abstract" 0, token "class" 9, letter "type_identifier" 15 "name",
        .node ⟨"class_body", true, false, ⟨17, 35⟩, ["body"]⟩
          [token "\x7b" 17, signature, token ";" 32, token "\x7d" 34]]
    let function := Tree.node ⟨"function_expression", true, false, ⟨46, 64⟩, ["value"]⟩
      [token "function" 46,
        .node ⟨"formal_parameters", true, false, ⟨55, 61⟩, ["parameters"]⟩
          [token "(" 55, parameter 56, token "," 57, parameter 59, token ")" 60],
        .node ⟨"statement_block", true, false, ⟨62, 64⟩, ["body"]⟩
          [token "\x7b" 62, token "\x7d" 63]]
    let constF := Tree.node ⟨"lexical_declaration", true, false, ⟨36, 65⟩, []⟩
      [token "const" 36,
        .node ⟨"variable_declarator", true, false, ⟨42, 64⟩, []⟩
          [letter "identifier" 42 "name", token "=" 44, function],
        token ";" 64]
    let root := Tree.node ⟨"program", true, false, ⟨0, 66⟩, []⟩ [classA, constF]
    let source := Source.ofBytes
      "abstract class A \x7b abstract m(a); \x7d\nconst f = function (b, c) \x7b\x7d;\n".toUTF8.toList
    let v := ofTree [] "a.ts" source root
    root.hasError = false ∧ ofSource [] "a.ts" source root = .ok v ∧
      v.functions.map (fun f => (f.name, f.parameters.length)) = [("A.m", 1), ("f", 2)] ∧
      v.complexity.parameterCount = 0 ∧
      ¬ ∀ f ∈ v.functions, (f.parameters.length : Int) ≤ v.complexity.parameterCount := by
  intro token letter parameter signature classA function constF root source v
  have hf : v.functions.map (fun f => (f.name, f.parameters.length)) = [("A.m", 1), ("f", 2)] := by
    decide +kernel
  have hcount : v.complexity.parameterCount = 0 := by decide +kernel
  exact ⟨by decide, rfl, hf, hcount, by decide +kernel⟩

end ComponentSurvey
