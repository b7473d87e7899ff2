import ComponentSurvey.Proofs.Session.Memory
import ComponentSurvey.Proofs.Survey.Detection

/-!
Confidence stands beside detection. A table of weights decides the confidence of each pattern, by the
type of the pattern, and nothing else in a survey; and a table that is completed before it is used
weighs as it does by itself.
-/

set_option autoImplicit false

namespace ComponentSurvey

namespace Weights

def usual : Weights := PatternKind.all.map fun k => (k.name, k.usualWeight)

theorem lookup_usual (k : PatternKind) : usual.lookup k.name = some k.usualWeight := by
  cases k <;> rfl

theorem weight_completed (table : Weights) (k : PatternKind) :
    table.completed.weight k = table.weight k := by
  have h : table.completed.lookup k.name = some (table.weight k) := by cases k <;> rfl
  rw [weight, h, Option.getD_some]

theorem weight_eq (table : Weights) (k : PatternKind) :
    (table.lookup k.name).or (usual.lookup k.name) = some (table.weight k) := by
  rw [lookup_usual, weight]
  cases table.lookup k.name <;> rfl

end Weights

def Pattern.unweighed (p : Pattern) : Pattern := { p with confidence := .null }

namespace Shape.Finds

variable {α : Type} {s : Shape α} {f : Json → α → Option Pattern}

theorem map_unweighed (h : s.Finds f) (weight : Json) (x : α) :
    (f weight x).map Pattern.unweighed = f .null x := by
  by_cases hx : s.IsCandidate x
  · rw [h.eq_report weight hx, h.eq_report .null hx]
    rfl
  · rw [h.eq_none_iff.2 hx, h.eq_none_iff.2 hx]
    rfl

theorem filterMap_unweighed (h : s.Finds f) (weight : Json) (xs : List α) :
    (xs.filterMap (f weight)).map Pattern.unweighed = xs.filterMap (f .null) := by
  rw [List.map_filterMap]
  simp only [h.map_unweighed]

theorem findSome?_unweighed (h : s.Finds f) (weight : Json) (xs : List α) :
    (xs.findSome? (f weight)).toList.map Pattern.unweighed = (xs.findSome? (f .null)).toList := by
  rw [← Option.toList_map, ← List.head?_filterMap, ← List.head?_map, h.filterMap_unweighed,
    List.head?_filterMap]

/-- What is found has the type of the shape and the weight that was given. -/
theorem weighed (h : s.Finds f) {weight : Json} {x : α} {p : Pattern} (hp : f weight x = some p) :
    p.type = s.kind.name ∧ p.confidence = weight := by
  rw [((h weight x p).1 hp).2]
  exact ⟨rfl, rfl⟩

theorem weighed_of_mem_filterMap (h : s.Finds f) {weight : Json} {xs : List α} {p : Pattern}
    (hp : p ∈ xs.filterMap (f weight)) : p.type = s.kind.name ∧ p.confidence = weight := by
  obtain ⟨x, -, hx⟩ := List.mem_filterMap.1 hp
  exact h.weighed hx

theorem weighed_of_mem_findSome? (h : s.Finds f) {weight : Json} {xs : List α} {p : Pattern}
    (hp : p ∈ (xs.findSome? (f weight)).toList) : p.type = s.kind.name ∧ p.confidence = weight := by
  obtain ⟨x, -, hx⟩ := List.exists_of_findSome?_eq_some (Option.mem_toList.1 hp)
  exact h.weighed hx

end Shape.Finds

namespace Tree

open Shape

variable {source : Source} {imports : List Import} {root : Tree}

theorem frameworkPatterns_unweighed (table : Weights) (framework : String) :
    (root.frameworkPatterns source table framework).map Pattern.unweighed =
      (root.declarations source).filterMap (Declaration.customHook? source .null) ++
        ((root.declarations source).findSome? (Declaration.higherOrder? source .null)).toList ++
        ((Node.ofTree root).descendants.findSome? (Node.context? source framework .null)).toList := by
  simp only [frameworkPatterns, List.map_append, (finds_customHook? source).filterMap_unweighed,
    (finds_higherOrder? source).findSome?_unweighed,
    (finds_context? source framework).findSome?_unweighed]

theorem patterns_unweighed (c₁ c₂ : Weights) :
    (root.patterns source c₁ imports).map Pattern.unweighed =
      (root.patterns source c₂ imports).map Pattern.unweighed := by
  simp only [patterns, List.map_append, (finds_singleton? source).findSome?_unweighed,
    (finds_factory? source).findSome?_unweighed]
  cases Import.frameworkName? imports with
  | none => rfl
  | some framework => simp only [frameworkPatterns_unweighed]

theorem weighed_of_mem_patterns {table : Weights} {p : Pattern}
    (hp : p ∈ root.patterns source table imports) :
    ∃ k : PatternKind, p.type = k.name ∧ p.confidence = table.weight k := by
  have hframework : ∀ framework, p ∈ root.frameworkPatterns source table framework →
      ∃ k : PatternKind, p.type = k.name ∧ p.confidence = table.weight k := by
    intro framework h
    rcases List.mem_append.1 h with h | h
    · rcases List.mem_append.1 h with h | h
      · exact ⟨_, (finds_customHook? source).weighed_of_mem_filterMap h⟩
      · exact ⟨_, (finds_higherOrder? source).weighed_of_mem_findSome? h⟩
    · exact ⟨_, (finds_context? source framework).weighed_of_mem_findSome? h⟩
  rcases List.mem_append.1 hp with h | h
  · rcases List.mem_append.1 h with h | h
    · cases hname : Import.frameworkName? imports with
      | none =>
        rw [hname] at h
        cases h
      | some framework =>
        rw [hname] at h
        exact hframework framework h
    · exact ⟨_, (finds_singleton? source).weighed_of_mem_findSome? h⟩
  · exact ⟨_, (finds_factory? source).weighed_of_mem_findSome? h⟩

theorem patterns_completed (table : Weights) :
    root.patterns source table.completed imports = root.patterns source table imports := by
  simp only [patterns, frameworkPatterns, Weights.weight_completed]

end Tree

namespace Survey

def unweighed (v : Survey) : Survey := { v with patterns := v.patterns.map Pattern.unweighed }

theorem ofSource_unweighed (c₁ c₂ : Weights) (path : String) (source : Source) (t : Tree) :
    (ofSource c₁ path source t).map unweighed = (ofSource c₂ path source t).map unweighed := by
  unfold ofSource
  cases checkedTree path source t with
  | error f => rfl
  | ok root =>
    simp only [Except.map, ofTree, unweighed, Tree.patterns_unweighed c₁ c₂]

theorem ofSource_completed (table : Weights) (path : String) (source : Source) (t : Tree) :
    ofSource table.completed path source t = ofSource table path source t := by
  unfold ofSource
  cases checkedTree path source t with
  | error f => rfl
  | ok root => simp only [Except.map, ofTree, Tree.patterns_completed]

theorem weighed_of_mem {table : Weights} {path : String} {source : Source} {t : Tree} {v : Survey}
    (h : ofSource table path source t = .ok v) {p : Pattern} (hp : p ∈ v.patterns) :
    ∃ k : PatternKind, p.type = k.name ∧ p.confidence = table.weight k := by
  unfold ofSource at h
  cases hc : checkedTree path source t with
  | error f => simp [hc, Except.map] at h
  | ok root =>
    rw [hc] at h
    obtain ⟨⟩ := h
    exact Tree.weighed_of_mem_patterns hp

theorem confidence_eq {table : Weights} {path : String} {source : Source} {t : Tree} {v : Survey}
    (h : ofSource table path source t = .ok v) {p : Pattern} (hp : p ∈ v.patterns) :
    (table.lookup p.type).or (Weights.usual.lookup p.type) = some p.confidence := by
  obtain ⟨k, htype, hweight⟩ := weighed_of_mem h hp
  rw [htype, hweight, Weights.weight_eq]

end Survey

theorem FileTree.survey_eq (fs : FileTree) (table : Weights) (k : Route) :
    fs.survey table.completed k = (fs.read k).bind fun (bytes, tree) =>
      Survey.ofSource table k.text (Source.ofBytes bytes) tree := by
  simp only [FileTree.survey, Survey.ofSource_completed]
  cases fs.read k with
  | error f => rfl
  | ok content => simp only [Except.bind]

theorem Session.analyzeFile_survey {fs : FileTree} {s : Session} {path : String} {k : Route}
    (hk : fs.resolve path = .ok k) (hn : s.cache.lookup k = none) :
    (s.analyzeFile fs path).1.map (·.survey) = fs.survey s.weights k := by
  cases hv : fs.survey s.weights k with
  | error f =>
    rw [analyzeFile_failed hk hn hv]
    rfl
  | ok v =>
    rw [analyzeFile_new hk hn hv]
    rfl

/-- Two tables give one survey up to the confidence of its patterns, and failures alike. A pattern
has the weight that the table gives its type, or else the usual one. A session that was given the
table, at any point of its work, surveys a file that it does not remember as the source that the
file holds would be surveyed under the table. -/
theorem Survey.confidence_apart (c c' : Weights) :
    (∀ path source t,
      (ofSource c path source t).map unweighed = (ofSource c' path source t).map unweighed ∧
      ∀ v, ofSource c path source t = .ok v → ∀ p ∈ v.patterns,
        (c.lookup p.type).or (Weights.usual.lookup p.type) = some p.confidence) ∧
    ∀ (files : FileTree) (excluded : Option (List String)) (moves : List Move) (path : String)
        (k : Route),
      let b := (Bench.start files c excluded).run moves
      b.files.resolve path = .ok k → b.session.cache.lookup k = none →
        (b.session.analyzeFile b.files path).1.map (·.survey) =
          (b.files.read k).bind fun (bytes, tree) =>
            ofSource c k.text (Source.ofBytes bytes) tree := by
  refine ⟨fun path source t => ⟨ofSource_unweighed c c' path source t, fun v hv p hp =>
    confidence_eq hv hp⟩, fun files excluded moves path k => ?_⟩
  intro b hk hn
  have hw := (Bench.faithful_run files c excluded moves).weights_eq
  rw [Session.analyzeFile_survey hk hn, hw, FileTree.survey_eq]

/-- The tree of `function factory(){return;return}`. -/
def Tree.returningTwice : Tree :=
  .node ⟨"program", true, false, ⟨0, 33⟩, []⟩
    [.node ⟨"function_declaration", true, false, ⟨0, 33⟩, []⟩
      [.node ⟨"identifier", true, false, ⟨9, 16⟩, ["name"]⟩ [],
        .node ⟨"formal_parameters", true, false, ⟨16, 18⟩, ["parameters"]⟩ [],
        .node ⟨"statement_block", true, false, ⟨18, 33⟩, ["body"]⟩
          [.node ⟨"return_statement", true, false, ⟨19, 26⟩, []⟩ [],
            .node ⟨"return_statement", true, false, ⟨26, 32⟩, []⟩ []]]]

theorem Survey.confidence_apart_of_factory :
    let bytes := "function factory(){return;return}".toUTF8.toList
    let c : Weights := [("factory", .number (.decimal 3 (-1))), ("facade", .null)]
    let b := (Bench.start ⟨[("a.ts", .file bytes .returningTwice)], []⟩ c none).run []
    let v := ofSource c "/a.ts" (Source.ofBytes bytes) .returningTwice
    (b.session.analyzeFile b.files "a.ts").1.map (·.survey) = v ∧
      v.toOption.map (·.patterns.map (·.confidence)) = some [.number (.decimal 3 (-1))] := by
  intro bytes c b v
  refine ⟨?_, by decide +kernel⟩
  exact (confidence_apart c []).2 _ none [] "a.ts" ["a.ts"] rfl rfl

end ComponentSurvey
