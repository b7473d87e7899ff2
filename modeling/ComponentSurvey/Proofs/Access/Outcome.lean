import ComponentSurvey.Analysis
import ComponentSurvey.Proofs.Access.Callables
import ComponentSurvey.Proofs.Access.Patterns
import ComponentSurvey.Proofs.Access.Statements

/-!
How a survey can end. Read with every use of something that can be absent, the survey of a source is
the survey that runs, provided each pair has a key: it ends with records or with one of two failures.
-/

set_option autoImplicit false

namespace ComponentSurvey

def Language.IsRegistered (path : String) : Prop :=
  Text.lowerAscii (Path.suffix path) ∈ Language.all.flatMap Language.suffixes

theorem Language.ofPath_cases (path : String) :
    (IsRegistered path ∧ ∃ l, ofPath path = .ok l) ∨
      ¬ IsRegistered path ∧ ofPath path = .error (.unsupportedSuffix (Path.suffix path)) := by
  rw [IsRegistered, ofPath, ofSuffix, List.mem_flatMap]
  cases hf : all.find? (·.suffixes.contains (Text.lowerAscii (Path.suffix path))) with
  | some l =>
    have hl := List.find?_some hf
    exact .inl ⟨⟨l, List.mem_of_find?_eq_some hf, List.contains_iff_mem.1 hl⟩, l, rfl⟩
  | none =>
    refine .inr ⟨?_, rfl⟩
    rintro ⟨l, hl, hs⟩
    exact List.find?_eq_none.1 hf l hl (List.contains_iff_mem.2 hs)

namespace Access

open Run

variable (table : Weights) (path : String) (source : Source)

def checkedTree (t : Tree) : Run Tree := do
  let _ ← ofExcept (Language.ofPath path)
  if t.hasError then
    let broken := t.firstBroken?
    if broken.isNone then .error (.failure (.brokenSource path "Syntax error" none none))
    else
      let b ← the .node broken
      .error (.failure (b.syntaxFailure source path))
  else .ok t

def ofTree (root : Tree) : Run Survey := do
  let imports ← imports source root
  .ok {
    filePath := path
    complexity := ← metricsOver root source.lineCount
    components := ← components source root
    functions := ← callables source root
    hooks := ← hooks source root
    imports
    exports := ← exports source root
    interfaces := ← interfaces source root
    types := ← typeAliases source root
    dependencies := Import.dependencies path imports
    patterns := ← patterns source table imports root }

def ofSource (t : Tree) : Run Survey := checkedTree path source t >>= ofTree table path source

theorem checkedTree_eq (t : Tree) :
    checkedTree path source t = ofExcept (Survey.checkedTree path source t) := by
  unfold checkedTree Survey.checkedTree Survey.parsedTree
  cases Language.ofPath path with
  | error f => rfl
  | ok l =>
    rw [ofExcept_ok, ok_bind]
    split
    · cases t.firstBroken? <;> simp
    · simp

theorem ofTree_eq {root : Tree} (h : Keyed root) :
    ofTree table path source root = .ok (Survey.ofTree table path source root) := by
  simp [ofTree, Survey.ofTree, components_eq source h, callables_eq, hooks_eq, patterns_eq]

/-- The survey that runs is the one in which every use is made. -/
theorem ofSource_eq {t : Tree} (h : Keyed t) :
    ofSource table path source t = ofExcept (Survey.ofSource table path source t) := by
  rw [ofSource, checkedTree_eq, Survey.ofSource, Survey.checkedTree_eq]
  cases Language.ofPath path with
  | error f => rfl
  | ok l =>
    cases t.firstBroken? with
    | some b => rfl
    | none => exact ofTree_eq table path source h

def IsBroken (t : Tree) : Prop := ∃ u ∈ t.preorder, u.type = "ERROR" ∨ u.label.missing

theorem isBroken_iff (t : Tree) : IsBroken t ↔ ∃ b, t.firstBroken? = some b := by
  rw [← Option.isSome_iff_exists, t.isSome_firstBroken?]
  simp [IsBroken, Tree.hasError, Label.isBroken, Tree.type]

/-- However a tree and a table lack what a survey asks for, the survey ends with records, or it
refuses the suffix of the path, or it refuses the first syntax error, each exactly when it has to.
Nothing else stops it: no absent node, element, name or weight is used, and no record of a method is
asked of another node. -/
theorem outcome_of_keyed {t : Tree} (h : Keyed t) :
    let outcome := ofSource table path source t
    outcome = ofExcept (Survey.ofSource table path source t) ∧
      ((∃ survey, outcome = .ok survey) ↔ Language.IsRegistered path ∧ ¬ IsBroken t) ∧
      (outcome = .error (.failure (.unsupportedSuffix (Path.suffix path))) ↔
        ¬ Language.IsRegistered path) ∧
      ((∃ b, t.firstBroken? = some b ∧
          outcome = .error (.failure (b.syntaxFailure source path))) ↔
        Language.IsRegistered path ∧ IsBroken t) ∧
      ∀ stop, outcome = .error stop →
        stop = .failure (.unsupportedSuffix (Path.suffix path)) ∨
          ∃ b, t.firstBroken? = some b ∧ stop = .failure (b.syntaxFailure source path) := by
  intro outcome
  have ho : outcome = ofExcept (Survey.ofSource table path source t) :=
    ofSource_eq table path source h
  refine ⟨ho, ?_⟩
  rw [ho, Survey.ofSource, Survey.checkedTree_eq, isBroken_iff]
  rcases Language.ofPath_cases path with ⟨hr, l, hl⟩ | ⟨hr, hl⟩
  · cases t.firstBroken? with
    | none => simp [hl, hr, Except.bind, Except.map]
    | some b =>
      simp [hl, hr, Except.bind, Except.map, Tree.syntaxFailure, Failure.unsupportedSuffix]
  · simp [hl, hr, Except.bind, Except.map, Tree.syntaxFailure, Failure.unsupportedSuffix]

/-- The key of the state object in
`class M extends Component { constructor() { this.state = { a: 1 }; } }` is used, and it is there. -/
theorem outcome_of_keyed_pair :
    let token (text : String) (start : Nat) :=
      Tree.node ⟨text, false, false, ⟨start, start + text.length⟩, []⟩ []
    let leaf (type : String) (start stop : Nat) (field : String) :=
      Tree.node ⟨type, true, false, ⟨start, stop⟩, [field]⟩ []
    let heritage := Tree.node ⟨"class_heritage", true, false, ⟨8, 25⟩, []⟩
      [.node ⟨"extends_clause", true, false, ⟨8, 25⟩, []⟩
        [token "extends" 8, leaf "identifier" 16 25 "value"]]
    let pair := Tree.node ⟨"pair", true, false, ⟨59, 63⟩, []⟩
      [leaf "property_identifier" 59 60 "key", token ":" 60, leaf "number" 62 63 "value"]
    let assignment := Tree.node ⟨"assignment_expression", true, false, ⟨44, 65⟩, []⟩
      [.node ⟨"member_expression", true, false, ⟨44, 54⟩, ["left"]⟩
          [leaf "this" 44 48 "object", token "." 48, leaf "property_identifier" 49 54 "property"],
        token "=" 55,
        .node ⟨"object", true, false, ⟨57, 65⟩, ["right"]⟩ [token "\x7b" 57, pair, token "\x7d" 64]]
    let constructor := Tree.node ⟨"method_definition", true, false, ⟨28, 68⟩, []⟩
      [leaf "property_identifier" 28 39 "name",
        .node ⟨"formal_parameters", true, false, ⟨39, 41⟩, ["parameters"]⟩
          [token "(" 39, token ")" 40],
        .node ⟨"statement_block", true, false, ⟨42, 68⟩, ["body"]⟩
          [token "\x7b" 42,
            .node ⟨"expression_statement", true, false, ⟨44, 66⟩, []⟩ [assignment, token ";" 65],
            token "\x7d" 67]]
    let root := Tree.node ⟨"program", true, false, ⟨0, 70⟩, []⟩
      [.node ⟨"class_declaration", true, false, ⟨0, 70⟩, []⟩
        [token "class" 0, leaf "type_identifier" 6 7 "name", heritage,
          .node ⟨"class_body", true, false, ⟨26, 70⟩, ["body"]⟩
            [token "\x7b" 26, constructor, token "\x7d" 69]]]
    let source := Source.ofBytes ("class M extends Component \x7b " ++
      "constructor() \x7b this.state = \x7b a: 1 \x7d; \x7d \x7d").toUTF8.toList
    Keyed root ∧ ∃ survey, ofSource [] "a.ts" source root = .ok survey ∧
      survey.components.map (·.stateVariables) = [["a"]] := by
  intro token leaf heritage pair assignment constructor root source
  have hk : Keyed root := by
    unfold Keyed
    decide
  have hr : Language.IsRegistered "a.ts" := by
    unfold Language.IsRegistered
    decide +kernel
  have hb : ¬ IsBroken root := by
    unfold IsBroken
    decide
  obtain ⟨heq, hok, -⟩ := outcome_of_keyed [] "a.ts" source hk
  obtain ⟨survey, hsurvey⟩ := hok.2 ⟨hr, hb⟩
  obtain rfl : Survey.ofTree [] "a.ts" source root = survey :=
    Except.ok.inj (heq.symm.trans hsurvey)
  exact ⟨hk, _, hsurvey, by decide +kernel⟩

end Access

end ComponentSurvey
