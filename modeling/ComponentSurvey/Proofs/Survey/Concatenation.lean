import ComponentSurvey.Analysis
import ComponentSurvey.Proofs.Survey.Spines

/-!
Programs put one after the other. Every list of a survey is read off the top-level statements from
left to right, and the root itself has no say: the lists of two programs are put one after the other,
their sums are added, and the larger one of their maxima is taken.
-/

set_option autoImplicit false

namespace ComponentSurvey

/-- A program of these statements. Its root has the span and the marks of the label. -/
def Tree.program (l : Label) (statements : List Tree) : Tree :=
  .node { l with type := "program" } statements

variable (source : Source) (l : Label) (as bs : List Tree)

namespace Tree

theorem kind_program : (program l as).kind = .other := by
  have ht : (program l as).type = "program" := rfl
  exact kind_of_type ht (by decide)

theorem topLevel_program : (program l as).topLevel =
    (as.filter named).filterMap fun t => if t.isExport then t.exported? else some t := rfl

theorem topLevel_program_append : (program l (as ++ bs)).topLevel =
    (program l as).topLevel ++ (program l bs).topLevel := by
  simp only [topLevel_program, List.filter_append, List.filterMap_append]

theorem declarations_program_append : (program l (as ++ bs)).declarations source =
    (program l as).declarations source ++ (program l bs).declarations source := by
  simp only [declarations, topLevel_program_append, List.flatMap_append]

end Tree

namespace Spine

def under (root : Tree) (s : Spine) : Spine := ⟨s.tree, s.above ++ [root]⟩

variable {root : Tree} {source}

theorem enclosingComponent_under (h : root.kind = .other) (s : Spine) :
    (s.under root).enclosingComponent source = s.enclosingComponent source := by
  have hr : root.componentName? source = none := by rw [Tree.componentName?, h]
  simp [enclosingComponent, under, List.findSome?_append, hr]

theorem isConditional_under (h : root.kind = .other) (s : Spine) :
    (s.under root).isConditional = s.isConditional := by
  obtain ⟨t, above⟩ := s
  -- The root ends no search for a function, and is no condition when the search reaches it.
  induction above with
  | nil => simp [isConditional, under, h, Kind.isFunctionLike, Kind.isConditional]
  | cons a above ih =>
    simp only [isConditional, under, List.cons_append] at ih ⊢
    cases ha : a.kind.isFunctionLike <;> simp [ha, ih]

theorem isInFunction_under (h : root.kind = .other) (s : Spine) :
    (s.under root).isInFunction = s.isInFunction := by
  simp [isInFunction, under, h, Kind.isFunctionLike]

theorem violations_under (h : root.kind = .other) (s : Spine) :
    (s.under root).violations = s.violations := by
  rw [violations, isConditional_under h, isInFunction_under h, violations]

theorem hook?_under (h : root.kind = .other) (s : Spine) :
    (s.under root).hook? source = s.hook? source := by
  have ht : (s.under root).tree = s.tree := rfl
  simp only [hook?, hook, ht, enclosingComponent_under h, violations_under h]

end Spine

namespace Tree

mutual
theorem spines_concat (above : List Tree) (root t : Tree) :
    t.spines (above ++ [root]) = (t.spines above).map (Spine.under root) := by
  match t with
  | .node l ts =>
    have h := spinesList_concat (.node l ts :: above) root ts
    rw [spines, spines, List.map_cons, ← h]
    rfl
theorem spinesList_concat (above : List Tree) (root : Tree) (ts : List Tree) :
    spinesList (above ++ [root]) ts = (spinesList above ts).map (Spine.under root) := by
  match ts with
  | [] => rfl
  | t :: ts =>
    rw [spinesList, spinesList, List.map_append, spines_concat above root t,
      spinesList_concat above root ts]
end

theorem spinesList_append (above as bs : List Tree) :
    spinesList above (as ++ bs) = spinesList above as ++ spinesList above bs := by
  induction as with
  | nil => rfl
  | cons a as ih => simp only [List.cons_append, spinesList, ih, List.append_assoc]

/-- The hooks of a program are those of its statements, each taken by itself. -/
theorem hooks_program : (program l as).hooks source =
    (spinesList [] as).filterMap (Spine.hook? source) := by
  have hs : (program l as).spinesBelow = (spinesList [] as).map (Spine.under (program l as)) :=
    spinesList_concat [] (program l as) as
  rw [hooks_eq, hs, List.filterMap_map]
  exact congrArg (List.filterMap · _) (funext (Spine.hook?_under (kind_program l as)))

end Tree

namespace Tally

theorem ofForest_append (depth : Nat) (as bs : List Tree) :
    ofForest depth (as ++ bs) = (ofForest depth as).join (ofForest depth bs) := by
  induction as with
  | nil => simp [ofForest, join, zero]
  | cons a as ih => rw [List.cons_append, ofForest, ofForest, ih, join_assoc]

end Tally

/-- Two programs put one after the other: their lists one after the other, their metrics but for the
number of lines added or the larger one. The three roots need not agree on anything. -/
theorem Tree.program_append (source : Source) (la lb l : Label) (as bs : List Tree) :
    let a := program la as
    let b := program lb bs
    let ab := program l (as ++ bs)
    ab.components source = a.components source ++ b.components source ∧
      ab.callables source = a.callables source ++ b.callables source ∧
      ab.hooks source = a.hooks source ++ b.hooks source ∧
      ab.imports source = a.imports source ++ b.imports source ∧
      ab.exports source = a.exports source ++ b.exports source ∧
      ab.interfaces source = a.interfaces source ++ b.interfaces source ∧
      ab.typeAliases source = a.typeAliases source ++ b.typeAliases source ∧
      ∀ m n k : Int,
        (ab.metricsOver k).cyclomatic - 1 =
            ((a.metricsOver m).cyclomatic - 1) + ((b.metricsOver n).cyclomatic - 1) ∧
          (ab.metricsOver k).cognitive = (a.metricsOver m).cognitive + (b.metricsOver n).cognitive ∧
          (ab.metricsOver k).nestingDepth =
            max (a.metricsOver m).nestingDepth (b.metricsOver n).nestingDepth ∧
          (ab.metricsOver k).parameterCount =
            max (a.metricsOver m).parameterCount (b.metricsOver n).parameterCount := by
  intro a b ab
  have hd : ab.declarations source = a.declarations source ++ b.declarations source :=
    declarations_program_append source l as bs
  have ht : ab.topLevel = a.topLevel ++ b.topLevel := topLevel_program_append l as bs
  have hn : ab.namedChildren = a.namedChildren ++ b.namedChildren := List.filter_append ..
  have hm : Tally.ofForest 0 ab.children =
      (Tally.ofForest 0 a.children).join (Tally.ofForest 0 b.children) :=
    Tally.ofForest_append 0 as bs
  refine ⟨?_, ?_, ?_, ?_, ?_, ?_, ?_, fun m n k => ?_⟩
  · simp only [components, hd, List.filterMap_append]
  · simp only [callables, hd, List.flatMap_append]
  · simp only [ab, a, b, hooks_program, spinesList_append, List.filterMap_append]
  · simp only [imports, hn, List.filter_append, List.map_append]
  · simp only [exports, hn, List.filter_append, List.flatMap_append]
  · simp only [interfaces, ht, List.filter_append, List.map_append]
  · simp only [typeAliases, ht, List.filter_append, List.map_append]
  · simp only [metricsOver, hm, Tally.join]
    omega

end ComponentSurvey
