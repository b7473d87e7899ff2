import Mathlib.Data.Option.Basic
import ComponentSurvey.Analysis
import ComponentSurvey.Proofs.Survey.Spines
import ComponentSurvey.Proofs.Tree.Pruning

/-!
Leaves that say nothing to a survey: no field leads to them, and where contents are looked for they
are comments or no named nodes at all. Names, parameters, metrics and hooks read the same without
them.
-/

set_option autoImplicit false

namespace ComponentSurvey

class Label.Ignorable (g : Label → Bool) : Prop where
  fields_eq_nil : ∀ l, g l → l.fields = []
  type_of_named : ∀ l, g l → l.named → l.type = "comment"
  type_ne_heritage : ∀ l, g l → l.type ≠ "class_heritage"

theorem Label.kind_of_ignorable {g : Label → Bool} [Ignorable g] {l : Label} (h : g l) :
    l.kind = .other := by
  unfold Label.kind
  cases hn : l.named with
  | false => rfl
  | true =>
    rw [if_pos rfl, Ignorable.type_of_named l h hn]
    rfl

namespace Tree

open Label (Ignorable kind_of_ignorable)

variable {g : Label → Bool} {source : Source}

mutual
theorem unparenthesized_prune [Ignorable g] (t : Tree) :
    (t.prune g).unparenthesized = t.unparenthesized.map (prune g) := by
  match t with
  | .node l ts =>
    rw [prune, unparenthesized, unparenthesized, firstUnparenthesized_prune ts]
    cases l.type == "parenthesized_expression" <;> rfl
theorem firstUnparenthesized_prune [Ignorable g] (ts : List Tree) :
    firstUnparenthesized (pruneList g ts) = (firstUnparenthesized ts).map (prune g) := by
  match ts with
  | [] => rfl
  | t :: ts =>
    rw [pruneList_cons, firstUnparenthesized]
    cases ht : t.isKept g with
    | true =>
      rw [if_pos rfl, firstUnparenthesized, named_prune, isComment_prune,
        unparenthesized_prune t, firstUnparenthesized_prune ts]
      cases t.named && !t.isComment <;> rfl
    | false =>
      have hc (hn : t.named) : t.isComment :=
        beq_iff_eq.2 (Ignorable.type_of_named t.label (label_of_isKept_eq_false ht) hn)
      rw [if_neg (by simp), if_neg (by simpa using hc), firstUnparenthesized_prune ts]
end

variable [Ignorable g]

theorem kind_eq_other {t : Tree} (h : g t.label) : t.kind = .other := kind_of_ignorable h

@[simp] theorem field?_prune (t : Tree) (f : String) :
    (t.prune g).field? f = (t.field? f).map (prune g) := by
  rw [field?, children_prune, find?_kept (by simp), field?]
  intro u _ hu
  simp [marked, Ignorable.fields_eq_nil u.label hu]

theorem type_of_mem {t u : Tree} (hu : u ∈ t.namedChildren) (hg : g u.label) :
    u.type = "comment" :=
  Ignorable.type_of_named u.label hg (List.mem_filter.1 hu).2

theorem contents_prune (t : Tree) : (t.prune g).contents = t.contents.map (prune g) := by
  rw [contents, namedChildren_prune, filter_kept (by simp), contents]
  intro u hu hg
  simp [isComment, type_of_mem hu hg]

theorem filter_type_prune (t : Tree) {type : String} (h : type ≠ "comment") :
    (t.prune g).namedChildren.filter (·.type == type) =
      (t.namedChildren.filter (·.type == type)).map (prune g) := by
  rw [namedChildren_prune, filter_kept (by simp)]
  intro u hu hg
  simpa [type_of_mem hu hg] using h.symm

@[simp] theorem stringValue_some_prune (t : Tree) :
    stringValue source (some (t.prune g)) = stringValue source (some t) := by
  simp [stringValue, filter_type_prune, Function.comp_def]

@[simp] theorem stringValue_map_prune (t : Option Tree) :
    stringValue source (t.map (prune g)) = stringValue source t := by
  cases t with
  | none => rfl
  | some t => exact stringValue_some_prune t

@[simp] theorem name?_prune (t : Tree) : (t.prune g).name? source = t.name? source := by
  simp [name?, Option.bind_map]

@[simp] theorem properName?_prune (t : Tree) :
    (t.prune g).properName? source = t.properName? source := by
  simp [properName?]

theorem unparenthesizedField_prune (t : Tree) (f : String) :
    ((t.prune g).field? f).bind unparenthesized =
      ((t.field? f).bind unparenthesized).map (prune g) := by
  simp [Option.bind_map, Option.map_bind, unparenthesized_prune]

@[simp] theorem isElement_prune (t : Tree) : (t.prune g).isElement = t.isElement := by
  simp [isElement, unparenthesized_prune, Option.any_map]

@[simp] theorem returnsElement_prune (t : Tree) :
    (t.prune g).returnsElement = t.returnsElement := by
  simp [returnsElement, contents_prune, Option.any_map]

@[simp] theorem parameterCount_prune (t : Tree) :
    (t.prune g).parameterCount = t.parameterCount := by
  simp only [parameterCount, kind_prune, field?_prune, Option.isSome_map]
  cases t.field? "parameters" <;> simp [contents_prune]

end Tree

namespace Tally

open Label (Ignorable kind_of_ignorable)

variable {g : Label → Bool}

theorem ofNode_eq_zero {t : Tree} (h : t.kind = .other) (depth : Nat) : ofNode t depth = zero := by
  simp [ofNode, h, Kind.isBranch, Kind.isEffort, Kind.isNesting, Kind.hasCountedParameters, zero]

theorem ofNode_prune [Ignorable g] (t : Tree) (depth : Nat) :
    ofNode (t.prune g) depth = ofNode t depth := by
  simp [ofNode]

mutual
theorem ofTree_eq_zero [Ignorable g] {t : Tree} (h : t.isKept g = false) (depth : Nat) :
    ofTree depth t = zero := by
  match t with
  | .node l ts =>
    have hl : Tree.pruneList g ts = [] := by
      simp only [Tree.isKept, Tree.isLoose, Tree.prune, Tree.children, Bool.not_eq_false',
        Bool.and_eq_true] at h
      exact List.isEmpty_iff.1 h.2
    have hk : (Tree.node l ts).kind = .other := Tree.kind_eq_other (Tree.label_of_isKept_eq_false h)
    rw [ofTree, ofNode_eq_zero hk, zero_join, ofForest_eq_zero hl]
theorem ofForest_eq_zero [Ignorable g] {ts : List Tree} (h : Tree.pruneList g ts = [])
    (depth : Nat) : ofForest depth ts = zero := by
  match ts with
  | [] => rfl
  | t :: ts =>
    rw [Tree.pruneList_cons] at h
    cases ht : t.isKept g with
    | true => simp [ht] at h
    | false =>
      have hts : Tree.pruneList g ts = [] := by simpa [ht] using h
      rw [ofForest, ofTree_eq_zero ht, zero_join, ofForest_eq_zero hts]
end

mutual
theorem ofTree_prune [Ignorable g] (depth : Nat) (t : Tree) :
    ofTree depth (t.prune g) = ofTree depth t := by
  match t with
  | .node l ts =>
    have hn := ofNode_prune (g := g) (.node l ts) depth
    rw [Tree.prune] at hn ⊢
    rw [ofTree, ofTree, hn, ofForest_prune _ ts]
theorem ofForest_prune [Ignorable g] (depth : Nat) (ts : List Tree) :
    ofForest depth (Tree.pruneList g ts) = ofForest depth ts := by
  match ts with
  | [] => rfl
  | t :: ts =>
    rw [Tree.pruneList_cons, ofForest]
    cases ht : t.isKept g with
    | true => rw [if_pos rfl, ofForest, ofTree_prune depth t, ofForest_prune depth ts]
    | false => rw [if_neg (by simp), ofTree_eq_zero ht, zero_join, ofForest_prune depth ts]
end

end Tally

namespace Tree

open Label (Ignorable kind_of_ignorable)

variable {g : Label → Bool} [Ignorable g] {source : Source}

theorem ofForest_children_prune (t : Tree) (depth : Nat) :
    Tally.ofForest depth (t.prune g).children = Tally.ofForest depth t.children := by
  obtain ⟨l, ts⟩ := t
  exact Tally.ofForest_prune depth ts

@[simp] theorem cyclomatic_prune (t : Tree) : (t.prune g).cyclomatic = t.cyclomatic := by
  rw [cyclomatic, ofForest_children_prune, cyclomatic]

@[simp] theorem metricsOver_prune (t : Tree) (lines : Int) :
    (t.prune g).metricsOver lines = t.metricsOver lines := by
  rw [metricsOver, ofForest_children_prune, metricsOver]

theorem descendantsOf_prune (t : Tree) {k : Kind} (h : k ≠ .other) :
    (t.prune g).descendantsOf k = (t.descendantsOf k).map (prune g) := by
  rw [descendantsOf, descendants_prune, filter_kept (by simp), descendantsOf]
  intro u _ hu
  simpa [kind_eq_other hu] using h.symm

@[simp] theorem returnsElements_prune (t : Tree) :
    (t.prune g).returnsElements = t.returnsElements := by
  have hd : ((t.prune g).descendantsOf .returnStatement).any returnsElement =
      (t.descendantsOf .returnStatement).any returnsElement := by
    rw [descendantsOf_prune t (by decide), List.any_map]
    simp [Function.comp_def]
  rw [returnsElements, hd, kind_prune, field?_prune, returnsElements]
  cases t.field? "body" with
  | none => rfl
  | some body => cases t.kind <;> simp

theorem heritageClauses_prune (t : Tree) :
    (t.prune g).heritageClauses = t.heritageClauses.map (prune g) := by
  rw [heritageClauses, children_prune, filter_kept (by simp), heritageClauses]
  intro u _ hu
  exact beq_eq_false_iff_ne.2 (Ignorable.type_ne_heritage u.label hu)

theorem extendsClauses_prune (t : Tree) :
    (t.prune g).extendsClauses = t.extendsClauses.map (prune g) :=
  filter_type_prune t (by decide)

@[simp] theorem heritage_prune (t : Tree) : (t.prune g).heritage source = t.heritage source := by
  rw [heritage, heritageClauses_prune, List.head?_map, heritage]
  cases t.heritageClauses.head? with
  | none => rfl
  | some h =>
    have ht : ((h.prune g).extendsClauses.head?.getD (h.prune g)).text source =
        (h.extendsClauses.head?.getD h).text source := by
      rw [extendsClauses_prune, List.head?_map]
      cases h.extendsClauses.head? <;> simp
    simp only [Option.map_some, ht]

@[simp] theorem isComponentClass_prune (t : Tree) :
    (t.prune g).isComponentClass source = t.isComponentClass source := by
  simp [isComponentClass]

@[simp] theorem componentName?_prune (t : Tree) :
    (t.prune g).componentName? source = t.componentName? source := by
  simp [componentName?]

@[simp] theorem hookName?_prune (t : Tree) :
    (t.prune g).hookName? source = t.hookName? source := by
  simp [hookName?, Option.bind_map]

theorem arguments_prune (t : Tree) : (t.prune g).arguments = t.arguments.map (prune g) := by
  rw [arguments, field?_prune, arguments]
  cases t.field? "arguments" <;> simp [contents_prune]

@[simp] theorem hookDependencies_prune (t : Tree) (name : String) :
    (t.prune g).hookDependencies source name = t.hookDependencies source name := by
  rw [hookDependencies, arguments_prune, List.getElem?_map, hookDependencies]
  cases t.arguments[1]? with
  | none => rfl
  | some list => simp [filter_type_prune (g := g) list, Function.comp_def]

@[simp] theorem createsContext_prune (t : Tree) (framework : String) :
    (t.prune g).createsContext source framework = t.createsContext source framework := by
  simp [createsContext, Option.any_map]

end Tree

namespace Spine

open Label (Ignorable)

variable {g : Label → Bool} {source : Source}

theorem violations_prune (s : Spine) : (s.prune g).violations = s.violations := by
  simp [violations, isConditional, isInFunction, prune, List.takeWhile_map, Function.comp_def]

variable [Ignorable g]

theorem hook?_eq_none {s : Spine} (h : g s.tree.label) : s.hook? source = none := by
  simp [hook?, Tree.kind_eq_other h]

@[simp] theorem hook?_prune (s : Spine) : (s.prune g).hook? source = s.hook? source := by
  have h (name : String) : (s.prune g).hook source name = s.hook source name := by
    simp only [hook, violations_prune]
    simp [prune, enclosingComponent, List.findSome?_map, Function.comp_def]
  simp only [hook?, h]
  simp [prune]

theorem context?_eq_none {s : Spine} (h : g s.tree.label) (framework : String) (weight : Json) :
    s.context? source framework weight = none := by
  simp [context?, Tree.createsContext, Tree.kind_eq_other h]

@[simp] theorem context?_prune (s : Spine) (framework : String) (weight : Json) :
    (s.prune g).context? source framework weight = s.context? source framework weight := by
  simp [context?, prune, Option.bind_map]

end Spine

namespace Tree

variable {g : Label → Bool} [Label.Ignorable g] {source : Source}

theorem hooks_prune (root : Tree) : (root.prune g).hooks source = root.hooks source := by
  rw [hooks_eq, spinesBelow_prune, hooks_eq]
  exact Spine.filterMap_kept Spine.hook?_prune fun s _ hs => Spine.hook?_eq_none hs

theorem findSome?_context_prune (root : Tree) (framework : String) (weight : Json) :
    (Node.ofTree (root.prune g)).descendants.findSome? (Node.context? source framework weight) =
      (Node.ofTree root).descendants.findSome? (Node.context? source framework weight) := by
  rw [findSome?_context_eq, spinesBelow_prune, findSome?_context_eq, ← List.head?_filterMap,
    ← List.head?_filterMap]
  refine congrArg List.head? (Spine.filterMap_kept ?_ ?_)
  · exact fun s => Spine.context?_prune s framework weight
  · exact fun s _ hs => Spine.context?_eq_none hs framework weight

end Tree

end ComponentSurvey
