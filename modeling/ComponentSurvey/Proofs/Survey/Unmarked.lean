import Mathlib.Data.Option.Basic
import ComponentSurvey.Proofs.Survey.Spines
import ComponentSurvey.Proofs.Tree.Marks
import ComponentSurvey.Survey.Callables
import ComponentSurvey.Survey.Types

/-!
What a survey says of a tree does not depend on the field that leads to it. Declarations, hooks and
contexts read the same when the marks of the trees that they hold are taken away.
-/

set_option autoImplicit false

namespace ComponentSurvey

variable {source : Source}

namespace Tree

@[simp] theorem location_unmarked (t : Tree) : t.unmarked.location source = t.location source := by
  cases t
  rfl

@[simp] theorem properName?_unmarked (t : Tree) :
    t.unmarked.properName? source = t.properName? source := by
  cases t
  rfl

@[simp] theorem parameters_unmarked (t : Tree) :
    t.unmarked.parameters source = t.parameters source := by
  cases t
  rfl

@[simp] theorem returnsElements_unmarked (t : Tree) :
    t.unmarked.returnsElements = t.returnsElements := by
  cases t
  rfl

@[simp] theorem cyclomatic_unmarked (t : Tree) : t.unmarked.cyclomatic = t.cyclomatic := by
  cases t
  rfl

@[simp] theorem isComponentClass_unmarked (t : Tree) :
    t.unmarked.isComponentClass source = t.isComponentClass source := by
  cases t
  rfl

@[simp] theorem componentName?_unmarked (t : Tree) :
    t.unmarked.componentName? source = t.componentName? source := by
  cases t
  rfl

@[simp] theorem hookName?_unmarked (t : Tree) :
    t.unmarked.hookName? source = t.hookName? source := by
  cases t
  rfl

@[simp] theorem hookDependencies_unmarked (t : Tree) (name : String) :
    t.unmarked.hookDependencies source name = t.hookDependencies source name := by
  cases t
  rfl

@[simp] theorem createsContext_unmarked (t : Tree) (framework : String) :
    t.unmarked.createsContext source framework = t.createsContext source framework := by
  cases t
  rfl

@[simp] theorem interfaceRecord_unmarked (t : Tree) :
    t.unmarked.interfaceRecord source = t.interfaceRecord source := by
  cases t
  rfl

@[simp] theorem typeAliasRecord_unmarked (t : Tree) :
    t.unmarked.typeAliasRecord source = t.typeAliasRecord source := by
  cases t
  rfl

end Tree

namespace Spine

theorem violations_unmarked (s : Spine) : s.unmarked.violations = s.violations := by
  simp [violations, isConditional, isInFunction, unmarked, List.takeWhile_map, Function.comp_def]

theorem hook?_unmarked (s : Spine) : s.unmarked.hook? source = s.hook? source := by
  have h (name : String) : s.unmarked.hook source name = s.hook source name := by
    simp only [hook, violations_unmarked]
    simp [unmarked, enclosingComponent, List.findSome?_map, Function.comp_def]
  simp only [hook?, h]
  simp [unmarked]

theorem context?_unmarked (s : Spine) (framework : String) (weight : Json) :
    s.unmarked.context? source framework weight = s.context? source framework weight := by
  simp [context?, unmarked, Option.bind_map]

end Spine

theorem Node.stateVariable?_unmarkedAbove (n : Node) :
    n.unmarkedAbove.stateVariable? source = n.stateVariable? source := by
  obtain ⟨t, place⟩ := n
  cases place <;> rfl

namespace Tree

theorem hookCalls_unmarked (source : Source) (t : Tree) :
    (t.unmarked.hookCalls source).map (fun c => (c.1, c.2.unmarkedAbove)) =
      (t.hookCalls source).map (fun c => (c.1, c.2.unmarkedAbove)) := by
  have h (u : Tree) : (u.hookCalls source).map (fun c => (c.1, c.2.unmarkedAbove)) =
      ((Node.ofTree u).descendants.map Node.unmarkedAbove).filterMap fun n =>
        if n.kind == .call then (n.tree.hookName? source).map (·, n) else none := by
    rw [hookCalls, List.map_filterMap, List.filterMap_map]
    refine congrArg (List.filterMap · _) (funext fun n => ?_)
    change _ = if n.kind == .call then (n.tree.hookName? source).map (·, n.unmarkedAbove) else none
    cases n.kind == .call <;> simp [Function.comp_def]
  rw [h, Node.map_unmarkedAbove_descendants, ← h]

theorem filterMap_hookCalls_unmarked {α : Type} {f : String × Node → Option α}
    (hf : ∀ name n, f (name, n.unmarkedAbove) = f (name, n)) (t : Tree) :
    (t.unmarked.hookCalls source).filterMap f = (t.hookCalls source).filterMap f := by
  have h (u : Tree) : (u.hookCalls source).filterMap f =
      ((u.hookCalls source).map fun c => (c.1, c.2.unmarkedAbove)).filterMap f := by
    rw [List.filterMap_map]
    exact congrArg (List.filterMap · _) (funext fun c => (hf c.1 c.2).symm)
  rw [h, hookCalls_unmarked, ← h]

@[simp] theorem hookUsage_unmarked (t : Tree) :
    t.unmarked.hookUsage source = t.hookUsage source := by
  have hn : (t.unmarked.hookCalls source).map (·.1) = (t.hookCalls source).map (·.1) := by
    rw [map_fst_hookCalls, map_fst_hookCalls, descendants, children_unmarked, descendants]
  rw [hookUsage, hookUsage, hn, filterMap_hookCalls_unmarked]
  intro name n
  simp only [Node.stateVariable?_unmarkedAbove]

end Tree

namespace Declaration

def unmarked (d : Declaration) : Declaration :=
  { d with node := d.node.unmarked, target := d.target.unmarked }

variable (d : Declaration)

@[simp] theorem isComponentFunction_unmarked :
    d.unmarked.isComponentFunction = d.isComponentFunction := by
  simp [isComponentFunction, unmarked]

theorem functionComponent_unmarked :
    d.unmarked.functionComponent source = d.functionComponent source := by
  simp [functionComponent, unmarked, displayName, properName?]

theorem classComponent_unmarked : d.unmarked.classComponent source = d.classComponent source := by
  obtain ⟨form, name, ⟨l, ts⟩, ⟨l', ts'⟩⟩ := d
  rfl

theorem component?_unmarked : d.unmarked.component? source = d.component? source := by
  have hc : d.unmarked.target.isComponentClass source = d.target.isComponentClass source :=
    d.target.isComponentClass_unmarked
  have hf : d.unmarked.form = d.form := rfl
  rw [component?, hf, hc, isComponentFunction_unmarked, functionComponent_unmarked,
    classComponent_unmarked, component?]

theorem callables_unmarked : d.unmarked.callables source = d.callables source := by
  obtain ⟨form, name, ⟨l, ts⟩, ⟨l', ts'⟩⟩ := d
  rfl

variable (source) (weight : Json)

theorem customHook?_unmarked :
    d.unmarked.customHook? source weight = d.customHook? source weight := by
  obtain ⟨form, name, ⟨l, ts⟩, target⟩ := d
  rfl

theorem higherOrder?_unmarked :
    d.unmarked.higherOrder? source weight = d.higherOrder? source weight := by
  obtain ⟨form, name, ⟨l, ts⟩, ⟨l', ts'⟩⟩ := d
  rfl

theorem singleton?_unmarked :
    d.unmarked.singleton? source weight = d.singleton? source weight := by
  obtain ⟨form, name, ⟨l, ts⟩, ⟨l', ts'⟩⟩ := d
  rfl

theorem factory?_unmarked :
    d.unmarked.factory? source weight = d.factory? source weight := by
  obtain ⟨form, name, ⟨l, ts⟩, ⟨l', ts'⟩⟩ := d
  rfl

end Declaration

/-- A statement that is found by another field declares the same; what a declarator binds is the
same to the last mark. -/
theorem Tree.declarationsOf_unmarked (t : Tree) :
    (t.unmarked.declarationsOf source).map Declaration.unmarked =
      (t.declarationsOf source).map Declaration.unmarked := by
  have hn : t.unmarked.name? source = t.name? source := by
    cases t
    rfl
  have hv : t.unmarked.isVariableStatement = t.isVariableStatement := by
    simp [isVariableStatement]
  have hd : t.unmarked.declarators = t.declarators := by
    simp [declarators, namedChildren]
  rw [declarationsOf, kind_unmarked, hn, hv, hd, declarationsOf]
  cases t.kind <;> simp [Declaration.unmarked]

end ComponentSurvey
