import ComponentSurvey.Proofs.Tree.Spine
import ComponentSurvey.Survey.Hooks
import ComponentSurvey.Survey.Patterns

/-!
Hooks and contexts by spines. A call of a hook is judged by the trees above it alone, and so is a
call that creates a context: siblings of the nodes in between have no say.
-/

set_option autoImplicit false

namespace ComponentSurvey

namespace Spine

variable (source : Source)

def enclosingComponent (s : Spine) : String :=
  (s.above.findSome? (Tree.componentName? source)).getD "Unknown"

def isConditional (s : Spine) : Bool :=
  (s.above.takeWhile (!·.kind.isFunctionLike)).any (·.kind.isConditional)

def isInFunction (s : Spine) : Bool := s.above.any (·.kind.isFunctionLike)

def violations (s : Spine) : List HookViolation :=
  (if s.isConditional then [.conditional] else []) ++
    (if s.isInFunction then [] else [.outsideFunction])

def hook (name : String) (s : Spine) : Hook :=
  let violations := s.violations.map HookViolation.text
  { name
    location := s.tree.location source
    component := s.enclosingComponent source
    dependencies := s.tree.hookDependencies source name
    violations := if violations.isEmpty then none else some violations }

def hook? (s : Spine) : Option Hook :=
  if s.tree.kind == .call then (s.tree.hookName? source).map fun name => s.hook source name
  else none

def context? (framework : String) (weight : Json) (s : Spine) : Option Pattern :=
  if s.tree.createsContext source framework then
    let bound := s.above.head?.bind fun p =>
      if p.kind == .variable then p.properName? source else none
    some {
      type := PatternKind.context.name
      name := bound.getD "Context Provider"
      confidence := weight
      location := s.tree.location source
      evidence := ["Uses " ++ framework ++ ".createContext"] }
  else none

end Spine

namespace Node

variable (source : Source) (n : Node)

theorem enclosingComponent_eq :
    n.enclosingComponent source = n.spine.enclosingComponent source := by
  simp [enclosingComponent, Spine.enclosingComponent, spine, List.findSome?_map, Function.comp_def]

theorem violations_eq : n.violations = n.spine.violations := by
  simp [violations, Spine.violations, isConditional, Spine.isConditional, isInFunction,
    Spine.isInFunction, spine, List.takeWhile_map, Function.comp_def, kind]

theorem hook_eq (name : String) : n.hook source name = n.spine.hook source name := by
  rw [hook, Spine.hook, violations_eq, enclosingComponent_eq]
  rfl

theorem head?_above : n.spine.above.head? = n.parent?.map tree := by
  obtain ⟨t, place⟩ := n
  cases place <;> rfl

theorem context?_eq (framework : String) (weight : Json) :
    n.context? source framework weight = n.spine.context? source framework weight := by
  rw [context?, Spine.context?, head?_above]
  cases n.parent? <;> rfl

end Node

namespace Tree

variable (source : Source) (root : Tree)

theorem hooks_eq : root.hooks source = root.spinesBelow.filterMap (Spine.hook? source) := by
  rw [hooks, hookCalls, ← Node.map_spine_descendants, List.filterMap_map, List.map_filterMap]
  refine congrArg (List.filterMap · _) (funext fun n => ?_)
  simp only [Function.comp_apply, Spine.hook?, ← Node.hook_eq]
  change _ = if n.kind == .call then (n.tree.hookName? source).map (n.hook source) else none
  cases n.kind == .call <;> simp [Function.comp_def]

theorem map_fst_hookCalls :
    (root.hookCalls source).map (·.1) = root.descendants.filterMap fun c =>
      if c.kind == .call then c.hookName? source else none := by
  have hd : (Node.ofTree root).descendants.map Node.tree = root.descendants :=
    Node.map_tree_descendants (Node.ofTree root)
  rw [hookCalls, ← hd, List.filterMap_map, List.map_filterMap]
  refine congrArg (List.filterMap · _) (funext fun n => ?_)
  simp only [Function.comp_apply, Node.kind]
  by_cases hk : n.tree.kind == .call
  · simp [hk, Function.comp_def]
  · simp [hk]

theorem findSome?_context_eq (framework : String) (weight : Json) :
    (Node.ofTree root).descendants.findSome? (Node.context? source framework weight) =
      root.spinesBelow.findSome? (Spine.context? source framework weight) := by
  rw [← Node.map_spine_descendants, List.findSome?_map]
  refine congrArg (List.findSome? · _) (funext fun n => ?_)
  exact Node.context?_eq source n framework weight

end Tree

end ComponentSurvey
