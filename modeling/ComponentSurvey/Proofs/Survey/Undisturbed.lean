import ComponentSurvey.Proofs.Tree.Lowering
import ComponentSurvey.Survey.Hooks
import ComponentSurvey.Survey.Patterns

/-!
What a preface leaves as it is. Names, texts, parameters, metrics, members, declarations and the
judgement on hooks are read off a lowered tree as they are read off the tree itself.
-/

set_option autoImplicit false

namespace ComponentSurvey

variable {p : Preface} {source : Source}

namespace Tree

@[simp] theorem typeText_lowered (t : Option Tree) :
    typeText (source.lowered p) (t.map (lowered p)) = typeText source t := by
  cases t <;> simp [typeText]

@[simp] theorem stringValue_some_lowered (t : Tree) :
    stringValue (source.lowered p) (some (t.lowered p)) = stringValue source (some t) := by
  simp only [stringValue, filter_type_lowered, List.isEmpty_map, text_lowered, List.map_map,
    Function.comp_def]

@[simp] theorem stringValue_map_lowered (t : Option Tree) :
    stringValue (source.lowered p) (t.map (lowered p)) = stringValue source t := by
  cases t with
  | none => rfl
  | some t => exact stringValue_some_lowered t

@[simp] theorem name?_lowered (t : Tree) :
    (t.lowered p).name? (source.lowered p) = t.name? source := by
  simp [name?, Option.bind_map]

@[simp] theorem properName?_lowered (t : Tree) :
    (t.lowered p).properName? (source.lowered p) = t.properName? source := by
  simp [properName?]

@[simp] theorem nameOf_map_lowered (t : Option Tree) :
    nameOf (source.lowered p) (t.map (lowered p)) = nameOf source t := by
  cases t <;> simp [nameOf]

@[simp] theorem parameter?_lowered (t : Tree) :
    (t.lowered p).parameter? (source.lowered p) = t.parameter? source := by
  simp [parameter?, Option.any_map, Function.comp_def]

@[simp] theorem parameters_lowered (t : Tree) :
    (t.lowered p).parameters (source.lowered p) = t.parameters source := by
  rw [parameters, field?_lowered, field?_lowered, parameters]
  cases t.field? "parameter" with
  | some single => simp
  | none =>
    cases t.field? "parameters" with
    | none => rfl
    | some ps => simp [List.filterMap_map]

@[simp] theorem returnType?_lowered (t : Tree) :
    (t.lowered p).returnType? (source.lowered p) = t.returnType? source := by
  simp [returnType?]

@[simp] theorem isAsync_lowered (t : Tree) : (t.lowered p).isAsync = t.isAsync := by
  simp [isAsync]

@[simp] theorem isGenerator_lowered (t : Tree) : (t.lowered p).isGenerator = t.isGenerator := by
  simp [isGenerator]

@[simp] theorem calledNames_lowered (t : Tree) :
    (t.lowered p).calledNames (source.lowered p) = t.calledNames source := by
  simp [calledNames, List.filterMap_map, Option.bind_map]

@[simp] theorem hookName?_lowered (t : Tree) :
    (t.lowered p).hookName? (source.lowered p) = t.hookName? source := by
  simp [hookName?, Option.bind_map]

@[simp] theorem arguments_lowered (t : Tree) :
    (t.lowered p).arguments = t.arguments.map (lowered p) := by
  rw [arguments, field?_lowered, arguments]
  cases t.field? "arguments" <;> simp

theorem unparenthesizedField_lowered (t : Tree) (f : String) :
    ((t.lowered p).field? f).bind unparenthesized =
      ((t.field? f).bind unparenthesized).map (lowered p) := by
  simp [Option.bind_map, Option.map_bind]

@[simp] theorem isElement_lowered (t : Tree) : (t.lowered p).isElement = t.isElement := by
  simp [isElement, Option.any_map]

@[simp] theorem returnsElement_lowered (t : Tree) :
    (t.lowered p).returnsElement = t.returnsElement := by
  simp [returnsElement, Option.any_map]

@[simp] theorem returnsElements_lowered (t : Tree) :
    (t.lowered p).returnsElements = t.returnsElements := by
  have hd : ((t.lowered p).descendantsOf .returnStatement).any returnsElement =
      (t.descendantsOf .returnStatement).any returnsElement := by
    simp [Function.comp_def]
  rw [returnsElements, hd, kind_lowered, field?_lowered, returnsElements]
  cases t.field? "body" with
  | none => rfl
  | some body => cases t.kind <;> simp

@[simp] theorem isClassField_lowered (t : Tree) :
    (t.lowered p).isClassField = t.isClassField := by
  simp [isClassField]

theorem heritageClauses_lowered (t : Tree) :
    (t.lowered p).heritageClauses = t.heritageClauses.map (lowered p) := by
  simp [heritageClauses, List.filter_map, Function.comp_def]

theorem extendsClauses_lowered (t : Tree) :
    (t.lowered p).extendsClauses = t.extendsClauses.map (lowered p) := filter_type_lowered t _

@[simp] theorem heritage_lowered (t : Tree) :
    (t.lowered p).heritage (source.lowered p) = t.heritage source := by
  rw [heritage, heritageClauses_lowered, List.head?_map, heritage]
  cases t.heritageClauses.head? with
  | none => rfl
  | some h =>
    have ht : ((h.lowered p).extendsClauses.head?.getD (h.lowered p)).text (source.lowered p) =
        (h.extendsClauses.head?.getD h).text source := by
      rw [extendsClauses_lowered, List.head?_map]
      cases h.extendsClauses.head? <;> simp
    simp only [Option.map_some, ht]

@[simp] theorem heritageArgument?_lowered (t : Tree) :
    (t.lowered p).heritageArgument? (source.lowered p) = t.heritageArgument? source := by
  have hf : (t.lowered p).heritageClauses.flatMap extendsClauses =
      (t.heritageClauses.flatMap extendsClauses).map (lowered p) := by
    rw [heritageClauses_lowered, List.flatMap_map, List.map_flatMap]
    simp only [extendsClauses_lowered]
  rw [heritageArgument?, hf, List.findSome?_map, heritageArgument?]
  simp [Function.comp_def, Option.bind_map]

@[simp] theorem members_lowered (t : Tree) :
    (t.lowered p).members = t.members.map (lowered p) := by
  rw [members, field?_lowered, members]
  cases t.field? "body" <;> simp

@[simp] theorem isStatic_lowered (t : Tree) : (t.lowered p).isStatic = t.isStatic := by
  simp [isStatic]

@[simp] theorem isPlainMethod_lowered (t : Tree) :
    (t.lowered p).isPlainMethod (source.lowered p) = t.isPlainMethod source := by
  simp [isPlainMethod]

@[simp] theorem isComponentClass_lowered (t : Tree) :
    (t.lowered p).isComponentClass (source.lowered p) = t.isComponentClass source := by
  simp [isComponentClass]

@[simp] theorem classProps?_lowered (t : Tree) :
    (t.lowered p).classProps? (source.lowered p) = t.classProps? source := by
  simp [classProps?, List.findSome?_map, Function.comp_def]

theorem assignedState_lowered (t : Tree) :
    (t.lowered p).assignedState (source.lowered p) = t.assignedState source := by
  rw [assignedState, unparenthesizedField_lowered, field?_lowered, assignedState]
  cases t.field? "left" with
  | none => simp
  | some left =>
    cases (t.field? "right").bind unparenthesized with
    | none => simp
    | some right => simp [Option.any_map, Function.comp_def, List.filter_map, List.filterMap_map]

@[simp] theorem classStateVariables_lowered (t : Tree) :
    (t.lowered p).classStateVariables (source.lowered p) = t.classStateVariables source := by
  rw [classStateVariables, members_lowered, List.find?_map, classStateVariables]
  simp only [Function.comp_def, type_lowered, name?_lowered]
  cases t.members.find? _ with
  | none => rfl
  | some c => simp [descendants_lowered, List.flatMap_map, assignedState_lowered]

@[simp] theorem parameterCount_lowered (t : Tree) :
    (t.lowered p).parameterCount = t.parameterCount := by
  simp only [parameterCount, kind_lowered, field?_lowered, Option.isSome_map]
  cases t.field? "parameters" <;> simp

end Tree

namespace Tally

theorem ofNode_lowered (t : Tree) (depth : Nat) :
    ofNode (t.lowered p) depth = ofNode t depth := by
  simp [ofNode]

mutual
theorem ofTree_lowered (depth : Nat) (t : Tree) :
    ofTree depth (t.lowered p) = ofTree depth t := by
  match t with
  | .node l ts =>
    have hn := ofNode_lowered (p := p) (.node l ts) depth
    have hk : (l.lowered p).kind = l.kind := rfl
    rw [Tree.lowered] at hn ⊢
    rw [ofTree, ofTree, hn, hk, ofForest_lowered _ ts]
theorem ofForest_lowered (depth : Nat) (ts : List Tree) :
    ofForest depth (Tree.loweredList p ts) = ofForest depth ts := by
  match ts with
  | [] => rfl
  | t :: ts =>
    rw [Tree.loweredList, ofForest, ofForest, ofTree_lowered depth t, ofForest_lowered depth ts]
end

end Tally

namespace Tree

theorem ofForest_children_lowered (t : Tree) (depth : Nat) :
    Tally.ofForest depth (t.lowered p).children = Tally.ofForest depth t.children := by
  obtain ⟨l, ts⟩ := t
  exact Tally.ofForest_lowered depth ts

@[simp] theorem cyclomatic_lowered (t : Tree) : (t.lowered p).cyclomatic = t.cyclomatic := by
  rw [cyclomatic, ofForest_children_lowered, cyclomatic]

end Tree

namespace Tree

@[simp] theorem componentName?_lowered (t : Tree) :
    (t.lowered p).componentName? (source.lowered p) = t.componentName? source := by
  simp [componentName?]

@[simp] theorem hookDependencies_lowered (t : Tree) (name : String) :
    (t.lowered p).hookDependencies (source.lowered p) name = t.hookDependencies source name := by
  rw [hookDependencies, arguments_lowered, List.getElem?_map, hookDependencies]
  cases t.arguments[1]? with
  | none => rfl
  | some list => simp [List.filter_map, Function.comp_def]

@[simp] theorem createsContext_lowered (t : Tree) (framework : String) :
    (t.lowered p).createsContext (source.lowered p) framework =
      t.createsContext source framework := by
  simp [createsContext, Option.any_map]

theorem firstElementName?_lowered (t : Tree) :
    (t.lowered p).firstElementName? (source.lowered p) = t.firstElementName? source := by
  have hc : (t.lowered p).children.find? (·.type != "[") =
      (t.children.find? (·.type != "[")).map (lowered p) := by
    simp [List.find?_map]
  rw [firstElementName?, hc, firstElementName?, Option.bind_map]
  refine congrArg (Option.bind _) (funext fun element => ?_)
  by_cases h : element.type = "assignment_pattern"
  · simp [h, Option.bind_map]
  · simp [h]

end Tree

namespace Node

theorem stateVariable?_lowered (n : Node) :
    (n.lowered p).stateVariable? (source.lowered p) = n.stateVariable? source := by
  rw [stateVariable?, parent?_lowered, isField_lowered, stateVariable?]
  simp [Option.bind_map, Tree.firstElementName?_lowered]

@[simp] theorem enclosingComponent_lowered (n : Node) :
    (n.lowered p).enclosingComponent (source.lowered p) = n.enclosingComponent source := by
  simp [enclosingComponent, ancestors_lowered, List.findSome?_map, Function.comp_def]

@[simp] theorem violations_lowered (n : Node) : (n.lowered p).violations = n.violations := by
  simp [violations, isConditional, isInFunction, ancestors_lowered, List.takeWhile_map,
    Function.comp_def]

end Node

namespace Tree

theorem hookCalls_lowered (t : Tree) :
    (t.lowered p).hookCalls (source.lowered p) =
      (t.hookCalls source).map fun (name, n) => (name, n.lowered p) := by
  rw [hookCalls, Node.descendants_lowered, List.filterMap_map, hookCalls, List.map_filterMap]
  refine congrArg (List.filterMap · _) (funext fun n => ?_)
  by_cases h : n.kind = .call
  · simp [h, Function.comp_def]
  · simp [h]

@[simp] theorem hookUsage_lowered (t : Tree) :
    (t.lowered p).hookUsage (source.lowered p) = t.hookUsage source := by
  simp [hookUsage, hookCalls_lowered, List.filterMap_map, Function.comp_def,
    Node.stateVariable?_lowered]

end Tree

namespace Declaration

def lowered (p : Preface) (d : Declaration) : Declaration :=
  ⟨d.form, d.name, d.node.lowered p, d.target.lowered p⟩

@[simp] theorem isComponentFunction_lowered (d : Declaration) :
    (d.lowered p).isComponentFunction = d.isComponentFunction := by
  simp [isComponentFunction, lowered]

end Declaration

namespace Tree

@[simp] theorem isExport_lowered (t : Tree) : (t.lowered p).isExport = t.isExport := by
  simp [isExport]

@[simp] theorem exported?_lowered (t : Tree) :
    (t.lowered p).exported? = t.exported?.map (lowered p) := by
  rw [exported?, field?_lowered, field?_lowered, exported?]
  cases t.field? "declaration" <;> rfl

theorem topLevel_lowered (t : Tree) : (t.lowered p).topLevel = t.topLevel.map (lowered p) := by
  rw [topLevel, namedChildren_lowered, List.filterMap_map, topLevel, List.map_filterMap]
  refine congrArg (List.filterMap · _) (funext fun u => ?_)
  cases h : u.isExport <;> simp [h]

@[simp] theorem isVariableStatement_lowered (t : Tree) :
    (t.lowered p).isVariableStatement = t.isVariableStatement := by
  simp [isVariableStatement]

@[simp] theorem declarators_lowered (t : Tree) :
    (t.lowered p).declarators = t.declarators.map (lowered p) := by
  simp [declarators, List.filter_map, Function.comp_def]

theorem boundFunction?_lowered (t : Tree) :
    (t.lowered p).boundFunction? (source.lowered p) =
      (t.boundFunction? source).map (Declaration.lowered p) := by
  rw [boundFunction?, unparenthesizedField_lowered, name?_lowered, boundFunction?]
  cases t.name? source with
  | none => simp
  | some name =>
    cases (t.field? "value").bind unparenthesized with
    | none => simp
    | some value =>
      simp only [Option.map_some, kind_lowered]
      cases value.kind <;> rfl

theorem declarationsOf_lowered (t : Tree) :
    (t.lowered p).declarationsOf (source.lowered p) =
      (t.declarationsOf source).map (Declaration.lowered p) := by
  rw [declarationsOf, kind_lowered, name?_lowered, isVariableStatement_lowered,
    declarators_lowered, List.filterMap_map, declarationsOf]
  cases t.kind <;> cases t.isVariableStatement <;>
    simp [Declaration.lowered, boundFunction?_lowered, List.map_filterMap]

theorem declarations_lowered (t : Tree) :
    (t.lowered p).declarations (source.lowered p) =
      (t.declarations source).map (Declaration.lowered p) := by
  rw [declarations, topLevel_lowered, List.flatMap_map, declarations, List.map_flatMap]
  exact congrArg (List.flatMap · _) (funext declarationsOf_lowered)

end Tree

end ComponentSurvey
