import ComponentSurvey.Analysis
import ComponentSurvey.Proofs.Survey.Undisturbed

/-!
Surveys below a preface. A survey says the same of a source wherever whole lines are put before it:
only the lines that it reports, and the number of lines of the file, grow by those of the preface.
-/

set_option autoImplicit false

namespace ComponentSurvey

variable (p : Preface)

def Component.lowered (c : Component) : Component := { c with location := c.location.lowered p }

def Callable.lowered (f : Callable) : Callable := { f with location := f.location.lowered p }

def Hook.lowered (h : Hook) : Hook := { h with location := h.location.lowered p }

def Import.lowered (i : Import) : Import := { i with location := i.location.lowered p }

def Export.lowered (e : Export) : Export := { e with location := e.location.lowered p }

def Interface.lowered (i : Interface) : Interface := { i with location := i.location.lowered p }

def TypeAlias.lowered (t : TypeAlias) : TypeAlias := { t with location := t.location.lowered p }

def Pattern.lowered (q : Pattern) : Pattern := { q with location := q.location.lowered p }

def Metrics.lowered (m : Metrics) : Metrics := { m with linesOfCode := m.linesOfCode + p.lines }

def Survey.lowered (s : Survey) : Survey where
  filePath := s.filePath
  complexity := s.complexity.lowered p
  components := s.components.map (Component.lowered p)
  functions := s.functions.map (Callable.lowered p)
  hooks := s.hooks.map (Hook.lowered p)
  imports := s.imports.map (Import.lowered p)
  exports := s.exports.map (Export.lowered p)
  interfaces := s.interfaces.map (Interface.lowered p)
  types := s.types.map (TypeAlias.lowered p)
  dependencies := s.dependencies
  patterns := s.patterns.map (Pattern.lowered p)

def Failure.lowered : Failure → Failure
  | .brokenSource path reason line column =>
    .brokenSource path reason (line.map (· + (p.lines : Int))) column
  | f => f

variable {p} {source : Source}

namespace Declaration

theorem functionComponent_lowered (d : Declaration) :
    (d.lowered p).functionComponent (source.lowered p) =
      (d.functionComponent source).lowered p := by
  simp [functionComponent, Component.lowered, lowered, displayName, properName?]

theorem classComponent_lowered (d : Declaration) :
    (d.lowered p).classComponent (source.lowered p) = (d.classComponent source).lowered p := by
  simp [classComponent, Component.lowered, lowered, displayName, properName?]

theorem component?_lowered (d : Declaration) :
    (d.lowered p).component? (source.lowered p) =
      (d.component? source).map (Component.lowered p) := by
  have hc : (d.lowered p).target.isComponentClass (source.lowered p) =
      d.target.isComponentClass source := Tree.isComponentClass_lowered d.target
  have hf : (d.lowered p).form = d.form := rfl
  rw [component?, hf, hc, isComponentFunction_lowered, functionComponent_lowered,
    classComponent_lowered, component?]
  cases d.form == .classLike
  · cases d.isComponentFunction <;> rfl
  · cases d.target.isComponentClass source <;> rfl

theorem callable_lowered (d : Declaration) :
    (d.lowered p).callable (source.lowered p) = (d.callable source).lowered p := by
  simp [callable, Callable.lowered, lowered, displayName, properName?]

end Declaration

theorem Tree.method_lowered (t : Tree) (owner : String) :
    (t.lowered p).method (source.lowered p) owner = (t.method source owner).lowered p := by
  simp [method, Callable.lowered]

theorem Declaration.callables_lowered (d : Declaration) :
    (d.lowered p).callables (source.lowered p) =
      (d.callables source).map (Callable.lowered p) := by
  have hm : (d.lowered p).target.members.filter (Tree.isPlainMethod (source.lowered p)) =
      (d.target.members.filter (Tree.isPlainMethod source)).map (Tree.lowered p) := by
    simp [lowered, List.filter_map, Function.comp_def]
  have ho : (d.lowered p).displayName = d.displayName := rfl
  have hf : (d.lowered p).form = d.form := rfl
  rw [callables, hm, ho, hf, isComponentFunction_lowered, callable_lowered, callables]
  by_cases h : d.form = .classLike
  · simp [h, Tree.method_lowered]
  · cases hc : d.isComponentFunction <;> simp [h]

namespace Tree

variable (root : Tree)

theorem components_lowered : (root.lowered p).components (source.lowered p) =
    (root.components source).map (Component.lowered p) := by
  rw [components, declarations_lowered, List.filterMap_map, components, List.map_filterMap]
  exact congrArg (List.filterMap · _) (funext Declaration.component?_lowered)

theorem callables_lowered : (root.lowered p).callables (source.lowered p) =
    (root.callables source).map (Callable.lowered p) := by
  rw [callables, declarations_lowered, List.flatMap_map, callables, List.map_flatMap]
  exact congrArg (List.flatMap · _) (funext Declaration.callables_lowered)

theorem hooks_lowered : (root.lowered p).hooks (source.lowered p) =
    (root.hooks source).map (Hook.lowered p) := by
  simp [hooks, hookCalls_lowered, Node.hook, Hook.lowered]

theorem identifierChild?_lowered (t : Tree) :
    (t.lowered p).identifierChild? = t.identifierChild?.map (lowered p) := by
  simp [identifierChild?, List.find?_map]

theorem clauseBindings_lowered (t : Tree) (typeOnly : Bool) :
    (t.lowered p).clauseBindings (source.lowered p) typeOnly =
      t.clauseBindings source typeOnly := by
  simp [clauseBindings, identifierChild?_lowered, List.filter_map, Function.comp_def]

theorem importBindings_lowered (t : Tree) (typeOnly : Bool) :
    (t.lowered p).importBindings (source.lowered p) typeOnly =
      t.importBindings source typeOnly := by
  simp [importBindings, isRequireClause, identifierChild?_lowered, List.flatMap_map,
    clauseBindings_lowered]

theorem moduleLiteral?_lowered (t : Tree) :
    (t.lowered p).moduleLiteral? = t.moduleLiteral?.map (lowered p) := by
  have hr : (t.lowered p).namedChildren.filter isRequireClause =
      (t.namedChildren.filter isRequireClause).map (lowered p) := filter_type_lowered t _
  rw [moduleLiteral?, hr, List.getLast?_map, field?_lowered, moduleLiteral?]
  cases (t.namedChildren.filter isRequireClause).getLast? <;> simp

theorem importRecord_lowered (t : Tree) :
    (t.lowered p).importRecord (source.lowered p) = (t.importRecord source).lowered p := by
  simp [importRecord, Import.lowered, moduleLiteral?_lowered, List.flatMap_map,
    importBindings_lowered]

theorem imports_lowered : (root.lowered p).imports (source.lowered p) =
    (root.imports source).map (Import.lowered p) := by
  simp [imports, List.filter_map, Function.comp_def, importRecord_lowered]

@[simp] theorem childOfType?_lowered (t : Tree) (type : String) :
    (t.lowered p).childOfType? type = (t.childOfType? type).map (lowered p) := by
  simp [childOfType?, List.find?_map]

@[simp] theorem exportKind_lowered (t : Tree) : (t.lowered p).exportKind = t.exportKind := by
  simp [exportKind]

@[simp] theorem declaredNames_lowered (t : Tree) :
    (t.lowered p).declaredNames (source.lowered p) = t.declaredNames source := by
  simp [declaredNames, List.filterMap_map]

theorem listedExports_lowered (t : Tree) (typeOnly : Bool) :
    (t.lowered p).listedExports (source.lowered p) typeOnly =
      (t.listedExports source typeOnly).map (Export.lowered p) := by
  simp [listedExports, Export.lowered, List.filter_map, Function.comp_def]

theorem defaultExport_lowered (t : Tree) :
    (t.lowered p).defaultExport (source.lowered p) = (t.defaultExport source).lowered p := by
  simp [defaultExport, Export.lowered, Option.bind_map, Function.comp_def]

theorem namespaceExport_lowered (t : Tree) (name : String) :
    (t.lowered p).namespaceExport (source.lowered p) name =
      (t.namespaceExport source name).lowered p := by
  simp [namespaceExport, Export.lowered]

theorem namespaceName_map_lowered (t : Option Tree) :
    namespaceName (source.lowered p) (t.map (lowered p)) = namespaceName source t := by
  cases t <;> simp [namespaceName, List.find?_map, Function.comp_def]

theorem exportsOf_lowered (t : Tree) :
    (t.lowered p).exportsOf (source.lowered p) = (t.exportsOf source).map (Export.lowered p) := by
  simp only [exportsOf, childOfType?_lowered, hasToken_lowered, contents_lowered, List.head?_map,
    textOf_map_lowered, Option.isSome_map, namespaceName_map_lowered, field?_lowered,
    defaultExport_lowered, namespaceExport_lowered]
  cases t.childOfType? "export_clause" with
  | some clause => exact listedExports_lowered clause _
  | none =>
    cases t.field? "declaration" with
    | none => simp [apply_ite (List.map (Export.lowered p))]
    | some declaration =>
      simp [apply_ite (List.map (Export.lowered p)), Export.lowered, Function.comp_def]

theorem exports_lowered : (root.lowered p).exports (source.lowered p) =
    (root.exports source).map (Export.lowered p) := by
  simp [exports, List.filter_map, Function.comp_def, List.flatMap_map, List.map_flatMap,
    exportsOf_lowered]

theorem property_lowered (t : Tree) :
    (t.lowered p).property (source.lowered p) = t.property source := by
  simp [property]

theorem properties_lowered (t : Tree) :
    (t.lowered p).properties (source.lowered p) = t.properties source := by
  rw [properties, field?_lowered, properties]
  cases t.field? "body" with
  | none => rfl
  | some body => simp [List.filter_map, Function.comp_def, property_lowered]

theorem extendedTypes_lowered (t : Tree) :
    (t.lowered p).extendedTypes (source.lowered p) = t.extendedTypes source := by
  simp [extendedTypes, List.filter_map, Function.comp_def, List.flatMap_map]

theorem interfaces_lowered : (root.lowered p).interfaces (source.lowered p) =
    (root.interfaces source).map (Interface.lowered p) := by
  simp [interfaces, topLevel_lowered, List.filter_map, Function.comp_def, interfaceRecord,
    Interface.lowered, properties_lowered, extendedTypes_lowered]

theorem typeAliases_lowered : (root.lowered p).typeAliases (source.lowered p) =
    (root.typeAliases source).map (TypeAlias.lowered p) := by
  simp [typeAliases, topLevel_lowered, List.filter_map, Function.comp_def, typeAliasRecord,
    TypeAlias.lowered]

end Tree

namespace Import

theorem frameworkName?_lowered (imports : List Import) :
    frameworkName? (imports.map (lowered p)) = frameworkName? imports := by
  simp only [frameworkName?, List.filter_map, Function.comp_def, List.findSome?_map, lowered,
    bindsFramework, List.isEmpty_map]
  rfl

theorem dependencies_lowered (path : String) (imports : List Import) :
    dependencies path (imports.map (lowered p)) = dependencies path imports := by
  simp [dependencies, lowered]

end Import

namespace Declaration

variable (d : Declaration) (weight : Json)

theorem customHook?_lowered : (d.lowered p).customHook? (source.lowered p) weight =
    (d.customHook? source weight).map (Pattern.lowered p) := by
  rw [customHook?, customHook?, apply_ite (Option.map (Pattern.lowered p)), Option.map_map]
  simp [lowered, Pattern.lowered, Function.comp_def]

theorem higherOrder?_lowered : (d.lowered p).higherOrder? (source.lowered p) weight =
    (d.higherOrder? source weight).map (Pattern.lowered p) := by
  rw [higherOrder?, higherOrder?, apply_ite (Option.map (Pattern.lowered p)), Option.map_bind]
  simp [lowered, Pattern.lowered, Function.comp_def, apply_ite (Option.map (Pattern.lowered p))]

theorem singleton?_lowered : (d.lowered p).singleton? (source.lowered p) weight =
    (d.singleton? source weight).map (Pattern.lowered p) := by
  rw [singleton?, singleton?, apply_ite (Option.map (Pattern.lowered p))]
  simp [lowered, Pattern.lowered, properName?, Function.comp_def]

theorem factory?_lowered : (d.lowered p).factory? (source.lowered p) weight =
    (d.factory? source weight).map (Pattern.lowered p) := by
  rw [factory?, factory?, apply_ite (Option.map (Pattern.lowered p)), Option.map_bind]
  simp [lowered, Pattern.lowered, Function.comp_def, apply_ite (Option.map (Pattern.lowered p))]

end Declaration

theorem Node.context?_lowered (n : Node) (framework : String) (weight : Json) :
    (n.lowered p).context? (source.lowered p) framework weight =
      (n.context? source framework weight).map (Pattern.lowered p) := by
  rw [context?, context?, apply_ite (Option.map (Pattern.lowered p)), parent?_lowered]
  simp [Pattern.lowered, Option.bind_map]

namespace Tree

variable (root : Tree) (table : Weights)

theorem frameworkPatterns_lowered (framework : String) :
    (root.lowered p).frameworkPatterns (source.lowered p) table framework =
      (root.frameworkPatterns source table framework).map (Pattern.lowered p) := by
  simp only [frameworkPatterns, declarations_lowered, Node.descendants_lowered,
    List.filterMap_map, List.findSome?_map, Function.comp_def, Declaration.customHook?_lowered,
    Declaration.higherOrder?_lowered, Node.context?_lowered, List.map_append, List.map_filterMap,
    ← Option.toList_map, List.map_findSome?]

theorem patterns_lowered (imports : List Import) :
    (root.lowered p).patterns (source.lowered p) table (imports.map (Import.lowered p)) =
      (root.patterns source table imports).map (Pattern.lowered p) := by
  simp only [patterns, declarations_lowered, Import.frameworkName?_lowered,
    frameworkPatterns_lowered, List.findSome?_map, Function.comp_def,
    Declaration.singleton?_lowered, Declaration.factory?_lowered, List.map_append,
    ← Option.toList_map, List.map_findSome?]
  cases Import.frameworkName? imports <;> rfl

theorem metricsOver_lowered (lines : Nat) :
    (root.lowered p).metricsOver (lines + p.lines : Nat) = (root.metricsOver lines).lowered p := by
  rw [metricsOver, ofForest_children_lowered, metricsOver]
  simp [Metrics.lowered]

theorem firstBroken?_lowered :
    (root.lowered p).firstBroken? = root.firstBroken?.map (lowered p) := by
  simp [firstBroken?, preorder_lowered, List.find?_map, Label.isBroken,
    Label.lowered]

theorem syntaxFailure_lowered (path : String) :
    (root.lowered p).syntaxFailure (source.lowered p) path =
      (root.syntaxFailure source path).lowered p := by
  simp [syntaxFailure, Failure.lowered, brokenReason, Label.lowered, Location.lowered]

end Tree

theorem Language.lowered_of_ofPath {path : String} {f : Failure} (h : ofPath path = .error f) :
    f.lowered p = f := by
  unfold ofPath ofSuffix at h
  split at h
  · cases h
  · cases h
    rfl

namespace Survey

variable (table : Weights) (path : String) (root : Tree)

theorem ofTree_lowered : ofTree table path (source.lowered p) (root.lowered p) =
    (ofTree table path source root).lowered p := by
  simp only [ofTree, lowered, Source.lineCount_lowered, Tree.metricsOver_lowered,
    Tree.components_lowered, Tree.callables_lowered, Tree.hooks_lowered, Tree.imports_lowered,
    Tree.exports_lowered, Tree.interfaces_lowered, Tree.typeAliases_lowered,
    Import.dependencies_lowered, Tree.patterns_lowered]

/-- A source below a preface gives the survey, or the failure, of the source itself, with the lines
lowered. -/
theorem ofSource_lowered (p : Preface) (source : Source) (table : Weights) (path : String)
    (root : Tree) : ofSource table path (source.lowered p) (root.lowered p) =
      ((ofSource table path source root).map (lowered p)).mapError (Failure.lowered p) := by
  rw [ofSource, checkedTree_eq, root.firstBroken?_lowered, ofSource, checkedTree_eq]
  cases hl : Language.ofPath path with
  | error f => exact congrArg Except.error (Language.lowered_of_ofPath hl).symm
  | ok l =>
    cases root.firstBroken? with
    | some b => exact congrArg Except.error (b.syntaxFailure_lowered path)
    | none => exact congrArg Except.ok (ofTree_lowered table path root)

end Survey

end ComponentSurvey
