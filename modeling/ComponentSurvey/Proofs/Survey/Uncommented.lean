import ComponentSurvey.Proofs.Survey.Comments

/-!
Comments are invisible to a survey. Only the state variables of a function component may change when
a comment goes, since a comment can stand before the first name of a list pattern.
-/

set_option autoImplicit false

namespace ComponentSurvey

def Component.withoutBindings (c : Component) : Component :=
  if c.kind == "function" || c.kind == "arrow" then { c with stateVariables := [] } else c

def Survey.withoutBindings (s : Survey) : Survey :=
  { s with components := s.components.map Component.withoutBindings }

open Label (isRemark)

variable {source : Source}

namespace Tree

theorem map_fst_hookCalls_prune (t : Tree) :
    ((t.prune isRemark).hookCalls source).map (·.1) = (t.hookCalls source).map (·.1) := by
  rw [map_fst_hookCalls, descendants_prune, map_fst_hookCalls]
  refine filterMap_kept ?_ ?_
  · intro c
    simp
  · intro c _ hc
    simp [kind_eq_other hc]

@[simp] theorem hooks_hookUsage_prune (t : Tree) :
    ((t.prune isRemark).hookUsage source).hooks = (t.hookUsage source).hooks :=
  congrArg List.eraseDups (map_fst_hookCalls_prune t)

@[simp] theorem effects_hookUsage_prune (t : Tree) :
    ((t.prune isRemark).hookUsage source).effects = (t.hookUsage source).effects :=
  congrArg (List.filter (· == Convention.effectHook)) (map_fst_hookCalls_prune t)

theorem method_prune (t : Tree) (owner : String) :
    (t.prune isRemark).method source owner = t.method source owner := by
  simp [method]

end Tree

namespace Declaration

@[simp] theorem isComponentFunction_prune (d : Declaration) :
    (d.prune isRemark).isComponentFunction = d.isComponentFunction := by
  simp [isComponentFunction, prune]

theorem form_eq_of_ne {d : Declaration} (h : ¬ d.form == .classLike) :
    d.form = .function ∨ d.form = .arrow := by
  cases hd : d.form <;> simp_all

theorem functionComponent_prune {d : Declaration} (h : ¬ d.form == .classLike) :
    ((d.prune isRemark).functionComponent source).withoutBindings =
      (d.functionComponent source).withoutBindings := by
  have hk : d.form.name = "function" ∨ d.form.name = "arrow" := by
    rcases form_eq_of_ne h with hd | hd <;> simp [hd, DeclarationForm.name]
  simp [Component.withoutBindings, functionComponent, prune, displayName, properName?, hk]

theorem classComponent_prune (d : Declaration) :
    (d.prune isRemark).classComponent source = d.classComponent source := by
  simp [classComponent, prune, displayName, properName?]

theorem component?_prune (d : Declaration) :
    ((d.prune isRemark).component? source).map Component.withoutBindings =
      (d.component? source).map Component.withoutBindings := by
  have hf : (d.prune isRemark).form = d.form := rfl
  have hc : (d.prune isRemark).target.isComponentClass source =
      d.target.isComponentClass source := Tree.isComponentClass_prune d.target
  rw [component?, hf, hc, isComponentFunction_prune, classComponent_prune, component?]
  by_cases h : d.form == .classLike
  · rw [if_pos h, if_pos h]
  · rw [if_neg h, if_neg h]
    cases d.isComponentFunction with
    | false => rfl
    | true => exact congrArg some (functionComponent_prune h)

theorem callable_prune (d : Declaration) :
    (d.prune isRemark).callable source = d.callable source := by
  simp [callable, prune, displayName, properName?]

theorem callables_prune (d : Declaration) :
    (d.prune isRemark).callables source = d.callables source := by
  have hf : (d.prune isRemark).form = d.form := rfl
  have hm : ((d.prune isRemark).target.members.filter (Tree.isPlainMethod source)) =
      (d.target.members.filter (Tree.isPlainMethod source)).map (Tree.prune isRemark) := by
    rw [prune, Tree.members_prune, Tree.filter_kept Tree.isPlainMethod_prune]
    intro u _ hu
    simp [Tree.isPlainMethod, Tree.methodTypes, Tree.type_of_isRemark hu]
  rw [callables, hf, hm, isComponentFunction_prune, callable_prune, List.map_map, callables]
  simp [Function.comp_def, Tree.method_prune, prune, displayName, properName?]

end Declaration

namespace Tree

theorem components_prune (root : Tree) :
    ((root.prune isRemark).components source).map Component.withoutBindings =
      (root.components source).map Component.withoutBindings := by
  rw [components, declarations_prune, List.filterMap_map, List.map_filterMap, components,
    List.map_filterMap]
  exact congrArg (List.filterMap · _) (funext Declaration.component?_prune)

theorem callables_prune (root : Tree) :
    (root.prune isRemark).callables source = root.callables source := by
  rw [callables, declarations_prune, List.flatMap_map, callables]
  exact congrArg (List.flatMap · _) (funext Declaration.callables_prune)

theorem find?_namedChildren_prune (t : Tree) {p : Tree → Bool}
    (hp : ∀ u, p (u.prune isRemark) = p u) (hc : ∀ u, u.type = "comment" → p u = false) :
    (t.prune isRemark).namedChildren.find? p =
      (t.namedChildren.find? p).map (prune isRemark) := by
  rw [namedChildren_prune, find?_kept hp fun u _ hu => hc u (type_of_isRemark hu)]

theorem identifierChild?_prune (t : Tree) :
    (t.prune isRemark).identifierChild? = t.identifierChild?.map (prune isRemark) := by
  refine find?_namedChildren_prune t (by simp) fun u hu => ?_
  simp [hu]

theorem clauseBindings_prune (t : Tree) (typeOnly : Bool) :
    (t.prune isRemark).clauseBindings source typeOnly = t.clauseBindings source typeOnly := by
  simp [clauseBindings, identifierChild?_prune, filter_type_prune (g := isRemark) t,
    Function.comp_def]

theorem importBindings_prune (t : Tree) (typeOnly : Bool) :
    (t.prune isRemark).importBindings source typeOnly = t.importBindings source typeOnly := by
  have hb : (t.prune isRemark).namedChildren.flatMap (clauseBindings source typeOnly) =
      t.namedChildren.flatMap (clauseBindings source typeOnly) := by
    rw [namedChildren_prune]
    refine flatMap_kept (clauseBindings_prune · typeOnly) fun u _ hu => ?_
    simp [clauseBindings, type_of_isRemark hu]
  simp [importBindings, isRequireClause, identifierChild?_prune, hb]

theorem moduleLiteral?_prune (t : Tree) :
    (t.prune isRemark).moduleLiteral? = t.moduleLiteral?.map (prune isRemark) := by
  have hr : (t.prune isRemark).namedChildren.filter isRequireClause =
      (t.namedChildren.filter isRequireClause).map (prune isRemark) :=
    filter_type_prune t (by decide)
  rw [moduleLiteral?, hr, List.getLast?_map, field?_prune, moduleLiteral?]
  cases (t.namedChildren.filter isRequireClause).getLast? <;> simp

theorem importRecord_prune (t : Tree) :
    (t.prune isRemark).importRecord source = t.importRecord source := by
  have hb (typeOnly : Bool) :
      (t.prune isRemark).namedChildren.flatMap (importBindings source typeOnly) =
        t.namedChildren.flatMap (importBindings source typeOnly) := by
    rw [namedChildren_prune]
    refine flatMap_kept (importBindings_prune · typeOnly) fun u _ hu => ?_
    simp [importBindings, isRequireClause, type_of_isRemark hu]
  simp [importRecord, hb, moduleLiteral?_prune]

theorem imports_prune (root : Tree) :
    (root.prune isRemark).imports source = root.imports source := by
  rw [imports, filter_type_prune root (by decide), List.map_map, imports]
  exact congrArg (List.map · _) (funext importRecord_prune)

theorem childOfType?_prune (t : Tree) {type : String} (h : type ≠ "comment") :
    (t.prune isRemark).childOfType? type = (t.childOfType? type).map (prune isRemark) := by
  refine find?_namedChildren_prune t (by simp) fun u hu => ?_
  simpa [hu] using h.symm

@[simp] theorem exportKind_prune (t : Tree) : (t.prune isRemark).exportKind = t.exportKind := by
  simp [exportKind]

theorem declaredNames_prune (t : Tree) :
    (t.prune isRemark).declaredNames source = t.declaredNames source := by
  simp [declaredNames, isVariableStatement_prune, declarators_prune, List.filterMap_map]

theorem listedExports_prune (t : Tree) (typeOnly : Bool) :
    (t.prune isRemark).listedExports source typeOnly = t.listedExports source typeOnly := by
  simp [listedExports, filter_type_prune (g := isRemark) t, Function.comp_def]

theorem defaultExport_prune (t : Tree) :
    (t.prune isRemark).defaultExport source = t.defaultExport source := by
  simp [defaultExport, exported?_prune, nameOf, Option.bind_map, Function.comp_def]

theorem namespaceName_map_prune (t : Option Tree) :
    namespaceName source (t.map (prune isRemark)) = namespaceName source t := by
  cases t with
  | none => rfl
  | some c =>
    have hc : (c.prune isRemark).namedChildren.find?
          (fun t => t.type == "identifier" || t.type == "string") =
        (c.namedChildren.find? fun t => t.type == "identifier" || t.type == "string").map
          (prune isRemark) := by
      refine find?_namedChildren_prune c (by simp) fun u hu => ?_
      simp [hu]
    simp [namespaceName, hc, Function.comp_def]

theorem exportsOf_prune (t : Tree) :
    (t.prune isRemark).exportsOf source = t.exportsOf source := by
  have hh : textOf source (t.prune isRemark).contents.head? =
      textOf source t.contents.head? := by
    rw [contents_prune, List.head?_map, textOf_map_prune]
  rw [exportsOf, childOfType?_prune t (by decide), childOfType?_prune t (by decide), hh,
    namespaceName_map_prune, field?_prune, defaultExport_prune, exportsOf]
  cases t.childOfType? "export_clause" with
  | some clause => simp [listedExports_prune]
  | none =>
    cases t.field? "declaration" with
    | none => simp [namespaceExport]
    | some declaration => simp [namespaceExport, declaredNames_prune]

theorem exports_prune (root : Tree) :
    (root.prune isRemark).exports source = root.exports source := by
  have he : (root.prune isRemark).namedChildren.filter isExport =
      (root.namedChildren.filter isExport).map (prune isRemark) :=
    filter_type_prune root (by decide)
  rw [exports, he, List.flatMap_map, exports]
  exact congrArg (List.flatMap · _) (funext exportsOf_prune)

theorem filter_topLevel_prune (root : Tree) {type : String} (h : type ≠ "comment") :
    (root.prune isRemark).topLevel.filter (·.type == type) =
      (root.topLevel.filter (·.type == type)).map (prune isRemark) := by
  rw [topLevel_prune, filter_kept (by simp)]
  intro u _ hu
  simpa [type_of_isRemark hu] using h.symm

theorem property_prune (t : Tree) : (t.prune isRemark).property source = t.property source := by
  simp [property]

theorem properties_prune (t : Tree) :
    (t.prune isRemark).properties source = t.properties source := by
  rw [properties, field?_prune, properties]
  cases t.field? "body" with
  | none => rfl
  | some body => simp [filter_type_prune (g := isRemark) body, property_prune]

theorem extendedTypes_prune (t : Tree) :
    (t.prune isRemark).extendedTypes source = t.extendedTypes source := by
  simp [extendedTypes, filter_type_prune (g := isRemark) t, List.flatMap_map, contents_prune,
    Function.comp_def]

theorem interfaces_prune (root : Tree) :
    (root.prune isRemark).interfaces source = root.interfaces source := by
  simp [interfaces, filter_topLevel_prune, interfaceRecord, properties_prune,
    extendedTypes_prune]

theorem typeAliases_prune (root : Tree) :
    (root.prune isRemark).typeAliases source = root.typeAliases source := by
  simp [typeAliases, filter_topLevel_prune, typeAliasRecord]

end Tree

namespace Declaration

theorem customHook?_prune (d : Declaration) (weight : Json) :
    (d.prune isRemark).customHook? source weight = d.customHook? source weight := by
  simp [customHook?, prune]

theorem higherOrder?_prune (d : Declaration) (weight : Json) :
    (d.prune isRemark).higherOrder? source weight = d.higherOrder? source weight := by
  simp [higherOrder?, prune]

theorem any_members_prune (t : Tree) {p : Tree → Bool}
    (hp : ∀ u, p (u.prune isRemark) = p u) (hc : ∀ u, u.type = "comment" → p u = false) :
    (t.prune isRemark).members.any p = t.members.any p := by
  rw [Tree.members_prune, Tree.any_kept hp fun u _ hu => hc u (Tree.type_of_isRemark hu)]

theorem singleton?_prune (d : Declaration) (weight : Json) :
    (d.prune isRemark).singleton? source weight = d.singleton? source weight := by
  have hi : (d.target.prune isRemark).members.any
        (fun m => m.isClassField && m.isStatic && m.name? source == some "instance") =
      d.target.members.any
        fun m => m.isClassField && m.isStatic && m.name? source == some "instance" := by
    refine any_members_prune d.target (by simp) fun u hu => ?_
    simp [Tree.isClassField, hu]
  have hg : (d.target.prune isRemark).members.any
        (fun m => m.type == "method_definition" && m.isStatic &&
          m.name? source == some "getInstance") =
      d.target.members.any fun m => m.type == "method_definition" && m.isStatic &&
        m.name? source == some "getInstance" := by
    refine any_members_prune d.target (by simp) fun u hu => ?_
    simp [hu]
  simp only [singleton?, prune, properName?, hi, hg, Tree.location_prune]

theorem factory?_prune (d : Declaration) (weight : Json) :
    (d.prune isRemark).factory? source weight = d.factory? source weight := by
  simp [factory?, prune, Tree.descendantsOf_prune]

end Declaration

namespace Tree

theorem patterns_prune (root : Tree) (table : Weights) (imports : List Import) :
    (root.prune isRemark).patterns source table imports = root.patterns source table imports := by
  simp only [patterns, frameworkPatterns, declarations_prune, List.filterMap_map,
    List.findSome?_map, findSome?_context_prune, Function.comp_def,
    Declaration.customHook?_prune, Declaration.higherOrder?_prune, Declaration.singleton?_prune,
    Declaration.factory?_prune]

end Tree

namespace Survey

variable (table : Weights) (path : String)

theorem ofTree_prune (root : Tree) :
    (ofTree table path source (root.prune isRemark)).withoutBindings =
      (ofTree table path source root).withoutBindings := by
  simp only [ofTree, withoutBindings, Tree.metricsOver_prune, Tree.components_prune,
    Tree.callables_prune, Tree.hooks_prune, Tree.imports_prune, Tree.exports_prune,
    Tree.interfaces_prune, Tree.typeAliases_prune, Tree.patterns_prune]

theorem ofSource_eq {t : Tree} (h : t.firstBroken? = none) :
    ofSource table path source t =
      (Language.ofPath path).map fun _ => ofTree table path source t := by
  rw [ofSource, checkedTree_eq, h]
  cases Language.ofPath path <;> rfl

end Survey

theorem Tree.Thinned.firstBroken?_eq_none {g : Label → Bool} {t u : Tree} (h : Thinned g t u)
    (ht : t.firstBroken? = none) : u.firstBroken? = none := by
  have hl := h.all_preorder (fun l => !l.isBroken)
  simp only [List.all_eq_true, Bool.not_eq_true'] at hl
  simp only [firstBroken?, List.find?_eq_none, Bool.not_eq_true] at ht ⊢
  exact hl ht

/-- A source without syntax errors is surveyed alike, but for the state variables of function
components, whichever comments are left out of its tree. -/
theorem Survey.ofSource_of_thinned (source : Source) (table : Weights) (path : String)
    {t u : Tree} (ht : t.firstBroken? = none) (h : Tree.Thinned isRemark t u) :
    (ofSource table path source u).map withoutBindings =
      (ofSource table path source t).map withoutBindings := by
  have hs : (ofTree table path source u).withoutBindings =
      (ofTree table path source t).withoutBindings := by
    rw [← ofTree_prune, ← h.prune_eq, ofTree_prune]
  rw [ofSource_eq table path ht, ofSource_eq table path (h.firstBroken?_eq_none ht)]
  cases Language.ofPath path with
  | error f => rfl
  | ok l => exact congrArg Except.ok hs

/-- The tree of `function A(){return/**/<a/>}`, with what stands after the word `return`. -/
def Tree.returning (results : List Tree) : Tree :=
  .node ⟨"program", true, false, ⟨0, 28⟩, []⟩
    [.node ⟨"function_declaration", true, false, ⟨0, 28⟩, []⟩
      [.node ⟨"identifier", true, false, ⟨9, 10⟩, ["name"]⟩ [],
        .node ⟨"formal_parameters", true, false, ⟨10, 12⟩, ["parameters"]⟩ [],
        .node ⟨"statement_block", true, false, ⟨12, 28⟩, ["body"]⟩
          [.node ⟨"return_statement", true, false, ⟨13, 27⟩, []⟩ results]]]

theorem Survey.ofSource_of_thinned_returning :
    let remark := Tree.node ⟨"comment", true, false, ⟨19, 23⟩, []⟩ []
    let element := Tree.node ⟨"jsx_self_closing_element", true, false, ⟨23, 27⟩, []⟩ []
    let source := Source.ofBytes "function A(){return/**/<a/>}".toUTF8.toList
    (Survey.ofSource [] "a.tsx" source (Tree.returning [element])).map withoutBindings =
      (Survey.ofSource [] "a.tsx" source (Tree.returning [remark, element])).map
        withoutBindings := by
  intro remark element source
  refine ofSource_of_thinned source [] "a.tsx" (by decide) ?_
  have hn (l : Label) : Tree.Thinned isRemark (.node l []) (.node l []) := .node .nil
  have hr : Tree.ThinnedList isRemark [remark, element] [element] :=
    .drop (by decide) (.keep (hn _) .nil)
  have hb : Tree.ThinnedList isRemark [.node ⟨"return_statement", true, false, ⟨13, 27⟩, []⟩
      [remark, element]] [.node ⟨"return_statement", true, false, ⟨13, 27⟩, []⟩ [element]] :=
    .keep (.node hr) .nil
  exact .node (.keep (.node (.keep (hn _) (.keep (hn _) (.keep (.node hb) .nil)))) .nil)

end ComponentSurvey
