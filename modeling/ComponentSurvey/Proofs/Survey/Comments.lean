import ComponentSurvey.Proofs.Survey.Ignorable

/-!
Comments say nothing in signatures, in classes and between declarations: each of them reads the same
without the comments in it.
-/

set_option autoImplicit false

namespace ComponentSurvey

/-- A comment as a parser leaves it: named, and under no field. -/
def Label.isRemark (l : Label) : Bool := l.type == "comment" && l.named && l.fields.isEmpty

theorem Label.type_of_isRemark {l : Label} (h : l.isRemark) : l.type = "comment" := by
  simp only [isRemark, Bool.and_eq_true, beq_iff_eq] at h
  exact h.1.1

theorem Label.named_of_isRemark {l : Label} (h : l.isRemark) : l.named := by
  simp only [isRemark, Bool.and_eq_true] at h
  exact h.1.2

instance : Label.Ignorable Label.isRemark where
  fields_eq_nil l h := by
    simp only [Label.isRemark, Bool.and_eq_true, List.isEmpty_iff] at h
    exact h.2
  type_of_named _ h _ := Label.type_of_isRemark h
  type_ne_heritage l h := by simp [Label.type_of_isRemark h]

namespace Tree

open Label (isRemark)

variable {source : Source}

theorem type_of_isRemark {t : Tree} (h : isRemark t.label) : t.type = "comment" :=
  Label.type_of_isRemark h

@[simp] theorem hasToken_prune (t : Tree) (token : String) :
    (t.prune isRemark).hasToken token = t.hasToken token := by
  rw [hasToken, children_prune, any_kept (by simp), hasToken]
  intro u _ hu
  have hn : u.named := Label.named_of_isRemark hu
  simp [hn]

@[simp] theorem typeText_prune (t : Option Tree) :
    typeText source (t.map (prune isRemark)) = typeText source t := by
  simp [typeText, Option.bind_map]

@[simp] theorem returnType?_prune (t : Tree) :
    (t.prune isRemark).returnType? source = t.returnType? source := by
  simp [returnType?]

@[simp] theorem isAsync_prune (t : Tree) : (t.prune isRemark).isAsync = t.isAsync := by
  simp [isAsync]

@[simp] theorem isGenerator_prune (t : Tree) :
    (t.prune isRemark).isGenerator = t.isGenerator := by
  simp [isGenerator]

@[simp] theorem parameter?_prune (t : Tree) :
    (t.prune isRemark).parameter? source = t.parameter? source := by
  simp [parameter?, Option.any_map, Function.comp_def]

@[simp] theorem parameters_prune (t : Tree) :
    (t.prune isRemark).parameters source = t.parameters source := by
  rw [parameters, field?_prune, field?_prune, parameters]
  cases t.field? "parameter" with
  | some single => simp
  | none =>
    cases t.field? "parameters" with
    | none => rfl
    | some ps =>
      refine (congrArg _ (namedChildren_prune ps)).trans (filterMap_kept parameter?_prune ?_)
      intro u _ hu
      simp [parameter?, isComment, type_of_isRemark hu]

@[simp] theorem calledNames_prune (t : Tree) :
    (t.prune isRemark).calledNames source = t.calledNames source := by
  simp [calledNames, descendantsOf_prune, List.filterMap_map, Option.bind_map]

theorem members_prune (t : Tree) : (t.prune isRemark).members = kept isRemark t.members := by
  rw [members, field?_prune, members]
  cases t.field? "body" with
  | none => rfl
  | some body => exact namedChildren_prune body

@[simp] theorem isClassField_prune (t : Tree) :
    (t.prune isRemark).isClassField = t.isClassField := by
  simp [isClassField]

@[simp] theorem isStatic_prune (t : Tree) : (t.prune isRemark).isStatic = t.isStatic := by
  simp [isStatic]

@[simp] theorem isPlainMethod_prune (t : Tree) :
    (t.prune isRemark).isPlainMethod source = t.isPlainMethod source := by
  simp [isPlainMethod]

@[simp] theorem heritageArgument?_prune (t : Tree) :
    (t.prune isRemark).heritageArgument? source = t.heritageArgument? source := by
  have hf : (t.prune isRemark).heritageClauses.flatMap extendsClauses =
      (t.heritageClauses.flatMap extendsClauses).map (prune isRemark) := by
    rw [heritageClauses_prune, List.flatMap_map, List.map_flatMap]
    simp only [extendsClauses_prune]
  rw [heritageArgument?, hf, List.findSome?_map, heritageArgument?]
  simp [Function.comp_def, Option.bind_map, contents_prune]

theorem isClassField_of_isRemark {t : Tree} (h : isRemark t.label) : t.isClassField = false := by
  simp [isClassField, type_of_isRemark h]

@[simp] theorem classProps?_prune (t : Tree) :
    (t.prune isRemark).classProps? source = t.classProps? source := by
  rw [classProps?, heritageArgument?_prune, members_prune, findSome?_kept, classProps?]
  · intro m
    simp
  · intro m _ hm
    simp [isClassField_of_isRemark hm]

theorem assignedState_prune (t : Tree) :
    (t.prune isRemark).assignedState source = t.assignedState source := by
  rw [assignedState, unparenthesizedField_prune, field?_prune, assignedState]
  cases t.field? "left" with
  | none => simp
  | some left =>
    cases (t.field? "right").bind unparenthesized with
    | none => simp
    | some right =>
      simp [Option.any_map, Function.comp_def, filter_type_prune (g := isRemark) right,
        List.filterMap_map]

@[simp] theorem classStateVariables_prune (t : Tree) :
    (t.prune isRemark).classStateVariables source = t.classStateVariables source := by
  rw [classStateVariables, members_prune, find?_kept, classStateVariables]
  · cases t.members.find? _ with
    | none => rfl
    | some c =>
      refine (congrArg _ (descendants_prune c)).trans (flatMap_kept assignedState_prune ?_)
      intro u _ hu
      simp [assignedState, type_of_isRemark hu]
  · intro m
    simp
  · intro m _ hm
    simp [type_of_isRemark hm]

end Tree

namespace Declaration

def prune (g : Label → Bool) (d : Declaration) : Declaration :=
  ⟨d.form, d.name, d.node.prune g, d.target.prune g⟩

end Declaration

namespace Tree

open Label (isRemark)

variable {source : Source}

theorem exported?_prune (t : Tree) :
    (t.prune isRemark).exported? = t.exported?.map (Tree.prune isRemark) := by
  rw [exported?, field?_prune, field?_prune, exported?]
  cases t.field? "declaration" <;> rfl

theorem isKept_of_exported? {t u : Tree} (h : t.exported? = some u) : u.isKept isRemark := by
  have hf (f : String) (hu : t.field? f = some u) : u.isKept isRemark := by
    refine isKept_of_not fun hl => ?_
    have hm := List.find?_some hu
    simp [marked, Label.Ignorable.fields_eq_nil u.label hl] at hm
  rw [exported?] at h
  cases hd : t.field? "declaration" with
  | none => exact hf "value" (by simpa [hd] using h)
  | some d => exact hf "declaration" (by simpa [hd] using h)

/-- What stands at the top level is left there, unless it is itself a comment. -/
theorem topLevel_prune (root : Tree) :
    (root.prune isRemark).topLevel = kept isRemark root.topLevel := by
  rw [topLevel, namedChildren_prune, topLevel]
  induction root.namedChildren with
  | nil => rfl
  | cons t ts ih =>
    cases ht : t.isKept isRemark with
    | false =>
      have he : t.isExport = false := by
        simp [isExport, type_of_isRemark (label_of_isKept_eq_false ht)]
      rw [kept_cons_of_not_isKept ht, ih, List.filterMap_cons, if_neg (by simp [he]),
        kept_cons_of_not_isKept ht]
    | true =>
      have he : (t.prune isRemark).isExport = t.isExport := by simp [isExport]
      rw [kept_cons_of_isKept ht, List.filterMap_cons, List.filterMap_cons, ih, he,
        exported?_prune]
      cases t.isExport with
      | false => exact (kept_cons_of_isKept ht _).symm
      | true =>
        cases hu : t.exported? with
        | none => rfl
        | some u => exact (kept_cons_of_isKept (isKept_of_exported? hu) _).symm

theorem isVariableStatement_prune (t : Tree) :
    (t.prune isRemark).isVariableStatement = t.isVariableStatement := by
  simp [isVariableStatement]

theorem declarators_prune (t : Tree) :
    (t.prune isRemark).declarators = t.declarators.map (Tree.prune isRemark) := by
  rw [declarators, namedChildren_prune, filter_kept (by simp), declarators]
  intro u _ hu
  simp [kind_eq_other hu]

theorem boundFunction?_prune (t : Tree) :
    (t.prune isRemark).boundFunction? source =
      (t.boundFunction? source).map (Declaration.prune isRemark) := by
  rw [boundFunction?, unparenthesizedField_prune, name?_prune, boundFunction?]
  cases t.name? source with
  | none => simp
  | some name =>
    cases (t.field? "value").bind unparenthesized with
    | none => simp
    | some value =>
      simp only [Option.map_some, kind_prune]
      cases value.kind <;> rfl

theorem declarationsOf_prune (t : Tree) :
    (t.prune isRemark).declarationsOf source =
      (t.declarationsOf source).map (Declaration.prune isRemark) := by
  rw [declarationsOf, kind_prune, name?_prune, isVariableStatement_prune, declarators_prune,
    List.filterMap_map, declarationsOf]
  cases t.kind <;> cases t.isVariableStatement <;>
    simp [Declaration.prune, boundFunction?_prune, List.map_filterMap]

theorem declarations_prune (root : Tree) :
    (root.prune isRemark).declarations source =
      (root.declarations source).map (Declaration.prune isRemark) := by
  rw [declarations, topLevel_prune, declarations, List.map_flatMap]
  refine flatMap_kept declarationsOf_prune fun u _ hu => ?_
  simp [declarationsOf, kind_eq_other hu, isVariableStatement, type_of_isRemark hu]

end Tree

end ComponentSurvey
