import ComponentSurvey.Proofs.Survey.DirectExports

/-!
Exports of variable statements. Each variable with a name of its own is exported under it. A pattern is
no such name: the variables that it binds are not among the exports, and a statement that binds
patterns only is not there at all.
-/

set_option autoImplicit false

namespace ComponentSurvey.Tree

/-- An export statement of a declaration: no list of names, no module and no assignment. It may be the
default export. -/
structure ExportsDeclaration (s d : Tree) : Prop where
  isExport : s.isExport
  declaration : s.field? "declaration" = some d
  no_clause : s.childOfType? "export_clause" = none
  no_namespace : s.childOfType? "namespace_export" = none
  no_assignment : s.hasToken "=" = false
  no_module : s.hasToken "*" = false

def exportOfVariable? (source : Source) (s declarator : Tree) : Option Export :=
  (declarator.properName? source).map fun name => ⟨name, "named", s.location source, "value"⟩

variable {source : Source} {s d v n : Tree}

theorem exportKind_of_isVariableStatement (h : d.isVariableStatement) : d.exportKind = "value" := by
  have ht : d.type = "lexical_declaration" ∨ d.type = "variable_declaration" := by
    simpa [isVariableStatement] using h
  rcases ht with ht | ht <;> simp [exportKind, ht]

theorem properName?_of_identifier (h : v.field? "name" = some n) (hn : n.type = "identifier")
    (ht : n.text source ≠ "") : v.properName? source = some (n.text source) := by
  simp [properName?, name?, h, hn, identifierTypes, Option.filter, ht]

theorem properName?_of_pattern (h : v.field? "name" = some n)
    (hn : n.type = "object_pattern" ∨ n.type = "array_pattern") : v.properName? source = none := by
  rcases hn with hn | hn <;> simp [properName?, name?, h, hn, identifierTypes]

namespace ExportsDeclaration

variable (h : s.ExportsDeclaration d)
include h

theorem exportsOf_default (hd : s.hasToken "default") :
    s.exportsOf source = [s.defaultExport source] := by
  simp [exportsOf, h.no_clause, hd]

theorem exportsOf_variables (source : Source) (hv : d.isVariableStatement)
    (hd : s.hasToken "default" = false) :
    s.exportsOf source = d.declarators.filterMap (exportOfVariable? source s) := by
  have hn : d.declaredNames source = d.declarators.filterMap (properName? source) := if_pos hv
  simp only [exportsOf, h.no_clause, hd, h.no_assignment, h.no_namespace, h.no_module,
    h.declaration, hn, exportKind_of_isVariableStatement hv, Bool.false_eq_true, if_false,
    Option.isSome_none, Bool.or_self, List.map_filterMap]
  rfl

end ExportsDeclaration

theorem exportsOf_within {root : Tree} (hs : s ∈ root.namedChildren) (he : s.isExport) :
    s.exportsOf source <:+: root.exports source := by
  obtain ⟨before, after, h⟩ := List.append_of_mem (List.mem_filter.2 ⟨hs, he⟩)
  refine ⟨before.flatMap (exportsOf source), after.flatMap (exportsOf source), ?_⟩
  rw [exports, h, List.flatMap_append, List.flatMap_cons, List.append_assoc]

/-- The exports of a variable statement are those of its variables, in their order. A variable with a
name of its own is exported under this name; one that binds a pattern is not exported. So nothing of
the statement is exported when no variable of it has a name of its own. Behind `default` there is one
export of the whole statement instead. -/
theorem variables_exported_by_name (source : Source) {root s d : Tree} (hs : s ∈ root.namedChildren)
    (h : s.ExportsDeclaration d) (hv : d.isVariableStatement) :
    s.exportsOf source <:+: root.exports source ∧
      (s.hasToken "default" → s.exportsOf source = [s.defaultExport source]) ∧
      (s.hasToken "default" = false →
        s.exportsOf source = d.declarators.filterMap (exportOfVariable? source s) ∧
        (s.exportsOf source = [] ↔ ∀ v ∈ d.declarators, v.properName? source = none)) ∧
      ∀ v ∈ d.declarators, ∀ n, v.field? "name" = some n →
        (n.type = "identifier" → n.text source ≠ "" → exportOfVariable? source s v =
          some ⟨n.text source, "named", s.location source, "value"⟩) ∧
        (n.type = "object_pattern" ∨ n.type = "array_pattern" →
          exportOfVariable? source s v = none) := by
  refine ⟨exportsOf_within hs h.isExport, h.exportsOf_default, fun hd => ?_, fun v _ n hn => ?_⟩
  · have he := h.exportsOf_variables source hv hd
    refine ⟨he, ?_⟩
    rw [he, List.filterMap_eq_nil_iff]
    simp [exportOfVariable?]
  · refine ⟨fun hi ht => ?_, fun hp => ?_⟩
    · rw [exportOfVariable?, properName?_of_identifier hn hi ht]
      rfl
    · rw [exportOfVariable?, properName?_of_pattern hn hp]
      rfl

/-- The tree of `const…` at offset 7, with what stands behind this word. -/
def constOf (declarators : List Tree) (stop : Nat) : Tree :=
  .node ⟨"lexical_declaration", true, false, ⟨7, stop⟩, ["declaration"]⟩
    (.node ⟨"const", false, false, ⟨7, 12⟩, []⟩ [] :: declarators)

def exportedConst (declarators : List Tree) (stop : Nat) : Tree :=
  .node ⟨"export_statement", true, false, ⟨0, stop⟩, []⟩
    [.node ⟨"export", false, false, ⟨0, 6⟩, []⟩ [], constOf declarators stop]

theorem exportsDeclaration_exportedConst (declarators : List Tree) (stop : Nat) :
    (exportedConst declarators stop).ExportsDeclaration (constOf declarators stop) :=
  ⟨rfl, rfl, rfl, rfl, rfl, rfl⟩

def destructuring : Tree :=
  .node ⟨"variable_declarator", true, false, ⟨12, 17⟩, []⟩
    [.node ⟨"object_pattern", true, false, ⟨12, 15⟩, ["name"]⟩
        [.node ⟨"shorthand_property_identifier_pattern", true, false, ⟨13, 14⟩, []⟩ []],
      .node ⟨"identifier", true, false, ⟨16, 17⟩, ["value"]⟩ []]

/-- Of a statement that binds a pattern and a name, the name is exported. -/
theorem variables_exported_by_name_beside_pattern :
    let source := Source.ofBytes "export const\x7ba\x7d=o,b".toUTF8.toList
    let name := Tree.node ⟨"identifier", true, false, ⟨18, 19⟩, ["name"]⟩ []
    let plain := Tree.node ⟨"variable_declarator", true, false, ⟨18, 19⟩, []⟩ [name]
    let s := exportedConst [destructuring, plain] 19
    s.exportsOf source = [destructuring, plain].filterMap (exportOfVariable? source s) ∧
      exportOfVariable? source s destructuring = none ∧
      exportOfVariable? source s plain = some ⟨"b", "named", s.location source, "value"⟩ := by
  intro source name plain s
  have hs : s ∈ (Tree.node ⟨"program", true, false, ⟨0, 19⟩, []⟩ [s]).namedChildren :=
    List.mem_singleton.2 rfl
  have h := variables_exported_by_name source hs (exportsDeclaration_exportedConst _ 19) rfl
  have ht : name.text source = "b" := by decide +kernel
  have hplain : plain ∈ (constOf [destructuring, plain] 19).declarators :=
    List.mem_cons_of_mem _ (List.mem_singleton.2 rfl)
  refine ⟨(h.2.2.1 rfl).1, (h.2.2.2 destructuring List.mem_cons_self _ rfl).2 (.inl rfl), ?_⟩
  rw [(h.2.2.2 plain hplain name rfl).1 rfl (by simp [ht]), ht]

/-- A pattern alone, and nothing is exported. -/
theorem exported_pattern_lost :
    let source := Source.ofBytes "export const\x7ba\x7d=o".toUTF8.toList
    let s := exportedConst [destructuring] 17
    s.ExportsDeclaration (constOf [destructuring] 17) ∧
      (constOf [destructuring] 17).isVariableStatement ∧
      destructuring ∈ (constOf [destructuring] 17).declarators ∧
      (Tree.node ⟨"program", true, false, ⟨0, 17⟩, []⟩ [s]).exports source = [] := by
  intro source s
  refine ⟨exportsDeclaration_exportedConst _ 17, rfl, List.mem_singleton.2 rfl, ?_⟩
  decide +kernel

end ComponentSurvey.Tree
