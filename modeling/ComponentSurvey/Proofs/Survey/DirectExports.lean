import ComponentSurvey.Survey.Exports
import ComponentSurvey.Survey.Types

/-!
Exports against declarations. The names of an export statement and the declarations behind it are
found in two ways, by the names that a statement declares and by what is at the top level; on a
direct export both find the same.
-/

set_option autoImplicit false

namespace ComponentSurvey.Tree

/-- An export statement of one declaration or of a default value: no list of names, no module and no
assignment. Grammars put a value only behind `default`, and no variables there. -/
structure IsDirectExport (s : Tree) : Prop where
  isExport : s.isExport
  no_clause : s.childOfType? "export_clause" = none
  no_namespace : s.childOfType? "namespace_export" = none
  no_assignment : s.hasToken "=" = false
  no_module : s.hasToken "*" = false
  default_of_value : (s.field? "value").isSome → s.hasToken "default"
  not_variables : s.hasToken "default" → ∀ t, s.exported? = some t → ¬ t.isVariableStatement

def directKind (s : Tree) : String := if s.hasToken "default" then "default" else "named"

variable {source : Source} {root s t declarator : Tree} {d : Declaration} {name : String}

theorem kind_of_isVariableStatement (h : t.isVariableStatement) : t.kind = .other := by
  have ht : t.type = "lexical_declaration" ∨ t.type = "variable_declaration" := by
    simpa [isVariableStatement] using h
  rcases ht with ht | ht
  · exact kind_of_type ht (by decide)
  · exact kind_of_type ht (by decide)

theorem declarationsOf_variables (h : t.isVariableStatement) :
    t.declarationsOf source = t.declarators.filterMap (boundFunction? source) := by
  simp [declarationsOf, kind_of_isVariableStatement h, h]

theorem properName?_of_boundFunction? (h : declarator.boundFunction? source = some d) :
    d.properName? = declarator.properName? source := by
  have hd : d.name = declarator.name? source := by
    unfold boundFunction? at h
    split at h
    · rename_i n v hn hv
      cases hk : v.kind <;> simp_all <;> subst h <;> rfl
    · cases h
  rw [Declaration.properName?, hd, properName?]

theorem properName?_of_single (h : ¬ t.isVariableStatement) (hd : d ∈ t.declarationsOf source)
    (hn : d.properName? = some name) : t.properName? source = some name := by
  unfold declarationsOf at hd
  split at hd
  · obtain rfl := List.mem_singleton.1 hd
    exact hn
  · obtain rfl := List.mem_singleton.1 hd
    exact hn
  · obtain rfl := List.mem_singleton.1 hd
    exact hn
  · obtain rfl := List.mem_singleton.1 hd
    cases hn
  · simp [h] at hd

theorem mem_declaredNames (hd : d ∈ t.declarationsOf source) (hn : d.properName? = some name) :
    name ∈ t.declaredNames source := by
  unfold declaredNames
  by_cases hv : t.isVariableStatement
  · rw [declarationsOf_variables hv] at hd
    obtain ⟨declarator, hm, hb⟩ := List.mem_filterMap.1 hd
    rw [if_pos hv]
    exact List.mem_filterMap.2 ⟨declarator, hm, properName?_of_boundFunction? hb ▸ hn⟩
  · rw [if_neg hv, properName?_of_single hv hd hn]
    exact List.mem_singleton.2 rfl

theorem not_isVariableStatement_of_type
    (h : t.type = "interface_declaration" ∨ t.type = "type_alias_declaration") :
    ¬ t.isVariableStatement := by
  rcases h with h | h <;> simp [isVariableStatement, h]

theorem declarationsOf_of_type
    (h : t.type = "interface_declaration" ∨ t.type = "type_alias_declaration") :
    t.declarationsOf source = [] := by
  have hk : t.kind = .other := by
    rcases h with h | h
    · exact kind_of_type h (by decide)
    · exact kind_of_type h (by decide)
  simp [declarationsOf, hk, not_isVariableStatement_of_type h]

/-- Only what declares no function and no class is exported as anything but a value. -/
theorem exportKind_of_declaration (hd : d ∈ t.declarationsOf source) :
    t.exportKind = "value" := by
  by_cases hi : t.type = "interface_declaration"
  · simp [declarationsOf_of_type (.inl hi)] at hd
  by_cases ha : t.type = "type_alias_declaration"
  · simp [declarationsOf_of_type (.inr ha)] at hd
  simp [exportKind, hi, ha]

theorem defaultExport_eq (ht : s.exported? = some t) (hn : t.properName? source = some name) :
    s.defaultExport source = ⟨name, "default", s.location source, t.exportKind⟩ := by
  obtain ⟨ho, hne⟩ := Option.filter_eq_some_iff.1 hn
  simp [defaultExport, ht, nameOf, ho, Option.filter, hne]

namespace IsDirectExport

variable (h : s.IsDirectExport)
include h

theorem exportsOf_default (hd : s.hasToken "default") :
    s.exportsOf source = [s.defaultExport source] := by
  simp [exportsOf, h.no_clause, hd]

theorem exportsOf_named (hd : s.hasToken "default" = false) (ht : s.exported? = some t) :
    s.exportsOf source = (t.declaredNames source).map fun name =>
      ⟨name, "named", s.location source, t.exportKind⟩ := by
  -- Without `default` there is no value, so the exported statement is the declaration.
  have hv : s.field? "value" = none := by
    cases hv : s.field? "value" with
    | none => rfl
    | some v => simpa [hd] using h.default_of_value (by simp [hv])
  have hf : s.field? "declaration" = some t := by simpa [exported?, hv] using ht
  simp [exportsOf, h.no_clause, hd, h.no_assignment, h.no_namespace, h.no_module, hf]

theorem mem_exportsOf (ht : s.exported? = some t) (hn : name ∈ t.declaredNames source) :
    ⟨name, s.directKind, s.location source, t.exportKind⟩ ∈ s.exportsOf source := by
  cases hd : s.hasToken "default" with
  | true =>
    have hv := h.not_variables hd t ht
    have ho : t.properName? source = some name := by simpa [declaredNames, hv] using hn
    rw [h.exportsOf_default hd, defaultExport_eq ht ho, directKind, if_pos hd]
    exact List.mem_singleton.2 rfl
  | false =>
    rw [h.exportsOf_named hd ht, directKind, if_neg (by simp [hd])]
    exact List.mem_map.2 ⟨name, hn, rfl⟩

variable (hs : s ∈ root.namedChildren)
include hs

theorem mem_exports (ht : s.exported? = some t) (hn : name ∈ t.declaredNames source) :
    ⟨name, s.directKind, s.location source, t.exportKind⟩ ∈ root.exports source :=
  List.mem_flatMap.2 ⟨s, List.mem_filter.2 ⟨hs, h.isExport⟩, h.mem_exportsOf ht hn⟩

theorem mem_topLevel (ht : s.exported? = some t) : t ∈ root.topLevel :=
  List.mem_filterMap.2 ⟨s, hs, by rw [if_pos h.isExport, ht]⟩

theorem mem_exports_of_type (ht : s.exported? = some t)
    (hty : t.type = "interface_declaration" ∨ t.type = "type_alias_declaration")
    (hn : t.properName? source = some name) :
    ⟨name, s.directKind, s.location source, t.exportKind⟩ ∈ root.exports source := by
  refine h.mem_exports hs ht ?_
  simp [declaredNames, not_isVariableStatement_of_type hty, hn]

end IsDirectExport

/-- Functions, classes, interfaces and type aliases behind a direct export are exported under their
own names. -/
theorem exports_agree_with_declarations (source : Source) {root s t : Tree}
    (hs : s ∈ root.namedChildren) (h : s.IsDirectExport) (ht : s.exported? = some t) :
    (∀ d ∈ t.declarationsOf source, d ∈ root.declarations source ∧
        ∀ name, d.properName? = some name →
          ⟨name, s.directKind, s.location source, "value"⟩ ∈ root.exports source) ∧
      (t.type = "interface_declaration" → t.interfaceRecord source ∈ root.interfaces source ∧
        ∀ name, t.properName? source = some name → (t.interfaceRecord source).name = name ∧
          ⟨name, s.directKind, s.location source, "interface"⟩ ∈ root.exports source) ∧
      (t.type = "type_alias_declaration" → t.typeAliasRecord source ∈ root.typeAliases source ∧
        ∀ name, t.properName? source = some name → (t.typeAliasRecord source).name = name ∧
          ⟨name, s.directKind, s.location source, "type"⟩ ∈ root.exports source) := by
  have hm : t ∈ root.topLevel := h.mem_topLevel hs ht
  refine ⟨fun d hd => ⟨List.mem_flatMap.2 ⟨t, hm, hd⟩, fun name hn => ?_⟩,
    fun hty => ⟨?_, fun name hn => ⟨?_, ?_⟩⟩, fun hty => ⟨?_, fun name hn => ⟨?_, ?_⟩⟩⟩
  · have he := h.mem_exports hs ht (mem_declaredNames hd hn)
    rwa [exportKind_of_declaration hd] at he
  · exact List.mem_map.2 ⟨t, List.mem_filter.2 ⟨hm, beq_iff_eq.2 hty⟩, rfl⟩
  · simp [interfaceRecord, hn]
  · have he := h.mem_exports_of_type hs ht (.inl hty) hn
    rwa [exportKind, hty] at he
  · exact List.mem_map.2 ⟨t, List.mem_filter.2 ⟨hm, beq_iff_eq.2 hty⟩, rfl⟩
  · simp [typeAliasRecord, hn]
  · have he := h.mem_exports_of_type hs ht (.inr hty) hn
    rwa [exportKind, hty] at he

theorem exports_agree_with_declarations_of_arrow :
    let arrow := Tree.node ⟨"arrow_function", true, false, ⟨15, 20⟩, ["value"]⟩ []
    let declarator := Tree.node ⟨"variable_declarator", true, false, ⟨13, 20⟩, []⟩
      [.node ⟨"identifier", true, false, ⟨13, 14⟩, ["name"]⟩ [], arrow]
    let bound := Tree.node ⟨"lexical_declaration", true, false, ⟨7, 20⟩, ["declaration"]⟩
      [declarator]
    let s := Tree.node ⟨"export_statement", true, false, ⟨0, 20⟩, []⟩
      [.node ⟨"export", false, false, ⟨0, 6⟩, []⟩ [], bound]
    let source := Source.ofBytes "export const f=()=>1".toUTF8.toList
    ⟨"f", "named", s.location source, "value"⟩ ∈
      (Tree.node ⟨"program", true, false, ⟨0, 20⟩, []⟩ [s]).exports source := by
  intro arrow declarator bound s source
  have hs : s ∈ (Tree.node ⟨"program", true, false, ⟨0, 20⟩, []⟩ [s]).namedChildren :=
    List.mem_singleton.2 rfl
  have h : s.IsDirectExport := ⟨by decide, rfl, rfl, by decide, by decide, by decide, by decide⟩
  have hn : declarator.name? source = some "f" := by decide +kernel
  have hv : (declarator.field? "value").bind unparenthesized = some arrow := rfl
  have hb : declarator.boundFunction? source = some ⟨.arrow, some "f", declarator, arrow⟩ := by
    rw [boundFunction?, hn, hv]
    rfl
  have hd : ⟨.arrow, some "f", declarator, arrow⟩ ∈ bound.declarationsOf source := by
    rw [declarationsOf_variables rfl]
    exact List.mem_filterMap.2 ⟨declarator, List.mem_singleton.2 rfl, hb⟩
  exact ((exports_agree_with_declarations source hs h rfl).1 _ hd).2 "f" rfl

end ComponentSurvey.Tree
