import ComponentSurvey.Proofs.Survey.Detection
import Mathlib.Data.List.Forall2

/-!
Names of imported modules. A statement names its module as a whole by a default import, a require
clause or a namespace import. The kind of its record says whether it does, and the name then comes
first; so the framework goes in a file by the first such name that an import of it gives.
-/

set_option autoImplicit false

namespace ComponentSurvey

variable {source : Source}

namespace Tree

def isImportClause (t : Tree) : Bool := t.isRequireClause || t.type == "import_clause"

def isImportPart (t : Tree) : Bool :=
  t.type == "identifier" || t.type == "namespace_import" || t.type == "named_imports"

/-- An import statement as the grammar has it: at most one clause, and in an import clause first a
default name, if any, and then a namespace or a list of names, if any. -/
structure IsImport (s : Tree) : Prop where
  clauses : (s.namedChildren.filter isImportClause).length ≤ 1
  parts : ∀ c ∈ s.namedChildren, c.type = "import_clause" → ∃ name rest : Option Tree,
    c.namedChildren.filter isImportPart = name.toList ++ rest.toList ∧
      (∀ t ∈ name, t.type = "identifier") ∧
      ∀ t ∈ rest, t.type = "namespace_import" ∨ t.type = "named_imports"

/-- How a statement names its module as a whole, and the identifier that is bound. -/
inductive NamesModule (source : Source) (s : Tree) : Binding → String → Prop where
  | default {clause name : Tree} (hc : clause ∈ s.namedChildren)
      (ht : clause.type = "import_clause") (hn : name ∈ clause.namedChildren)
      (hi : name.type = "identifier") : NamesModule source s .default (name.text source)
  | require {clause : Tree} (hc : clause ∈ s.namedChildren)
      (ht : clause.type = "import_require_clause") :
      NamesModule source s .default (textOf source clause.identifierChild?)
  | namespace_ {clause part : Tree} (hc : clause ∈ s.namedChildren)
      (ht : clause.type = "import_clause") (hp : part ∈ clause.namedChildren)
      (hk : part.type = "namespace_import") :
      NamesModule source s .namespace_ (textOf source part.identifierChild?)

inductive ModuleName (source : Source) (s : Tree) : String → Prop where
  | default {name : String} (h : s.NamesModule source .default name) : ModuleName source s name
  | namespace_ {name : String} (h : s.NamesModule source .namespace_ name)
      (hd : ∀ other, ¬ s.NamesModule source .default other) : ModuleName source s name

def importedModule (source : Source) (s : Tree) : String := stringValue source s.moduleLiteral?

def bindings (source : Source) (s : Tree) : List (Binding × ImportedName) :=
  s.namedChildren.flatMap (importBindings source (s.hasToken "type"))

theorem importBindings_of_require {typeOnly : Bool} {t : Tree}
    (h : t.type = "import_require_clause") : importBindings source typeOnly t =
      [(.default, ⟨textOf source t.identifierChild?, none, typeOnly⟩)] := by
  rw [importBindings, if_pos (by simp [isRequireClause, h])]

theorem importBindings_of_clause {typeOnly : Bool} {t : Tree} (h : t.type = "import_clause") :
    importBindings source typeOnly t =
      t.namedChildren.flatMap (clauseBindings source typeOnly) := by
  rw [importBindings, if_neg (by simp [isRequireClause, h]), if_pos (by simp [h])]

theorem importBindings_of_not {typeOnly : Bool} {t : Tree} (h : t.isImportClause = false) :
    importBindings source typeOnly t = [] := by
  rw [isImportClause, Bool.or_eq_false_iff] at h
  simp [importBindings, h.1, h.2]

theorem type_of_isImportClause {t : Tree} (h : t.isImportClause) :
    t.type = "import_require_clause" ∨ t.type = "import_clause" := by
  simpa [isImportClause, isRequireClause] using h

theorem type_of_isImportPart {t : Tree} (h : t.isImportPart) :
    t.type = "identifier" ∨ t.type = "namespace_import" ∨ t.type = "named_imports" := by
  simpa [isImportPart, or_assoc] using h

theorem clauseBindings_of_identifier {typeOnly : Bool} {t : Tree} (h : t.type = "identifier") :
    clauseBindings source typeOnly t = [(.default, ⟨t.text source, none, typeOnly⟩)] := by
  rw [clauseBindings, if_pos (by simp [h])]

theorem clauseBindings_of_namespace {typeOnly : Bool} {t : Tree}
    (h : t.type = "namespace_import") : clauseBindings source typeOnly t =
      [(.namespace_, ⟨textOf source t.identifierChild?, none, typeOnly⟩)] := by
  rw [clauseBindings, if_neg (by simp [h]), if_pos (by simp [h])]

theorem named_of_mem_clauseBindings {typeOnly : Bool} {t : Tree} (h : t.type = "named_imports")
    {p : Binding × ImportedName} (hp : p ∈ clauseBindings source typeOnly t) : p.1 = .named := by
  rw [clauseBindings, if_neg (by simp [h]), if_neg (by simp [h]), if_pos (by simp [h])] at hp
  obtain ⟨s, -, rfl⟩ := List.mem_map.1 hp
  rfl

theorem clauseBindings_of_not {typeOnly : Bool} {t : Tree} (h : t.isImportPart = false) :
    clauseBindings source typeOnly t = [] := by
  simp only [isImportPart, Bool.or_eq_false_iff] at h
  simp [clauseBindings, h.1.1, h.1.2, h.2]

theorem exists_mem_bindings {s : Tree} {b : Binding} {name : String}
    (h : s.NamesModule source b name) : ∃ n, (b, n) ∈ s.bindings source ∧ n.name = name := by
  cases h with
  | @default clause part hc ht hn hi =>
    refine ⟨⟨part.text source, none, s.hasToken "type"⟩, List.mem_flatMap.2 ⟨clause, hc, ?_⟩, rfl⟩
    rw [importBindings_of_clause ht, List.mem_flatMap]
    exact ⟨part, hn, by simp [clauseBindings_of_identifier hi]⟩
  | @require clause hc ht =>
    refine ⟨⟨textOf source clause.identifierChild?, none, s.hasToken "type"⟩,
      List.mem_flatMap.2 ⟨clause, hc, ?_⟩, rfl⟩
    simp [importBindings_of_require ht]
  | @namespace_ clause part hc ht hp hk =>
    refine ⟨⟨textOf source part.identifierChild?, none, s.hasToken "type"⟩,
      List.mem_flatMap.2 ⟨clause, hc, ?_⟩, rfl⟩
    rw [importBindings_of_clause ht, List.mem_flatMap]
    exact ⟨part, hp, by simp [clauseBindings_of_namespace hk]⟩

theorem namesModule_of_mem_bindings {s : Tree} {b : Binding} {n : ImportedName}
    (h : (b, n) ∈ s.bindings source) (hb : b ≠ .named) : s.NamesModule source b n.name := by
  obtain ⟨clause, hc, hn⟩ := List.mem_flatMap.1 h
  by_cases hclause : clause.isImportClause
  · rcases type_of_isImportClause hclause with ht | ht
    · rw [importBindings_of_require ht] at hn
      cases List.mem_singleton.1 hn
      exact .require hc ht
    · rw [importBindings_of_clause ht] at hn
      obtain ⟨part, hp, hn⟩ := List.mem_flatMap.1 hn
      by_cases hpart : part.isImportPart
      · rcases type_of_isImportPart hpart with hk | hk | hk
        · rw [clauseBindings_of_identifier hk] at hn
          cases List.mem_singleton.1 hn
          exact .default hc ht hp hk
        · rw [clauseBindings_of_namespace hk] at hn
          cases List.mem_singleton.1 hn
          exact .namespace_ hc ht hp hk
        · exact absurd (named_of_mem_clauseBindings hk hn) hb
      · rw [clauseBindings_of_not (by simpa using hpart)] at hn
        cases hn
  · rw [importBindings_of_not (by simpa using hclause)] at hn
    cases hn

theorem exists_namesModule_iff {s : Tree} {b : Binding} (hb : b ≠ .named) :
    (∃ name, s.NamesModule source b name) ↔ b ∈ (s.bindings source).map (·.1) := by
  constructor
  · rintro ⟨name, h⟩
    obtain ⟨n, hn, -⟩ := exists_mem_bindings h
    exact List.mem_map_of_mem hn
  · intro h
    obtain ⟨⟨b, n⟩, hn, rfl⟩ := List.mem_map.1 h
    exact ⟨n.name, namesModule_of_mem_bindings hn hb⟩

end Tree

def Binding.Arranged (bs : List (Binding × ImportedName)) : Prop :=
  ∃ (d : Option ImportedName) (rest : List (Binding × ImportedName)),
    bs = d.toList.map (.default, ·) ++ rest ∧
      ((∃ n, rest = [(.namespace_, n)]) ∨ ∀ p ∈ rest, p.1 = .named)

/-- A default binding comes first, and so does a namespace without one. -/
theorem Binding.Arranged.head {bs : List (Binding × ImportedName)} (h : Arranged bs) {b : Binding}
    {n : ImportedName} (hn : (b, n) ∈ bs)
    (hb : b = .default ∨ b = .namespace_ ∧ ∀ m, (.default, m) ∉ bs) :
    ∃ rest, bs = (b, n) :: rest := by
  obtain ⟨d, rest, rfl, hrest⟩ := h
  have hfound (hm : (b, n) ∈ rest) : b = .namespace_ ∧ rest = [(b, n)] := by
    rcases hrest with ⟨m, rfl⟩ | hnamed
    · cases List.mem_singleton.1 hm
      exact ⟨rfl, rfl⟩
    · have hk : b = .named := hnamed _ hm
      simp [hk] at hb
  cases d with
  | none => exact ⟨[], (hfound (by simpa using hn)).2⟩
  | some m =>
    rcases List.mem_cons.1 hn with he | hm
    · cases he
      exact ⟨rest, rfl⟩
    · obtain ⟨rfl, -⟩ := hfound hm
      exact absurd List.mem_cons_self ((hb.resolve_left (by simp)).2 m)

theorem flatMap_filter_of_nil {α β : Type} {p : α → Bool} {f : α → List β}
    (h : ∀ a, p a = false → f a = []) (as : List α) : (as.filter p).flatMap f = as.flatMap f := by
  induction as with
  | nil => rfl
  | cons a as ih =>
    cases ha : p a with
    | true => rw [List.filter_cons_of_pos ha, List.flatMap_cons, List.flatMap_cons, ih]
    | false =>
      rw [List.filter_cons_of_neg (by simp [ha]), List.flatMap_cons, h a ha, ih, List.nil_append]

namespace Tree

theorem arranged_clause {typeOnly : Bool} {c : Tree} {name rest : Option Tree}
    (h : c.namedChildren.filter isImportPart = name.toList ++ rest.toList)
    (hname : ∀ t ∈ name, t.type = "identifier")
    (hrest : ∀ t ∈ rest, t.type = "namespace_import" ∨ t.type = "named_imports") :
    Binding.Arranged (c.namedChildren.flatMap (clauseBindings source typeOnly)) := by
  rw [← flatMap_filter_of_nil fun t => clauseBindings_of_not, h, List.flatMap_append]
  refine ⟨name.map fun t => ⟨t.text source, none, typeOnly⟩, _, congrArg (· ++ _) ?_, ?_⟩
  · cases name with
    | none => rfl
    | some t => simp [clauseBindings_of_identifier (hname t rfl)]
  · cases rest with
    | none => simp
    | some t =>
      rcases hrest t rfl with ht | ht
      · exact .inl ⟨⟨textOf source t.identifierChild?, none, typeOnly⟩,
          by simp [clauseBindings_of_namespace ht]⟩
      · exact .inr fun p hp => named_of_mem_clauseBindings ht (by simpa using hp)

theorem IsImport.arranged {s : Tree} (h : s.IsImport) :
    Binding.Arranged (s.bindings source) := by
  have hempty : Binding.Arranged [] := ⟨none, [], rfl, .inr (by simp)⟩
  rw [bindings, ← flatMap_filter_of_nil fun t => importBindings_of_not]
  have hle := h.clauses
  cases hc : s.namedChildren.filter isImportClause with
  | nil => exact hempty
  | cons c cs =>
    have hcs : cs = [] := by
      rw [hc, List.length_cons] at hle
      exact List.eq_nil_of_length_eq_zero (by omega)
    obtain ⟨hmem, hclause⟩ := List.mem_filter.1 (hc ▸ List.mem_cons_self)
    rw [hcs, List.flatMap_singleton]
    rcases type_of_isImportClause hclause with ht | ht
    · rw [importBindings_of_require ht]
      exact ⟨some _, [], rfl, .inr (by simp)⟩
    · obtain ⟨name, rest, hparts, hname, hrest⟩ := h.parts c hmem ht
      rw [importBindings_of_clause ht]
      exact arranged_clause hparts hname hrest

end Tree

section

variable {bs : List Binding}

theorem importKind_eq_default_iff : importKind bs = "default" ↔ .default ∈ bs := by
  by_cases hd : .default ∈ bs <;> by_cases hn : .namespace_ ∈ bs <;> by_cases hm : .named ∈ bs <;>
    simp [importKind, hd, hn, hm]

theorem importKind_eq_namespace_iff :
    importKind bs = "namespace" ↔ .namespace_ ∈ bs ∧ .default ∉ bs := by
  by_cases hd : .default ∈ bs <;> by_cases hn : .namespace_ ∈ bs <;> by_cases hm : .named ∈ bs <;>
    simp [importKind, hd, hn, hm]

theorem importKind_eq_sideEffect_iff : importKind bs = "side-effect" ↔ bs = [] := by
  have hnone : (∀ b, b ∉ bs) ↔ .default ∉ bs ∧ .namespace_ ∉ bs ∧ .named ∉ bs := by
    refine ⟨fun h => ⟨h _, h _, h _⟩, fun ⟨hd, hn, hm⟩ b => ?_⟩
    cases b <;> assumption
  rw [List.eq_nil_iff_forall_not_mem, hnone]
  by_cases hd : .default ∈ bs <;> by_cases hn : .namespace_ ∈ bs <;> by_cases hm : .named ∈ bs <;>
    simp [importKind, hd, hn, hm]

end

structure Import.Reports (source : Source) (s : Tree) (i : Import) : Prop where
  location_eq : i.location = s.location source
  source_eq : i.source = s.importedModule source
  sideEffect_iff : i.kind = "side-effect" ↔ i.specifiers = []
  default_iff : i.kind = "default" ↔ ∃ name, s.NamesModule source .default name
  namespace_iff : i.kind = "namespace" ↔ (∃ name, s.NamesModule source .namespace_ name) ∧
    ∀ name, ¬ s.NamesModule source .default name
  first : i.kind = "default" ∨ i.kind = "namespace" → ∃ n rest, i.specifiers = n :: rest ∧
    ∀ name, s.ModuleName source name ↔ name = n.name

namespace Tree

variable {s : Tree}

theorem importRecord_eq (source : Source) (s : Tree) : s.importRecord source =
    ⟨s.importedModule source, importKind ((s.bindings source).map (·.1)), s.location source,
      (s.bindings source).map (·.2)⟩ := rfl

theorem kind_importRecord_default :
    (s.importRecord source).kind = "default" ↔ ∃ name, s.NamesModule source .default name := by
  rw [exists_namesModule_iff (by simp), importRecord_eq, importKind_eq_default_iff]

theorem kind_importRecord_namespace : (s.importRecord source).kind = "namespace" ↔
    (∃ name, s.NamesModule source .namespace_ name) ∧
      ∀ name, ¬ s.NamesModule source .default name := by
  rw [← not_exists, exists_namesModule_iff (by simp), exists_namesModule_iff (by simp),
    importRecord_eq, importKind_eq_namespace_iff]

/-- The binding that gives the module its name. -/
theorem ModuleName.exists_binding {name : String} (h : s.ModuleName source name) :
    ∃ b n, (b, n) ∈ s.bindings source ∧ n.name = name ∧
      (b = .default ∨ b = .namespace_ ∧ ∀ m, (.default, m) ∉ s.bindings source) := by
  cases h with
  | default h =>
    obtain ⟨n, hn, hname⟩ := exists_mem_bindings h
    exact ⟨.default, n, hn, hname, .inl rfl⟩
  | namespace_ h hd =>
    obtain ⟨n, hn, hname⟩ := exists_mem_bindings h
    refine ⟨.namespace_, n, hn, hname, .inr ⟨rfl, fun m hm => ?_⟩⟩
    exact hd m.name (namesModule_of_mem_bindings hm (by simp))

/-- A statement of the grammar that names its module binds this name first, and no other. -/
theorem IsImport.moduleName_iff (h : s.IsImport) {first : String}
    (hfirst : s.ModuleName source first) : ∃ n rest, (s.bindings source).map (·.2) = n :: rest ∧
      ∀ name, s.ModuleName source name ↔ name = n.name := by
  have hhead {name : String} (hname : s.ModuleName source name) :
      ((s.bindings source).head?.map (·.2.name)) = some name := by
    obtain ⟨b, n, hn, rfl, hb⟩ := hname.exists_binding
    obtain ⟨rest, hrest⟩ := h.arranged.head hn hb
    rw [hrest]
    rfl
  obtain ⟨b, n, hn, rfl, hb⟩ := hfirst.exists_binding
  obtain ⟨rest, hrest⟩ := h.arranged.head hn hb
  refine ⟨n, rest.map (·.2), by rw [hrest]; rfl, fun name => ⟨fun hname => ?_, ?_⟩⟩
  · exact Option.some.inj ((hhead hname).symm.trans (hhead hfirst))
  · rintro rfl
    exact hfirst

theorem exists_moduleName_iff : (∃ name, s.ModuleName source name) ↔
    (s.importRecord source).kind = "default" ∨ (s.importRecord source).kind = "namespace" := by
  rw [kind_importRecord_default, kind_importRecord_namespace]
  constructor
  · rintro ⟨name, h | ⟨h, hd⟩⟩
    · exact .inl ⟨name, h⟩
    · exact .inr ⟨⟨name, h⟩, hd⟩
  · rintro (⟨name, h⟩ | ⟨⟨name, h⟩, hd⟩)
    · exact ⟨name, .default h⟩
    · exact ⟨name, .namespace_ h hd⟩

theorem IsImport.reports (h : s.IsImport) :
    Import.Reports source s (s.importRecord source) where
  location_eq := rfl
  source_eq := rfl
  sideEffect_iff := by
    rw [importRecord_eq, importKind_eq_sideEffect_iff, List.map_eq_nil_iff, List.map_eq_nil_iff]
  default_iff := kind_importRecord_default
  namespace_iff := kind_importRecord_namespace
  first hk := by
    obtain ⟨name, hname⟩ := exists_moduleName_iff.2 hk
    exact h.moduleName_iff hname

theorem IsImport.binds_iff (h : s.IsImport) {name : String} :
    (s.importRecord source).Binds name ↔
      s.importedModule source = "react" ∧ s.ModuleName source name := by
  constructor
  · rintro ⟨hs, hk, n, rest, hn, rfl⟩
    obtain ⟨m, rest', hm, hname⟩ := h.reports.first hk
    cases hn.symm.trans hm
    exact ⟨hs, (hname n.name).2 rfl⟩
  · rintro ⟨hs, hname⟩
    have hk := exists_moduleName_iff.1 ⟨name, hname⟩
    obtain ⟨n, rest, hn, hiff⟩ := h.reports.first hk
    exact ⟨hs, hk, n, rest, hn, ((hiff name).1 hname).symm⟩

/-- What the framework is called after some statements: the name that the first import of it to name
it as a whole gives, and `React` when imports of it do not. -/
inductive FrameworkNamed (source : Source) (statements : List Tree) : String → Prop where
  | bound {before after : List Tree} {s : Tree} {name : String}
      (h : statements = before ++ s :: after)
      (hb : ∀ r ∈ before, r.importedModule source = "react" →
        ∀ other, ¬ r.ModuleName source other)
      (hs : s.importedModule source = "react") (hn : s.ModuleName source name) :
      FrameworkNamed source statements name
  | usual (h : ∃ s ∈ statements, s.importedModule source = "react")
      (hn : ∀ s ∈ statements, s.importedModule source = "react" →
        ∀ name, ¬ s.ModuleName source name) :
      FrameworkNamed source statements "React"

variable {statements : List Tree}

theorem boundName?_importRecord_eq_none_iff (h : s.IsImport) :
    (s.importRecord source).boundName? = none ↔
      (s.importedModule source = "react" → ∀ name, ¬ s.ModuleName source name) := by
  simp only [Import.boundName?_eq_none_iff, h.binds_iff, not_and]
  exact forall_comm

theorem frameworkName?_eq_some_iff (h : ∀ s ∈ statements, s.IsImport) {name : String} :
    Import.frameworkName? (statements.map (importRecord source)) = some name ↔
      FrameworkNamed source statements name := by
  have hany : (statements.map (importRecord source)).any (·.source == "react") ↔
      ∃ s ∈ statements, s.importedModule source = "react" := by
    simp [importRecord_eq]
  rw [Import.frameworkName?_eq, List.findSome?_map, Option.or_eq_some_iff,
    Option.ite_none_right_eq_some, hany]
  constructor
  · rintro (hfound | ⟨hnone, huses, ⟨⟩⟩)
    · obtain ⟨before, s, after, hsplit, hs, hb⟩ := List.findSome?_eq_some_iff.1 hfound
      have hmem : ∀ r ∈ before ++ s :: after, r.IsImport := hsplit ▸ h
      have hbinds := Import.boundName?_eq_some_iff.1 hs
      obtain ⟨hreact, hname⟩ := (hmem s (by simp)).binds_iff.1 hbinds
      refine .bound hsplit (fun r hr => ?_) hreact hname
      exact (boundName?_importRecord_eq_none_iff (hmem r (List.mem_append_left _ hr))).1 (hb r hr)
    · refine .usual huses fun s hs => ?_
      have hn := List.findSome?_eq_none_iff.1 hnone s hs
      exact (boundName?_importRecord_eq_none_iff (h s hs)).1 hn
  · rintro (⟨rfl, hb, hreact, hname⟩ | ⟨huses, hn⟩)
    · refine .inl (List.findSome?_eq_some_iff.2 ⟨_, _, _, rfl, ?_, fun r hr => ?_⟩)
      · exact Import.boundName?_eq_some_iff.2 ((h _ (by simp)).binds_iff.2 ⟨hreact, hname⟩)
      · have hr' := h r (List.mem_append_left _ hr)
        exact (boundName?_importRecord_eq_none_iff hr').2 (hb r hr)
    · refine .inr ⟨List.findSome?_eq_none_iff.2 fun s hs => ?_, huses, rfl⟩
      exact (boundName?_importRecord_eq_none_iff (h s hs)).2 (hn s hs)

end Tree

/-- When the import statements of a file are as the grammar has them, each gives one record, in
their order. A record has the kind `side-effect` when nothing is imported by name, and when its kind
is `default` or `namespace` the name of the module comes first. So the framework has no name in a
file that does not import it, else the name that the first import of it to name it gives, else
`React`. -/
theorem Tree.imports_name_modules (source : Source) (root : Tree)
    (h : ∀ s ∈ root.namedChildren, s.type = "import_statement" → s.IsImport) :
    let statements := root.namedChildren.filter (·.type == "import_statement")
    let imports := root.imports source
    List.Forall₂ (Import.Reports source) statements imports ∧
      (Import.frameworkName? imports = none ↔ ∀ i ∈ imports, i.source ≠ "react") ∧
      ∀ name, Import.frameworkName? imports = some name ↔
        FrameworkNamed source statements name := by
  intro statements imports
  have hs : ∀ s ∈ statements, s.IsImport := by
    intro s hs
    obtain ⟨hc, ht⟩ := List.mem_filter.1 hs
    exact h s hc (eq_of_beq ht)
  refine ⟨?_, ?_, fun name => frameworkName?_eq_some_iff hs⟩
  · exact List.forall₂_map_right_iff.2 (List.forall₂_same.2 fun s hm => (hs s hm).reports)
  · rw [Import.frameworkName?_eq_none_iff]
    simp

/-- The tree of an import statement with one clause: the module is written in the seven bytes at the
end. -/
def Tree.importFrom (start stop : Nat) (parts : List Tree) : Tree :=
  .node ⟨"import_statement", true, false, ⟨start, stop⟩, []⟩
    [.node ⟨"import_clause", true, false, ⟨start + 7, stop - 13⟩, []⟩ parts,
      .node ⟨"string", true, false, ⟨stop - 7, stop⟩, ["source"]⟩
        [.node ⟨"string_fragment", true, false, ⟨stop - 6, stop - 1⟩, []⟩ []]]

theorem Tree.isImport_importFrom {start stop : Nat} {parts : List Tree} (name rest : Option Tree)
    (h : parts.filter named = name.toList ++ rest.toList)
    (hname : ∀ t ∈ name, t.type = "identifier")
    (hrest : ∀ t ∈ rest, t.type = "namespace_import" ∨ t.type = "named_imports") :
    (importFrom start stop parts).IsImport where
  clauses := Nat.le_refl 1
  parts c hc ht := by
    have hpart : ∀ t ∈ name.toList ++ rest.toList, t.isImportPart := by
      intro t ht
      rcases List.mem_append.1 ht with ht | ht
      · simp [isImportPart, hname t (Option.mem_toList.1 ht)]
      · rcases hrest t (Option.mem_toList.1 ht) with hk | hk <;> simp [isImportPart, hk]
    rcases List.mem_cons.1 hc with rfl | hc
    · exact ⟨name, rest, by rw [← List.filter_eq_self.2 hpart, ← h]; rfl, hname, hrest⟩
    · cases List.mem_singleton.1 hc
      exact absurd (show "string" = "import_clause" from ht) (by decide)

/-- Two imports of the framework, of which the second names it. -/
theorem Tree.imports_name_modules_of_second :
    let name (start : Nat) := Tree.node ⟨"identifier", true, false, ⟨start, start + 1⟩, []⟩ []
    let names (start : Nat) := Tree.node ⟨"named_imports", true, false, ⟨start, start + 3⟩, []⟩
      [.node ⟨"import_specifier", true, false, ⟨start + 1, start + 2⟩, []⟩
        [.node ⟨"identifier", true, false, ⟨start + 1, start + 2⟩, ["name"]⟩ []]]
    let first := importFrom 0 23 [names 7]
    let second := importFrom 24 49 [name 31, names 33]
    let root := Tree.node ⟨"program", true, false, ⟨0, 50⟩, []⟩ [first, second]
    let source := Source.ofBytes "import {a} from 'react'\nimport R,{b} from 'react'\n".toUTF8.toList
    (root.imports source).map (·.kind) = ["named", "default"] ∧
      Import.frameworkName? (root.imports source) = some "R" ∧
      FrameworkNamed source [first, second] "R" := by
  intro name names first second root source
  have h : ∀ s ∈ root.namedChildren, s.type = "import_statement" → s.IsImport := by
    intro s hs _
    rcases List.mem_cons.1 hs with rfl | hs
    · exact isImport_importFrom none (some (names 7)) rfl (by simp)
        (fun t ht => .inr (by cases ht; rfl))
    · cases List.mem_singleton.1 hs
      exact isImport_importFrom (some (name 31)) (some (names 33)) rfl
        (fun t ht => by cases ht; rfl) (fun t ht => .inr (by cases ht; rfl))
  have hname : Import.frameworkName? (root.imports source) = some "R" := by decide +kernel
  exact ⟨by decide +kernel, hname, ((imports_name_modules source root h).2.2 "R").1 hname⟩

end ComponentSurvey
