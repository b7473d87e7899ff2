import ComponentSurvey.Proofs.Survey.Classification
import ComponentSurvey.Survey.Patterns
import ComponentSurvey.Tree.Node

/-!
What is detected. Each type of pattern has a shape: the candidates for it, and what is said of one.
Hooks are reported for every candidate, the other types for the first candidate only, and all in a
fixed order.
-/

set_option autoImplicit false

namespace ComponentSurvey

/-- What a pattern of one type looks like, and what a report says of it beside its weight. -/
structure Shape (α : Type) where
  kind : PatternKind
  IsCandidate : α → Prop
  name : α → String
  location : α → Location
  evidence : α → List String

namespace Shape

variable {α : Type} (s : Shape α)

def report (weight : Json) (x : α) : Pattern :=
  ⟨s.kind.name, s.name x, weight, s.location x, s.evidence x⟩

def under (condition : Prop) : Shape α :=
  { s with IsCandidate := fun x => condition ∧ s.IsCandidate x }

/-- A search that reports the candidates of the shape and nothing else. -/
def Finds (f : Json → α → Option Pattern) : Prop :=
  ∀ weight x p, f weight x = some p ↔ s.IsCandidate x ∧ p = s.report weight x

/-- What is found in a list when its first candidate alone is reported: nothing exactly when the list
has no candidate. -/
structure FirstIn (weight : Json) (xs : List α) (found : Option Pattern) : Prop where
  none_iff : found = none ↔ ∀ x ∈ xs, ¬ s.IsCandidate x
  first : ∀ p, found = some p → ∃ before x after, xs = before ++ x :: after ∧
    (∀ y ∈ before, ¬ s.IsCandidate y) ∧ s.IsCandidate x ∧ p = s.report weight x

variable {s} {f : Json → α → Option Pattern}

theorem Finds.eq_report (h : s.Finds f) (weight : Json) {x : α} (hx : s.IsCandidate x) :
    f weight x = some (s.report weight x) :=
  (h weight x _).2 ⟨hx, rfl⟩

theorem Finds.eq_none_iff (h : s.Finds f) {weight : Json} {x : α} :
    f weight x = none ↔ ¬ s.IsCandidate x := by
  refine ⟨fun hn hx => ?_, fun hx => ?_⟩
  · rw [h.eq_report weight hx] at hn
    cases hn
  · cases hf : f weight x with
    | none => rfl
    | some p => exact absurd ((h weight x p).1 hf).1 hx

theorem Finds.firstIn (h : s.Finds f) (weight : Json) (xs : List α) :
    s.FirstIn weight xs (xs.findSome? (f weight)) where
  none_iff := by simp only [List.findSome?_eq_none_iff, h.eq_none_iff]
  first p hp := by
    obtain ⟨before, x, after, rfl, hx, hb⟩ := List.findSome?_eq_some_iff.1 hp
    obtain ⟨hc, hr⟩ := (h weight x p).1 hx
    exact ⟨before, x, after, rfl, fun y hy => h.eq_none_iff.1 (hb y hy), hc, hr⟩

open scoped Classical in
theorem Finds.filterMap (h : s.Finds f) (weight : Json) (xs : List α) :
    xs.filterMap (f weight) = (xs.filter s.IsCandidate).map (s.report weight) := by
  induction xs with
  | nil => rfl
  | cons x xs ih =>
    by_cases hx : s.IsCandidate x
    · rw [List.filterMap_cons_some (h.eq_report weight hx), ih,
        List.filter_cons_of_pos (by simpa using hx), List.map_cons]
    · rw [List.filterMap_cons_none (h.eq_none_iff.2 hx), ih,
        List.filter_cons_of_neg (by simpa using hx)]

theorem FirstIn.type_eq {weight : Json} {xs : List α} {found : Option Pattern}
    (h : s.FirstIn weight xs found) {p : Pattern} (hp : found = some p) : p.type = s.kind.name := by
  obtain ⟨_, _, _, _, _, _, rfl⟩ := h.first p hp
  rfl

theorem under_of {condition : Prop} (hc : condition) : s.under condition = s := by
  simp [Shape.under, hc]

theorem FirstIn.under {weight : Json} {xs : List α} {found : Option Pattern}
    (h : s.FirstIn weight xs found) {condition : Prop} (hc : condition) :
    (s.under condition).FirstIn weight xs found := by
  rwa [under_of hc]

theorem firstIn_under_of_not {condition : Prop} (hc : ¬ condition) (weight : Json) (xs : List α) :
    (s.under condition).FirstIn weight xs none where
  none_iff := by simp [Shape.under, hc]
  first p hp := by cases hp

end Shape

namespace Shape

def customHook (source : Source) : Shape Declaration where
  kind := .customHook
  IsCandidate d := d.form ≠ .classLike ∧ ∃ name, d.name = some name ∧
    ∃ c rest, name.toList = 'u' :: 's' :: 'e' :: c :: rest ∧ 'A' ≤ c ∧ c ≤ 'Z'
  name d := d.name.getD ""
  location d := d.node.location source
  evidence d := ["Custom hook " ++ d.name.getD "" ++ " follows React conventions"]

def higherOrder (source : Source) : Shape Declaration where
  kind := .higherOrder
  IsCandidate d := d.target.kind = .function ∧
    (∃ name, d.name = some name ∧ "with".toList <+: name.toList) ∧
    ∃ type, d.target.returnType? source = some type ∧
      ∃ word ∈ ["Component", "FC", "JSX.Element", "ReactElement", "ReactNode"],
        word.toList <:+: type.toList
  name d := d.name.getD ""
  location d := d.node.location source
  evidence _ := ["Function name starts with \"with\"", "Returns a component"]

def context (source : Source) (framework : String) : Shape Node where
  kind := .context
  IsCandidate call := call.kind = .call ∧ ∃ callee, call.tree.field? "function" = some callee ∧
    callee.type = "member_expression" ∧ Tree.textOf source (callee.field? "object") = framework ∧
    Tree.textOf source (callee.field? "property") = "createContext"
  name call := ((call.parent?.filter (·.kind = .variable)).bind (·.tree.properName? source)).getD
    "Context Provider"
  location call := call.tree.location source
  evidence _ := ["Uses " ++ framework ++ ".createContext"]

def singleton (source : Source) : Shape Declaration where
  kind := .singleton
  IsCandidate d := d.form = .classLike ∧
    (∃ m ∈ d.target.members, m.type ∈ ["public_field_definition", "field_definition"] ∧ m.isStatic ∧
      m.name? source = some "instance") ∧
    ∃ m ∈ d.target.members, m.type = "method_definition" ∧ m.isStatic ∧
      m.name? source = some "getInstance"
  name d := d.properName?.getD "Unknown"
  location d := d.node.location source
  evidence _ := ["Has static instance property", "Has getInstance method"]

def factory (source : Source) : Shape Declaration where
  kind := .factory
  IsCandidate d := d.target.kind = .function ∧
    (∃ name, d.name = some name ∧ "factory".toList <:+: (Text.lowerAscii name).toList) ∧
    1 < d.target.descendants.countP (·.kind = .returnStatement)
  name d := d.name.getD ""
  location d := d.node.location source
  evidence _ := ["Function name contains \"factory\"", "Multiple return statements"]

end Shape

theorem isHookName_iff {name : String} : isHookName name ↔
    ∃ c rest, name.toList = 'u' :: 's' :: 'e' :: c :: rest ∧ 'A' ≤ c ∧ c ≤ 'Z' := by
  simp only [isHookName, Bool.and_eq_true, isCapitalized_iff, Text.startsWith,
    List.isPrefixOf_iff_prefix, String.toList_ofList]
  constructor
  · rintro ⟨⟨after, ha⟩, c, hc, hrange⟩
    rw [← ha] at hc ⊢
    obtain ⟨rest, hrest⟩ := List.head?_eq_some_iff.1 hc
    exact ⟨c, rest, congrArg (['u', 's', 'e'] ++ ·) hrest, hrange⟩
  · rintro ⟨c, rest, hname, hrange⟩
    rw [hname]
    exact ⟨⟨c :: rest, rfl⟩, c, rfl, hrange⟩

/-- No word occurs in a type that is missing. -/
theorem Convention.any_elementTypes_iff {type? : Option String} :
    (elementTypes.any fun word => Text.occursIn word (type?.getD "")) ↔
      ∃ type, type? = some type ∧
        ∃ word ∈ ["Component", "FC", "JSX.Element", "ReactElement", "ReactNode"],
          word.toList <:+: type.toList := by
  cases type? with
  | none => simp [elementTypes, Text.occursIn_iff]
  | some type => simp [elementTypes, Text.occursIn_iff]

namespace Shape

theorem finds_customHook? (source : Source) :
    (customHook source).Finds (Declaration.customHook? source) := by
  intro weight d p
  rw [Declaration.customHook?, Option.ite_none_left_eq_some, Option.map_eq_some_iff]
  simp only [Option.filter_eq_some_iff, isHookName_iff, beq_iff_eq]
  constructor
  · rintro ⟨hform, name, ⟨hname, hshape⟩, rfl⟩
    refine ⟨⟨hform, name, hname, hshape⟩, ?_⟩
    simp only [report, customHook, hname, Option.getD_some]
  · rintro ⟨⟨hform, name, hname, hshape⟩, rfl⟩
    refine ⟨hform, name, ⟨hname, hshape⟩, ?_⟩
    simp only [report, customHook, hname, Option.getD_some]

theorem finds_higherOrder? (source : Source) :
    (higherOrder source).Finds (Declaration.higherOrder? source) := by
  intro weight d p
  rw [Declaration.higherOrder?, Option.ite_none_left_eq_some, Option.bind_eq_some_iff]
  simp only [Option.filter_eq_some_iff, Text.startsWith, List.isPrefixOf_iff_prefix,
    Option.ite_none_right_eq_some, Convention.any_elementTypes_iff, bne_iff_ne, ne_eq,
    Classical.not_not]
  constructor
  · rintro ⟨hkind, name, ⟨hname, hstart⟩, htype, ⟨⟩⟩
    refine ⟨⟨hkind, ⟨name, hname, hstart⟩, htype⟩, ?_⟩
    simp only [report, higherOrder, hname, Option.getD_some]
  · rintro ⟨⟨hkind, ⟨name, hname, hstart⟩, htype⟩, rfl⟩
    refine ⟨hkind, name, ⟨hname, hstart⟩, htype, ?_⟩
    simp only [report, higherOrder, hname, Option.getD_some]

theorem finds_factory? (source : Source) :
    (factory source).Finds (Declaration.factory? source) := by
  intro weight d p
  rw [Declaration.factory?, Option.ite_none_left_eq_some, Option.bind_eq_some_iff]
  simp only [Option.filter_eq_some_iff, Text.occursIn_iff, Option.ite_none_right_eq_some,
    bne_iff_ne, ne_eq, Classical.not_not, Tree.descendantsOf, ← List.countP_eq_length_filter]
  constructor
  · rintro ⟨hkind, name, ⟨hname, hpart⟩, hreturns, ⟨⟩⟩
    refine ⟨⟨hkind, ⟨name, hname, hpart⟩, hreturns⟩, ?_⟩
    simp only [report, factory, hname, Option.getD_some]
  · rintro ⟨⟨hkind, ⟨name, hname, hpart⟩, hreturns⟩, rfl⟩
    refine ⟨hkind, name, ⟨hname, hpart⟩, hreturns, ?_⟩
    simp only [report, factory, hname, Option.getD_some]

theorem finds_singleton? (source : Source) :
    (singleton source).Finds (Declaration.singleton? source) := by
  intro weight d p
  have hfield (m : Tree) : m.isClassField ↔
      m.type ∈ ["public_field_definition", "field_definition"] := by simp [Tree.isClassField]
  simp only [Declaration.singleton?, Option.ite_none_right_eq_some, Bool.and_eq_true,
    List.any_eq_true, beq_iff_eq, hfield]
  constructor
  · rintro ⟨⟨⟨hform, f, hf, ⟨hft, hfs⟩, hfn⟩, m, hm, ⟨hmt, hms⟩, hmn⟩, ⟨⟩⟩
    exact ⟨⟨hform, ⟨f, hf, hft, hfs, hfn⟩, m, hm, hmt, hms, hmn⟩, rfl⟩
  · rintro ⟨⟨hform, ⟨f, hf, hft, hfs, hfn⟩, m, hm, hmt, hms, hmn⟩, rfl⟩
    exact ⟨⟨⟨hform, f, hf, ⟨hft, hfs⟩, hfn⟩, m, hm, ⟨hmt, hms⟩, hmn⟩, rfl⟩

theorem finds_context? (source : Source) (framework : String) :
    (context source framework).Finds (Node.context? source framework) := by
  intro weight call p
  have hname : (context source framework).name call = (call.parent?.bind fun p =>
      if p.kind = .variable then p.tree.properName? source else none).getD "Context Provider" := by
    cases h : call.parent? with
    | none => simp [context, h]
    | some p => by_cases hp : p.kind = .variable <;> simp [context, h, Option.filter, hp]
  simp only [Node.context?, Option.ite_none_right_eq_some, Tree.createsContext, Bool.and_eq_true,
    beq_iff_eq, Option.any_eq_true, ← hname]
  constructor
  · rintro ⟨⟨hkind, callee, hcallee, ⟨htype, hobject⟩, hproperty⟩, ⟨⟩⟩
    exact ⟨⟨hkind, callee, hcallee, htype, hobject, hproperty⟩, rfl⟩
  · rintro ⟨⟨hkind, callee, hcallee, htype, hobject, hproperty⟩, rfl⟩
    exact ⟨⟨hkind, callee, hcallee, ⟨htype, hobject⟩, hproperty⟩, rfl⟩

end Shape

namespace Import

def Binds (i : Import) (framework : String) : Prop :=
  i.source = "react" ∧ (i.kind = "default" ∨ i.kind = "namespace") ∧
    ∃ n rest, i.specifiers = n :: rest ∧ n.name = framework

/-- What the framework is called in a file: the name that the first import to bind one binds, and
`React` in a file whose imports of the framework bind none. -/
inductive Known (imports : List Import) : String → Prop where
  | bound {before after : List Import} {i : Import} {framework : String}
      (h : imports = before ++ i :: after) (hb : ∀ j ∈ before, ∀ name, ¬ j.Binds name)
      (hi : i.Binds framework) : Known imports framework
  | usual (h : ∃ i ∈ imports, i.source = "react") (hn : ∀ i ∈ imports, ∀ name, ¬ i.Binds name) :
      Known imports "React"

def boundName? (i : Import) : Option String :=
  if i.source == "react" then
    if i.bindsFramework then i.specifiers.head?.map (·.name) else none
  else none

theorem boundName?_eq_some_iff {i : Import} {framework : String} :
    i.boundName? = some framework ↔ i.Binds framework := by
  have hs : i.specifiers.head?.map (·.name) = some framework ↔
      ∃ n rest, i.specifiers = n :: rest ∧ n.name = framework := by
    cases i.specifiers <;> simp
  simp only [Binds, boundName?, bindsFramework, Option.ite_none_right_eq_some, Bool.or_eq_true,
    beq_iff_eq, hs]

theorem boundName?_eq_none_iff {i : Import} :
    i.boundName? = none ↔ ∀ framework, ¬ i.Binds framework := by
  simp only [Option.eq_none_iff_forall_ne_some, ne_eq, boundName?_eq_some_iff]

theorem frameworkName?_eq (imports : List Import) :
    frameworkName? imports = (imports.findSome? boundName?).or
      (if imports.any (·.source == "react") then some "React" else none) := by
  have hf : (imports.filter (·.source == "react")).findSome? (fun i =>
      if i.bindsFramework then i.specifiers.head?.map (·.name) else none) =
        imports.findSome? boundName? := by
    rw [← List.head?_filterMap, List.filterMap_filter, List.head?_filterMap]
    rfl
  simp only [frameworkName?, Convention.frameworkModule, Convention.frameworkName, hf]
  cases imports.findSome? boundName? with
  | some name => rfl
  | none => cases h : imports.any (·.source == "react") <;> simp_all

theorem frameworkName?_filter (imports : List Import) :
    frameworkName? (imports.filter (·.source == "react")) = frameworkName? imports := by
  have h : (imports.filter (·.source == "react")).filter (·.source == Convention.frameworkModule) =
      imports.filter (·.source == Convention.frameworkModule) := by
    simp [Convention.frameworkModule, List.filter_filter]
  rw [frameworkName?, h]
  rfl

theorem known_of_frameworkName? {imports : List Import} {framework : String}
    (h : frameworkName? imports = some framework) : Known imports framework := by
  rw [frameworkName?_eq, Option.or_eq_some_iff] at h
  rcases h with h | ⟨hn, h⟩
  · obtain ⟨before, i, after, himports, hi, hb⟩ := List.findSome?_eq_some_iff.1 h
    exact .bound himports (fun j hj => boundName?_eq_none_iff.1 (hb j hj))
      (boundName?_eq_some_iff.1 hi)
  · obtain ⟨hany, ⟨⟩⟩ := Option.ite_none_right_eq_some.1 h
    refine .usual (by simpa using hany) fun i hi => ?_
    exact boundName?_eq_none_iff.1 (List.findSome?_eq_none_iff.1 hn i hi)

theorem frameworkName?_eq_none_iff {imports : List Import} :
    frameworkName? imports = none ↔ ¬ ∃ i ∈ imports, i.source = "react" := by
  rw [frameworkName?_eq, Option.or_eq_none_iff]
  constructor
  · rintro ⟨-, h⟩ ⟨i, hi, hs⟩
    rw [if_pos (List.any_eq_true.2 ⟨i, hi, by simpa using hs⟩)] at h
    cases h
  · intro h
    refine ⟨List.findSome?_eq_none_iff.2 fun i hi => ?_, if_neg fun hany => h ?_⟩
    · exact if_neg fun hs => h ⟨i, hi, by simpa using hs⟩
    · simpa using hany

theorem frameworkName?_isSome_iff {imports : List Import} :
    (frameworkName? imports).isSome ↔ ∃ i ∈ imports, i.source = "react" := by
  rw [Option.isSome_iff_ne_none, ne_eq, frameworkName?_eq_none_iff, Classical.not_not]

end Import

namespace Tree

variable {source : Source} {table : Weights} {imports : List Import} {root : Tree}

/-- A pattern that the framework alone brings about is found in a file that imports it. -/
theorem uses_of_pattern {p : Pattern} (hp : p ∈ root.patterns source table imports)
    (htype : p.type ∈ ["custom-hook", "higher-order-component", "react-context"]) :
    ∃ i ∈ imports, i.source = "react" := by
  refine Classical.byContradiction fun hn => ?_
  rw [patterns, Import.frameworkName?_eq_none_iff.2 hn, List.nil_append] at hp
  have hs := (Shape.finds_singleton? source).firstIn (table.weight .singleton)
    (root.declarations source)
  have hf := (Shape.finds_factory? source).firstIn (table.weight .factory)
    (root.declarations source)
  rcases List.mem_append.1 hp with h | h
  · rw [hs.type_eq (Option.mem_toList.1 h)] at htype
    simp [Shape.singleton, PatternKind.name] at htype
  · rw [hf.type_eq (Option.mem_toList.1 h)] at htype
    simp [Shape.factory, PatternKind.name] at htype

theorem patterns_filter_imports : root.patterns source table imports =
    root.patterns source table (imports.filter (·.source == "react")) := by
  rw [patterns, patterns, Import.frameworkName?_filter]

open scoped Classical in
/-- First a hook for each declaration of its shape, in order; then at most one pattern of each other
type, in a fixed order, which reports the first candidate and is missing only without any. Hooks,
higher orders and contexts are found only where the framework is imported, and imports of other
modules change nothing. -/
theorem patterns_by_shape (source : Source) (table : Weights) (imports : List Import)
    (root : Tree) :
    let uses := ∃ i ∈ imports, i.source = "react"
    let declarations := root.declarations source
    let hook := (Shape.customHook source).under uses
    (∃ framework, ∃ higher context singleton factory : Option Pattern,
      root.patterns source table imports =
        (declarations.filter hook.IsCandidate).map (hook.report (table.weight .customHook)) ++
          higher.toList ++ context.toList ++ singleton.toList ++ factory.toList ∧
      (uses → Import.Known imports framework) ∧
      ((Shape.higherOrder source).under uses).FirstIn (table.weight .higherOrder) declarations
        higher ∧
      ((Shape.context source framework).under uses).FirstIn (table.weight .context)
        (Node.ofTree root).descendants context ∧
      (Shape.singleton source).FirstIn (table.weight .singleton) declarations singleton ∧
      (Shape.factory source).FirstIn (table.weight .factory) declarations factory) ∧
    (∀ p ∈ root.patterns source table imports,
      p.type ∈ ["custom-hook", "higher-order-component", "react-context"] → uses) ∧
    root.patterns source table imports =
      root.patterns source table (imports.filter (·.source == "react")) := by
  refine ⟨?_, fun p => uses_of_pattern, patterns_filter_imports⟩
  have hsingleton := (Shape.finds_singleton? source).firstIn (table.weight .singleton)
    (root.declarations source)
  have hfactory := (Shape.finds_factory? source).firstIn (table.weight .factory)
    (root.declarations source)
  cases hname : Import.frameworkName? imports with
  | none =>
    have hn := Import.frameworkName?_eq_none_iff.1 hname
    refine ⟨"", none, none, _, _, ?_, fun h => absurd h hn,
      Shape.firstIn_under_of_not hn _ _, Shape.firstIn_under_of_not hn _ _, hsingleton, hfactory⟩
    have hno : ((root.declarations source).filter
        ((Shape.customHook source).under (∃ i ∈ imports, i.source = "react")).IsCandidate) = [] :=
      List.filter_eq_nil_iff.2 fun d _ h => hn (of_decide_eq_true h).1
    rw [patterns, hname, hno]
    rfl
  | some framework =>
    have huses : ∃ i ∈ imports, i.source = "react" :=
      Import.frameworkName?_isSome_iff.1 (by rw [hname]; rfl)
    have hhigher := (Shape.finds_higherOrder? source).firstIn (table.weight .higherOrder)
      (root.declarations source)
    have hcontext := (Shape.finds_context? source framework).firstIn (table.weight .context)
      (Node.ofTree root).descendants
    refine ⟨framework, _, _, _, _, ?_, fun _ => Import.known_of_frameworkName? hname,
      hhigher.under huses, hcontext.under huses, hsingleton, hfactory⟩
    rw [patterns, hname, Shape.under_of huses, ← (Shape.finds_customHook? source).filterMap]
    rfl

end Tree

end ComponentSurvey
