import ComponentSurvey.Survey.Callables

/-!
Every declaration is classified once. A function is reported as a component or as a function, a class
by its methods and, when it extends a component, as a component too; nothing else is reported.
-/

set_option autoImplicit false

namespace ComponentSurvey

variable {source : Source}

theorem isCapitalized_iff {name : String} :
    isCapitalized name ↔ ∃ c ∈ name.toList.head?, 'A' ≤ c ∧ c ≤ 'Z' := by
  unfold isCapitalized
  cases name.toList with
  | nil => simp
  | cons c cs => simp

namespace Tree

def ExtendsComponent (source : Source) (t : Tree) : Prop :=
  "Component".toList <:+: (t.heritage source).toList

theorem isComponentClass_iff {t : Tree} :
    t.isComponentClass source ↔ t.ExtendsComponent source := by
  have hp : "Component".toList <:+: "PureComponent".toList := ⟨"Pure".toList, [], by decide⟩
  simp only [isComponentClass, Convention.componentBases, List.any_cons, List.any_nil,
    Bool.or_false, Bool.or_eq_true, Text.occursIn_iff]
  exact ⟨fun h => h.elim id hp.trans, .inl⟩

/-- Methods and signatures of methods. Accessors and the constructor are none. -/
structure IsMethod (source : Source) (m : Tree) : Prop where
  type_eq : m.type = "method_definition" ∨ m.type = "method_signature" ∨
    m.type = "abstract_method_signature"
  no_accessor : ∀ c ∈ m.children, c.named = false → c.type ≠ "get" ∧ c.type ≠ "set"
  no_constructor : m.name? source ≠ some "constructor"

theorem hasToken_eq_false_iff {t : Tree} {token : String} :
    t.hasToken token = false ↔ ∀ c ∈ t.children, c.named = false → c.type ≠ token := by
  simp [hasToken, List.any_eq_false]

theorem isPlainMethod_iff {m : Tree} : m.isPlainMethod source ↔ m.IsMethod source := by
  have ht : methodTypes.contains m.type ↔ m.type = "method_definition" ∨
      m.type = "method_signature" ∨ m.type = "abstract_method_signature" := by
    simp [methodTypes]
  simp only [isPlainMethod, Bool.and_eq_true, Bool.not_eq_true', Bool.or_eq_false_iff, ht,
    hasToken_eq_false_iff, bne_iff_ne]
  constructor
  · rintro ⟨⟨htype, hget, hset⟩, hname⟩
    exact ⟨htype, fun c hc hn => ⟨hget c hc hn, hset c hc hn⟩, hname⟩
  · rintro ⟨htype, htoken, hname⟩
    exact ⟨⟨htype, fun c hc hn => (htoken c hc hn).1, fun c hc hn => (htoken c hc hn).2⟩, hname⟩

end Tree

namespace Declaration

def ReadsAsComponent (d : Declaration) : Prop :=
  (∃ name ∈ d.name, ∃ c ∈ name.toList.head?, 'A' ≤ c ∧ c ≤ 'Z') ∧ d.target.returnsElements

theorem isComponentFunction_iff {d : Declaration} :
    d.isComponentFunction ↔ d.ReadsAsComponent := by
  rw [isComponentFunction, Bool.and_eq_true, Option.any_eq_true, ReadsAsComponent]
  simp only [isCapitalized_iff, Option.mem_def]

end Declaration

structure Component.Reports (source : Source) (d : Declaration) (c : Component) : Prop where
  name_eq : c.name = d.displayName
  kind_eq : c.kind = d.form.name
  location_eq : c.location = d.node.location source

structure Callable.Reports (source : Source) (d : Declaration) (f : Callable) : Prop where
  name_eq : f.name = d.displayName
  kind_eq : f.kind = d.form.name
  location_eq : f.location = d.node.location source

structure Callable.ReportsMethod (source : Source) (owner : String) (m : Tree) (f : Callable) :
    Prop where
  name_eq : f.name =
    owner ++ "." ++ (m.properName? source).getD (Tree.textOf source (m.field? "name"))
  kind_eq : f.kind = "method"
  location_eq : f.location = m.location source

inductive Tree.Methods (source : Source) (owner : String) : List Tree → List Callable → Prop where
  | nil : Methods source owner [] []
  | method {m : Tree} {f : Callable} {ms : List Tree} {fs : List Callable}
      (h : m.IsMethod source) (hf : f.ReportsMethod source owner m)
      (hs : Methods source owner ms fs) : Methods source owner (m :: ms) (f :: fs)
  | other {m : Tree} {ms : List Tree} {fs : List Callable} (h : ¬ m.IsMethod source)
      (hs : Methods source owner ms fs) : Methods source owner (m :: ms) fs

/-- What one declaration adds to the components and to the functions of its file. -/
inductive Declaration.Contributes (source : Source) (d : Declaration) :
    List Component → List Callable → Prop where
  | component {c : Component} (hd : d.form ≠ .classLike) (hr : d.ReadsAsComponent)
      (hc : c.Reports source d) : Contributes source d [c] []
  | function {f : Callable} (hd : d.form ≠ .classLike) (hr : ¬ d.ReadsAsComponent)
      (hf : f.Reports source d) (hk : f.kind ≠ "method") : Contributes source d [] [f]
  | componentClass {c : Component} {fs : List Callable} (hd : d.form = .classLike)
      (he : d.target.ExtendsComponent source) (hc : c.Reports source d)
      (hm : Tree.Methods source d.displayName d.target.members fs) : Contributes source d [c] fs
  | otherClass {fs : List Callable} (hd : d.form = .classLike)
      (he : ¬ d.target.ExtendsComponent source)
      (hm : Tree.Methods source d.displayName d.target.members fs) : Contributes source d [] fs

inductive Classified (source : Source) :
    List Declaration → List Component → List Callable → Prop where
  | nil : Classified source [] [] []
  | cons {d : Declaration} {ds : List Declaration} {cs cs' : List Component}
      {fs fs' : List Callable} (h : d.Contributes source cs fs) (hs : Classified source ds cs' fs') :
      Classified source (d :: ds) (cs ++ cs') (fs ++ fs')

theorem Tree.methods_filter (source : Source) (owner : String) (ms : List Tree) :
    Methods source owner ms ((ms.filter (isPlainMethod source)).map (method source owner)) := by
  induction ms with
  | nil => exact .nil
  | cons m ms ih =>
    cases hm : m.isPlainMethod source with
    | true =>
      rw [List.filter_cons_of_pos hm, List.map_cons]
      exact .method (isPlainMethod_iff.1 hm) ⟨rfl, rfl, rfl⟩ ih
    | false =>
      rw [List.filter_cons_of_neg (by simp [hm])]
      exact .other (fun h => by simp [isPlainMethod_iff.2 h] at hm) ih

namespace Declaration

theorem contributes_classLike {d : Declaration} (h : d.form = .classLike) :
    d.Contributes source (d.component? source).toList (d.callables source) := by
  have hm := Tree.methods_filter source d.displayName d.target.members
  have hb : d.form == .classLike := by simpa using h
  rw [component?, callables, if_pos hb, if_pos hb]
  cases he : d.target.isComponentClass source with
  | true =>
    have hk : "class" = d.form.name := by rw [h, DeclarationForm.name]
    exact .componentClass h (Tree.isComponentClass_iff.1 he) ⟨rfl, hk, rfl⟩ hm
  | false =>
    exact .otherClass h (fun hc => by simp [Tree.isComponentClass_iff.2 hc] at he) hm

theorem contributes_function {d : Declaration} (h : d.form ≠ .classLike) :
    d.Contributes source (d.component? source).toList (d.callables source) := by
  have hb : ¬ d.form == .classLike := by simpa using h
  rw [component?, callables, if_neg hb, if_neg hb]
  cases hr : d.isComponentFunction with
  | true => exact .component h (isComponentFunction_iff.1 hr) ⟨rfl, rfl, rfl⟩
  | false =>
    have hk : d.form.name ≠ "method" := by cases d.form <;> decide
    exact .function h (fun hc => by simp [isComponentFunction_iff.2 hc] at hr) ⟨rfl, rfl, rfl⟩ hk

theorem contributes (source : Source) (d : Declaration) :
    d.Contributes source (d.component? source).toList (d.callables source) := by
  by_cases h : d.form = .classLike
  · exact contributes_classLike h
  · exact contributes_function h

end Declaration

theorem classified_filterMap (ds : List Declaration) :
    Classified source ds (ds.filterMap (Declaration.component? source))
      (ds.flatMap (Declaration.callables source)) := by
  induction ds with
  | nil => exact .nil
  | cons d ds ih =>
    have h := Classified.cons (d.contributes source) ih
    rw [List.flatMap_cons, List.filterMap_cons]
    cases hc : d.component? source with
    | none => simpa [hc] using h
    | some c => simpa [hc] using h

/-- The components and functions of a file are what its declarations contribute, in their order. -/
theorem Tree.classified_declarations (source : Source) (root : Tree) :
    Classified source (root.declarations source) (root.components source)
      (root.callables source) := classified_filterMap (root.declarations source)

end ComponentSurvey
