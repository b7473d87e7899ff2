import ComponentSurvey.Proofs.Survey.Uncommented
import ComponentSurvey.Proofs.Tree.Thinning

/-!
Comments and the variables that calls of the state hook are bound to. A comment in front of the first
name of a list pattern hides that name, and no other comment hides one.
-/

set_option autoImplicit false

namespace ComponentSurvey

open Label (isRemark)

variable {source : Source}

namespace Tree

def elementName? (source : Source) (element : Tree) : Option String :=
  (if element.type == "assignment_pattern" then element.field? "left" else some element).bind
    fun e => if e.type == "identifier" then some (e.text source) else none

def firstWrittenName? (source : Source) (pattern : Tree) : Option String :=
  (pattern.children.find? fun t => t.type != "[" && t.type != "comment").bind (elementName? source)

/-- Whether a comment stands between the bracket and the first name of a list pattern. -/
def hidesName (source : Source) (pattern : Tree) : Bool :=
  (pattern.children.find? (·.type != "[")).any isComment && (pattern.firstWrittenName? source).isSome

theorem elementName?_comment {t : Tree} (h : t.type = "comment") :
    t.elementName? source = none := by
  simp [elementName?, h]

theorem firstElementName?_eq (pattern : Tree) :
    pattern.firstElementName? source =
      if (pattern.children.find? (·.type != "[")).any isComment then none
      else pattern.firstWrittenName? source := by
  have hfirst : pattern.firstElementName? source =
      (pattern.children.find? (·.type != "[")).bind (elementName? source) := rfl
  rw [hfirst, firstWrittenName?]
  induction pattern.children with
  | nil => rfl
  | cons t ts ih =>
    by_cases hb : t.type = "["
    · simpa [hb] using ih
    · by_cases hc : t.type = "comment"
      · simp [hc, isComment, elementName?_comment hc]
      · simp [hb, hc, isComment]

/-- The survey reads the name that is written, unless a comment hides it. -/
theorem firstElementName?_eq_ite (pattern : Tree) :
    pattern.firstElementName? source =
      if pattern.hidesName source then none else pattern.firstWrittenName? source := by
  rw [firstElementName?_eq, hidesName]
  cases (pattern.children.find? (·.type != "[")).any isComment <;>
    cases pattern.firstWrittenName? source <;> rfl

variable {t u : Tree}

theorem Thinned.type_eq (h : Thinned isRemark t u) : t.type = u.type :=
  congrArg Label.type h.label_eq

theorem Thinned.elementName?_eq (h : Thinned isRemark t u) :
    t.elementName? source = u.elementName? source := by
  have hname (t u : Tree) (h : Thinned isRemark t u) :
      (if t.type == "identifier" then some (t.text source) else none) =
        if u.type == "identifier" then some (u.text source) else none := by
    rw [h.type_eq, text, span, h.label_eq, text, span]
  rw [elementName?, h.type_eq, elementName?]
  split
  · exact (h.field? Label.Ignorable.fields_eq_nil "left").bind_eq hname
  · exact hname t u h

theorem Thinned.firstWrittenName?_eq (h : Thinned isRemark t u) :
    t.firstWrittenName? source = u.firstWrittenName? source :=
  (h.children.find? (p := fun l => l.type != "[" && l.type != "comment") fun l hl => by
    simp [Label.type_of_isRemark hl]).bind_eq fun _ _ he => he.elementName?_eq

/-- A first element is a comment no longer when comments go, never the other way round. -/
theorem ThinnedList.any_isComment {ts us : List Tree} (h : ThinnedList isRemark ts us)
    (hu : (us.find? (·.type != "[")).any isComment) :
    (ts.find? (·.type != "[")).any isComment := by
  induction h using ThinnedList.induction with
  | nil => exact hu
  | keep ht _ ih =>
    rw [List.find?_cons, ht.type_eq]
    rw [List.find?_cons] at hu
    split
    · simpa [*, isComment, ht.type_eq] using hu
    · exact ih (by simpa [*] using hu)
  | @drop l _ _ hl _ ih =>
    have hc : (node l []).type = "comment" := Label.type_of_isRemark hl
    simp [hc, isComment]

theorem Thinned.hidesName_of (h : Thinned isRemark t u) (hu : u.hidesName source) :
    t.hidesName source := by
  rw [hidesName, Bool.and_eq_true] at hu ⊢
  exact ⟨h.children.any_isComment hu.1, by rw [h.firstWrittenName?_eq]; exact hu.2⟩

/-- A comment that goes leaves what a pattern says as it is, or uncovers its first name. -/
theorem Thinned.uncovers (source : Source) (h : Thinned isRemark t u) :
    t.firstElementName? source = u.firstElementName? source ∧
        t.hidesName source = u.hidesName source ∨
      t.firstElementName? source = none ∧ (∃ a, u.firstElementName? source = some a) ∧
        t.hidesName source ≠ u.hidesName source := by
  rw [firstElementName?_eq_ite t, firstElementName?_eq_ite u, h.firstWrittenName?_eq]
  cases ht : t.hidesName source with
  | false =>
    have hu : ¬ u.hidesName source := fun hu => by simp [h.hidesName_of hu] at ht
    simp [hu]
  | true =>
    cases hu : u.hidesName source with
    | true => exact .inl ⟨rfl, rfl⟩
    | false =>
      rw [hidesName, Bool.and_eq_true, h.firstWrittenName?_eq] at ht
      exact .inr ⟨rfl, Option.isSome_iff_exists.1 ht.2, by decide⟩

end Tree

namespace Node

def boundPattern? (call : Node) : Option Tree :=
  call.parent?.bind fun declarator =>
    if declarator.kind == .variable && call.isField "value" then
      (declarator.tree.field? "name").filter (·.type == "array_pattern")
    else none

/-- List pattern that takes a state and its setter. -/
def statePattern? (source : Source) (n : Node) : Option Tree :=
  if n.kind == .call && n.tree.hookName? source == some Convention.stateHook then n.boundPattern?
  else none

theorem stateVariable?_eq (call : Node) :
    call.stateVariable? source = call.boundPattern?.bind (Tree.firstElementName? source) := by
  rw [stateVariable?, boundPattern?, Option.bind_assoc]
  refine congrArg _ (funext fun declarator => ?_)
  split
  · cases declarator.tree.field? "name" with
    | none => rfl
    | some pattern => by_cases h : pattern.type = "array_pattern" <;> simp [h, Option.filter]
  · rfl

end Node

namespace Tree

def statePatterns (source : Source) (t : Tree) : List Tree :=
  (Node.ofTree t).descendants.filterMap (Node.statePattern? source)

def writtenStates (source : Source) (t : Tree) : List String :=
  (t.statePatterns source).filterMap (firstWrittenName? source)

theorem stateVariables_eq (t : Tree) :
    (t.hookUsage source).stateVariables =
      (t.statePatterns source).filterMap (firstElementName? source) := by
  have hv : (t.hookUsage source).stateVariables = (t.hookCalls source).filterMap fun call =>
      if call.1 == Convention.stateHook then call.2.stateVariable? source else none := rfl
  rw [hv, hookCalls, statePatterns, List.filterMap_filterMap, List.filterMap_filterMap]
  refine congrArg (List.filterMap · _) (funext fun n => ?_)
  by_cases hk : n.kind == .call
  · cases hn : n.tree.hookName? source with
    | none => simp [Node.statePattern?, hk, hn]
    | some name =>
      by_cases hs : name = Convention.stateHook <;>
        simp [Node.statePattern?, hk, hn, hs, Node.stateVariable?_eq]
  · simp [Node.statePattern?, hk]

theorem Thinned.hookName?_eq {t u : Tree} (h : Thinned isRemark t u) :
    t.hookName? source = u.hookName? source := by
  refine (h.field? Label.Ignorable.fields_eq_nil "function").bind_eq fun t u h => ?_
  rw [h.type_eq, text, span, h.label_eq, text, span]

end Tree

namespace Node

variable {n m : Node}

theorem Thinned.boundPattern? (h : n.Thinned isRemark m) :
    Tree.FoundThinned isRemark n.boundPattern? m.boundPattern? := by
  obtain ⟨hn, hm⟩ | ⟨p, q, hn, hm, hp⟩ := h.parent?
  · rw [Node.boundPattern?, hn, Node.boundPattern?, hm]
    exact .none
  · rw [Node.boundPattern?, hn, Node.boundPattern?, hm, Option.bind_some, Option.bind_some,
      hp.kind_eq, h.isField_eq Label.Ignorable.fields_eq_nil]
    split
    · exact (hp.tree.field? Label.Ignorable.fields_eq_nil "name").filter fun l =>
        l.type == "array_pattern"
    · exact .none

theorem Thinned.statePattern? (h : n.Thinned isRemark m) :
    Tree.FoundThinned isRemark (n.statePattern? source) (m.statePattern? source) := by
  rw [Node.statePattern?, h.kind_eq, h.tree.hookName?_eq, Node.statePattern?]
  split
  · exact h.boundPattern?
  · exact .none

theorem statePattern?_of_isRemark (h : isRemark n.tree.label) : n.statePattern? source = none := by
  have hk : n.kind = .other := Tree.kind_eq_other h
  simp [Node.statePattern?, hk]

end Node

namespace Tree

theorem forall₂_statePatterns (source : Source) {t u : Tree} (h : Thinned isRemark t u) :
    List.Forall₂ (Thinned isRemark) (t.statePatterns source) (u.statePatterns source) :=
  (Node.aligned_descendants h).filterMap (fun _ => Node.statePattern?_of_isRemark)
    fun _ _ => Node.Thinned.statePattern?

section

variable {ps qs : List Tree} (h : List.Forall₂ (Thinned isRemark) ps qs)

include h

theorem filterMap_firstWrittenName? :
    ps.filterMap (firstWrittenName? source) = qs.filterMap (firstWrittenName? source) := by
  induction h with
  | nil => rfl
  | cons hpq _ ih => rw [List.filterMap_cons, hpq.firstWrittenName?_eq, ih, List.filterMap_cons]

theorem filterMap_firstElementName?_sublist :
    (ps.filterMap (firstElementName? source)).Sublist
      (qs.filterMap (firstElementName? source)) := by
  induction h with
  | nil => exact .slnil
  | cons hpq _ ih =>
    obtain ⟨hname, -⟩ | ⟨hp, ⟨a, hq⟩, -⟩ := hpq.uncovers source
    · rw [List.filterMap_cons, hname, List.filterMap_cons]
      split
      · exact ih
      · exact ih.cons_cons _
    · rw [List.filterMap_cons_none hp, List.filterMap_cons_some hq]
      exact ih.cons a

theorem filterMap_firstElementName?_eq_iff :
    ps.filterMap (firstElementName? source) = qs.filterMap (firstElementName? source) ↔
      ps.map (hidesName source) = qs.map (hidesName source) := by
  induction h with
  | nil => simp
  | @cons p q ps qs hpq hrest ih =>
    rw [List.map_cons, List.map_cons, List.cons.injEq, ← ih]
    obtain ⟨hname, hhides⟩ | ⟨hp, ⟨a, hq⟩, hhides⟩ := hpq.uncovers source
    · rw [List.filterMap_cons, hname, List.filterMap_cons]
      split <;> simp [hhides]
    · -- one name more is left on the right, where no name of the left can be missing
      rw [List.filterMap_cons_none hp, List.filterMap_cons_some hq]
      have hlength : (ps.filterMap (firstElementName? source)).length ≤
          (qs.filterMap (firstElementName? source)).length :=
        (filterMap_firstElementName?_sublist hrest).length_le
      constructor
      · intro heq
        rw [heq, List.length_cons] at hlength
        omega
      · simp [hhides]

end

theorem filterMap_firstElementName?_eq_written {ps : List Tree}
    (h : ∀ p ∈ ps, p.hidesName source = false) :
    ps.filterMap (firstElementName? source) = ps.filterMap (firstWrittenName? source) :=
  List.filterMap_congr fun p hp => by
    rw [firstElementName?_eq_ite, h p hp]
    rfl

theorem filterMap_firstElementName?_sublist_written (ps : List Tree) :
    (ps.filterMap (firstElementName? source)).Sublist
      (ps.filterMap (firstWrittenName? source)) := by
  have hf : ps.filterMap (firstElementName? source) =
      (ps.filter fun p => !p.hidesName source).filterMap (firstWrittenName? source) := by
    rw [List.filterMap_filter]
    refine List.filterMap_congr fun p _ => ?_
    rw [firstElementName?_eq_ite]
    cases p.hidesName source <;> rfl
  rw [hf]
  exact List.filter_sublist.filterMap _

/-- The names that the source gives to states do not depend on comments. The state variables are among
them, more of them the more comments go: all of them when no comment hides one, and then no comment
that goes changes them. In general they change exactly when a name comes out from behind one. -/
theorem stateVariables_of_thinned (source : Source) {t u : Tree} (h : Thinned isRemark t u) :
    let shown (v : Tree) := (v.hookUsage source).stateVariables
    ((∀ p ∈ t.statePatterns source, p.hidesName source = false) →
        shown u = shown t ∧ shown t = t.writtenStates source) ∧
      (shown t = shown u ↔ (t.statePatterns source).map (hidesName source) =
        (u.statePatterns source).map (hidesName source)) ∧
      u.writtenStates source = t.writtenStates source ∧
      (shown t).Sublist (shown u) ∧ (shown u).Sublist (t.writtenStates source) := by
  intro shown
  have hpatterns := forall₂_statePatterns source h
  have hshown (v : Tree) : shown v = (v.statePatterns source).filterMap (firstElementName? source) :=
    stateVariables_eq v
  have hwritten : u.writtenStates source = t.writtenStates source :=
    (filterMap_firstWrittenName? hpatterns).symm
  have hsublist : (shown t).Sublist (shown u) := by
    rw [hshown, hshown]
    exact filterMap_firstElementName?_sublist hpatterns
  have hbound : (shown u).Sublist (t.writtenStates source) := by
    rw [hshown, ← hwritten]
    exact filterMap_firstElementName?_sublist_written _
  refine ⟨fun hnone => ?_, ?_, hwritten, hsublist, hbound⟩
  · have ht : shown t = t.writtenStates source := by
      rw [hshown]
      exact filterMap_firstElementName?_eq_written hnone
    exact ⟨(hbound.antisymm (ht ▸ hsublist)).trans ht.symm, ht⟩
  · rw [hshown, hshown]
    exact filterMap_firstElementName?_eq_iff hpatterns

def leafAt (type : String) (named : Bool) (start stop : Nat) : Tree :=
  .node ⟨type, named, false, ⟨start, stop⟩, []⟩ []

/-- The tree of a statement `const[…]=useState()`, with what stands in the five bytes between its
brackets. -/
def stateBinding (elements : List Tree) : Tree :=
  .node ⟨"lexical_declaration", true, false, ⟨0, 23⟩, []⟩
    [leafAt "const" false 0 5,
      .node ⟨"variable_declarator", true, false, ⟨5, 23⟩, []⟩
        [.node ⟨"array_pattern", true, false, ⟨5, 12⟩, ["name"]⟩
            (leafAt "[" false 5 6 :: elements ++ [leafAt "]" false 11 12]),
          leafAt "=" false 12 13,
          .node ⟨"call_expression", true, false, ⟨13, 23⟩, ["value"]⟩
            [.node ⟨"identifier", true, false, ⟨13, 21⟩, ["function"]⟩ [],
              .node ⟨"arguments", true, false, ⟨21, 23⟩, ["arguments"]⟩
                [leafAt "(" false 21 22, leafAt ")" false 22 23]]]]

theorem thinned_stateBinding {elements elements' : List Tree}
    (h : ThinnedList isRemark elements elements') :
    Thinned isRemark (stateBinding elements) (stateBinding elements') := by
  have hpattern := (ThinnedList.keep (.refl isRemark (leafAt "[" false 5 6)) h).append
    (.refl isRemark [leafAt "]" false 11 12])
  exact .node (.keep (.refl _ _)
    (.keep (.node (.keep (.node hpattern) (.refl _ _))) .nil))

theorem stateVariables_of_thinned_trailing :
    let source := Source.ofBytes "const[a/**/]=useState()".toUTF8.toList
    let name := leafAt "identifier" true 6 7
    let remark := leafAt "comment" true 7 11
    ((stateBinding [name]).hookUsage source).stateVariables =
        ((stateBinding [name, remark]).hookUsage source).stateVariables ∧
      ((stateBinding [name]).hookUsage source).stateVariables = ["a"] := by
  intro source name remark
  have h : ThinnedList isRemark [name, remark] [name] := .keep (.refl _ _) (.drop (by decide) .nil)
  refine ⟨((stateVariables_of_thinned source (thinned_stateBinding h)).1 ?_).1, ?_⟩
  · decide +kernel
  · decide +kernel

theorem stateVariable_hidden :
    let source := Source.ofBytes "const[/**/a]=useState()".toUTF8.toList
    let remark := leafAt "comment" true 6 10
    let name := leafAt "identifier" true 10 11
    Thinned isRemark (stateBinding [remark, name]) (stateBinding [name]) ∧
      ((stateBinding [remark, name]).hookUsage source).stateVariables = [] ∧
      ((stateBinding [name]).hookUsage source).stateVariables = ["a"] := by
  intro source remark name
  have h : ThinnedList isRemark [remark, name] [name] := .drop (by decide) (.keep (.refl _ _) .nil)
  refine ⟨thinned_stateBinding h, ?_, ?_⟩
  · decide +kernel
  · decide +kernel

end Tree

end ComponentSurvey
