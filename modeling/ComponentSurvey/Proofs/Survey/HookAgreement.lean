import ComponentSurvey.Proofs.Survey.Sites
import ComponentSurvey.Proofs.Survey.Spines

/-!
The hooks of a component and the hooks of its file. What a component is said to use is exactly what
the file lists below it, and what the file lists there is counted to the component or to one inside.
-/

set_option autoImplicit false

namespace ComponentSurvey

variable {source : Source}

namespace Node

def placedHook? (source : Source) (call : Node) : Option (Node × Hook) :=
  if call.kind == .call then
    (call.tree.hookName? source).map fun name => (call, call.hook source name)
  else none

def hooksBelow (source : Source) (n : Node) : List (Node × Hook) :=
  n.descendants.filterMap (placedHook? source)

theorem map_snd_hooksBelow (root : Tree) :
    ((ofTree root).hooksBelow source).map (·.2) = root.hooks source := by
  rw [hooksBelow, List.map_filterMap, Tree.hooks, Tree.hookCalls, List.map_filterMap]
  refine congrArg (List.filterMap · _) (funext fun n => ?_)
  rw [placedHook?]
  by_cases hk : n.kind == .call
  · simp [hk, Function.comp_def]
  · simp [hk]

theorem map_name_hooksBelow (source : Source) (n : Node) :
    (n.hooksBelow source).map (·.2.name) = (n.tree.hookCalls source).map (·.1) := by
  rw [Tree.map_fst_hookCalls, ← map_tree_descendants, List.filterMap_map, hooksBelow,
    List.map_filterMap]
  refine congrArg (List.filterMap · _) (funext fun c => ?_)
  rw [placedHook?]
  by_cases hk : c.tree.kind = .call
  · simp [kind, hk, hook, Function.comp_def]
  · simp [kind, hk]

theorem eq_of_placedHook? {call : Node} {e : Node × Hook} (h : call.placedHook? source = some e) :
    e.1 = call ∧ e.2 = call.hook source e.2.name := by
  rw [placedHook?] at h
  split at h
  · obtain ⟨name, -, rfl⟩ := Option.map_eq_some_iff.1 h
    exact ⟨rfl, rfl⟩
  · cases h

theorem eq_hook_of_mem_hooksBelow {n : Node} {e : Node × Hook} (h : e ∈ n.hooksBelow source) :
    e.1 ∈ n.descendants ∧ e.2 = e.1.hook source e.2.name := by
  obtain ⟨call, hc, he⟩ := List.mem_filterMap.1 h
  obtain ⟨rfl, hh⟩ := eq_of_placedHook? he
  exact ⟨hc, hh⟩

open scoped Classical in
/-- The hooks listed below a node are those of the file whose call stands below it. -/
theorem filter_hooksBelow {n m : Node} (h : m ∈ n.descendants) :
    (n.hooksBelow source).filter (·.1 ∈ m.descendants) = m.hooksBelow source := by
  have hf : (n.hooksBelow source).filter (·.1 ∈ m.descendants) =
      (n.descendants.filter (· ∈ m.descendants)).filterMap (placedHook? source) := by
    rw [hooksBelow, List.filter_filterMap, List.filterMap_filter]
    refine congrArg (List.filterMap · _) (funext fun c => ?_)
    cases hc : c.placedHook? source with
    | none => simp
    | some e => simp [(eq_of_placedHook? hc).1, Option.filter]
  rw [hf, filter_descendants h, hooksBelow]

end Node

namespace Declaration

theorem eq_functionComponent {d : Declaration} {c : Component}
    (h : d.component? source = some c) (hf : d.form ≠ .classLike) :
    c = d.functionComponent source ∧ d.isComponentFunction := by
  rw [component?, if_neg (by simpa using hf)] at h
  cases hd : d.isComponentFunction with
  | false => simp [hd] at h
  | true => exact ⟨by simpa [hd] using h.symm, rfl⟩

theorem capitalized_of_isComponentFunction {d : Declaration} (h : d.isComponentFunction) :
    ∃ name, d.name = some name ∧ isCapitalized name := by
  rw [isComponentFunction, Bool.and_eq_true, Option.any_eq_true_iff_get] at h
  obtain ⟨⟨hs, hc⟩, -⟩ := h
  exact ⟨d.name.get hs, by simp, hc⟩

end Declaration

theorem Tree.effects_eq (t : Tree) : (t.hookUsage source).effects =
    List.replicate (((t.hookCalls source).map (·.1)).count Convention.effectHook)
      Convention.effectHook :=
  List.filter_beq _

theorem Tree.length_stateVariables_le (t : Tree) : (t.hookUsage source).stateVariables.length ≤
    ((t.hookCalls source).map (·.1)).count Convention.stateHook := by
  have hs : (t.hookUsage source).stateVariables =
      ((t.hookCalls source).filter (·.1 == Convention.stateHook)).filterMap
        fun call => call.2.stateVariable? source := by
    rw [List.filterMap_filter]
    rfl
  rw [hs, List.count, List.countP_map, List.countP_eq_length_filter]
  exact List.length_filterMap_le _ _

namespace Node

theorem not_outsideFunction {call : Node} (h : call.isInFunction) (name : String) :
    HookViolation.outsideFunction.text ∉ (call.hook source name).violations.getD [] := by
  cases hc : call.isConditional <;> simp [hook, violations, h, hc, HookViolation.text]

theorem isInFunction_of_mem_descendants {call target : Node} (h : call ∈ target.descendants)
    (hk : target.kind.isFunctionLike) : call.isInFunction :=
  List.any_eq_true.2 ⟨target, mem_descendants_iff.1 h, hk⟩

end Node

namespace Site

/-- A name that a call of a hook has from above it: from the declaration itself, or from a component
that stands inside the declaration around the call. -/
def Attributes (source : Source) (s : Site) (call : Node) (name : String) : Prop :=
  ∃ a ∈ call.ancestors, a.tree.componentName? source = some name ∧
    (a = s.node ∧ s.name = some name ∨ a ∈ s.target.descendants)

theorem attributes_of {s : Site} {call : Node} {inner rest : List Node} {name : String}
    (outer : List Node) (habove : call.ancestors = inner ++ (outer ++ s.node :: rest))
    (hinner : ∀ a ∈ inner, a ∈ s.target.descendants)
    (houter : ∀ a ∈ outer, a.tree.componentName? source = none)
    (hnode : s.node.tree.componentName? source = some name) (hname : s.name = some name) :
    s.Attributes source call (call.enclosingComponent source) := by
  have ho : outer.findSome? (·.tree.componentName? source) = none :=
    List.findSome?_eq_none_iff.2 houter
  rw [Node.enclosingComponent, Attributes, habove, List.findSome?_append, List.findSome?_append,
    ho, Option.none_or, List.findSome?_cons, hnode]
  cases hi : inner.findSome? (·.tree.componentName? source) with
  | none =>
    refine ⟨s.node, ?_, by simpa using hnode, .inl ⟨rfl, by simpa using hname⟩⟩
    exact List.mem_append_right _ (List.mem_append_right _ List.mem_cons_self)
  | some b =>
    obtain ⟨a, ha, hb⟩ := List.exists_of_findSome?_eq_some hi
    exact ⟨a, List.mem_append_left _ ha, by simpa using hb, .inr (hinner a ha)⟩

theorem Found.attributes {s : Site} (h : s.Found source)
    (hk : s.target.kind = .function ∨ s.node.kind = .variable)
    (hc : s.declaration.isComponentFunction) {call : Node} (hd : call ∈ s.target.descendants) :
    s.Attributes source call (call.enclosingComponent source) := by
  obtain ⟨inner, habove, hinner⟩ := Node.ancestors_of_mem_descendants hd
  obtain ⟨name, hname, hcap⟩ := Declaration.capitalized_of_isComponentFunction hc
  have hnamed {k : Kind} (hn : s.node.kind = k) (hk : k = .function ∨ k = .variable)
      (hs : s.node.tree.name? source = some name) :
      s.node.tree.componentName? source = some name := by
    rw [Tree.componentName?, ← Node.kind, hn, hs]
    rcases hk with rfl | rfl <;> simp [Option.filter, hcap]
  cases h with
  | classLike h => simp [h] at hk
  | function h =>
    have hn := hk.resolve_right (by rcases h with h | h <;> simp [h])
    exact attributes_of [] habove hinner (by simp) (hnamed hn (.inl rfl) hname) hname
  | arrow h => cases hname
  | @bound n value form bindName outer hn hbind hvalue houter hkind =>
    rw [hvalue] at habove
    refine attributes_of (value :: outer) habove hinner (fun a ha => ?_)
      (hnamed hn (.inr rfl) (hbind.trans hname)) hname
    rcases List.mem_cons.1 ha with rfl | ha
    · rcases hkind with ⟨-, hv⟩ | ⟨-, hv⟩ <;> rw [Tree.componentName?, ← Node.kind, hv]
    · have hp : a.tree.kind = .other := by
        rw [Tree.kind, Label.kind, ← Tree.type, houter a ha]
        cases a.tree.label.named <;> rfl
      rw [Tree.componentName?, hp]

structure Agrees (source : Source) (s : Site) (c : Component) (listed : List (Node × Hook)) :
    Prop where
  hooks_eq : c.hooks = (listed.map (·.2.name)).eraseDups
  effects_eq : c.effects =
    .replicate (listed.countP (·.2.name == Convention.effectHook)) Convention.effectHook
  length_stateVariables_le :
    c.stateVariables.length ≤ listed.countP (·.2.name == Convention.stateHook)
  in_function : ∀ e ∈ listed, HookViolation.outsideFunction.text ∉ e.2.violations.getD []
  attributed : s.target.kind = .function ∨ s.node.kind = .variable →
    ∀ e ∈ listed, s.Attributes source e.1 e.2.component

theorem Found.agrees {s : Site} (h : s.Found source) (hf : s.form ≠ .classLike) {c : Component}
    (hc : s.declaration.component? source = some c) :
    s.Agrees source c (s.target.hooksBelow source) := by
  obtain ⟨rfl, hd⟩ := Declaration.eq_functionComponent hc hf
  have hnames := Node.map_name_hooksBelow source s.target
  have hcount (name : String) : (s.target.hooksBelow source).countP (·.2.name == name) =
      ((s.target.tree.hookCalls source).map (·.1)).count name := by
    rw [← hnames, List.count, List.countP_map]
    rfl
  refine ⟨?_, ?_, ?_, fun e he => ?_, fun hk e he => ?_⟩
  · rw [hnames]
    rfl
  · rw [hcount]
    exact Tree.effects_eq s.target.tree
  · rw [hcount]
    exact Tree.length_stateVariables_le s.target.tree
  · obtain ⟨hm, hh⟩ := Node.eq_hook_of_mem_hooksBelow he
    rw [hh]
    exact Node.not_outsideFunction
      (Node.isInFunction_of_mem_descendants hm (h.isFunctionLike_target hf)) _
  · obtain ⟨hm, hh⟩ := Node.eq_hook_of_mem_hooksBelow he
    rw [hh]
    exact h.attributes hk hd hm

end Site

open scoped Classical in
/-- The sites are the declarations of the file, the hooks below its root are all its hooks, and each
function component agrees with those of them whose call stands below its target. -/
theorem Tree.components_agree_with_hooks (source : Source) (root : Tree) :
    (root.sites source).map Site.declaration = root.declarations source ∧
      ((Node.ofTree root).hooksBelow source).map (·.2) = root.hooks source ∧
      ∀ s ∈ root.sites source, ∀ c, s.declaration.component? source = some c →
        s.form ≠ .classLike → s.Agrees source c
          (((Node.ofTree root).hooksBelow source).filter (·.1 ∈ s.target.descendants)) := by
  refine ⟨root.map_declaration_sites source, Node.map_snd_hooksBelow root, ?_⟩
  intro s hs c hc hf
  obtain ⟨hfound, hd⟩ := found_sites hs
  rw [Node.filter_hooksBelow hd]
  exact hfound.agrees hf hc

end ComponentSurvey
