import Mathlib.Data.List.Basic
import ComponentSurvey.Proofs.Lists.FirstOccurrences
import ComponentSurvey.Proofs.Survey.Spines
import ComponentSurvey.Survey.Callables

/-!
What is called below a node. Each text that is called is listed where it is first called; the hooks of
a function are the part of this list that plain names with the beginning `use` make up.
-/

set_option autoImplicit false

namespace ComponentSurvey.Tree

def calleeText? (source : Source) (types : List String) (c : Tree) : Option String :=
  if c.kind == .call then
    (c.field? "function").bind fun callee =>
      if types.contains callee.type then some (callee.text source) else none
  else none

variable {source : Source} {t c : Tree}

theorem calleeText?_cons (type : String) (types : List String) :
    c.calleeText? source (type :: types) =
      (c.calleeText? source [type]).or (c.calleeText? source types) := by
  unfold calleeText?
  by_cases hk : c.kind == .call
  · rw [if_pos hk, if_pos hk, if_pos hk]
    cases c.field? "function" with
    | none => rfl
    | some callee => by_cases ht : callee.type = type <;> simp [ht]
  · rw [if_neg hk, if_neg hk, if_neg hk, Option.or_none]

theorem calledNames_eq (source : Source) (t : Tree) : t.calledNames source =
    (t.descendants.filterMap (calleeText? source ["identifier", "member_expression"])).eraseDups := by
  rw [calledNames, descendantsOf, List.filterMap_filter]
  refine congrArg (fun f => (t.descendants.filterMap f).eraseDups) (funext fun c => ?_)
  simp [calleeText?]

theorem hookName?_eq (source : Source) (c : Tree) :
    (if c.kind == .call then c.hookName? source else none) =
      (c.calleeText? source ["identifier"]).filter (Text.startsWith "use") := by
  unfold calleeText?
  by_cases hk : c.kind == .call
  · rw [if_pos hk, if_pos hk, hookName?]
    cases c.field? "function" with
    | none => rfl
    | some callee => by_cases ht : callee.type = "identifier" <;> simp [ht, Option.filter]
  · rw [if_neg hk, if_neg hk, Option.filter_none]

theorem hooks_hookUsage_eq (source : Source) (t : Tree) : (t.hookUsage source).hooks =
    (t.descendants.filterMap fun c =>
      (c.calleeText? source ["identifier"]).filter (Text.startsWith "use")).eraseDups := by
  simp only [← hookName?_eq, ← map_fst_hookCalls]
  rfl

theorem pairwise_calledNames (source : Source) (t : Tree) :
    let callee? := calleeText? source ["identifier", "member_expression"]
    (t.calledNames source).Pairwise fun a b => ∃ before c after,
      t.descendants = before ++ c :: after ∧ callee? c = some a ∧
        ∀ d ∈ before, callee? d ≠ some b := by
  intro callee?
  rw [calledNames_eq]
  refine (pairwise_eraseDups _).imp fun {a b} ⟨before, after, hl, hb⟩ => ?_
  obtain ⟨ds, rest, hd, rfl, hrest⟩ := List.filterMap_eq_append_iff.1 hl
  obtain ⟨skipped, c, es, rfl, hskipped, hc, -⟩ := List.filterMap_eq_cons_iff.1 hrest
  refine ⟨ds ++ skipped, c, es, by rw [hd, List.append_assoc], hc, fun d hm hdb => ?_⟩
  -- What stands before `c` has a text of the list before `a`, or calls nothing that is listed.
  rcases List.mem_append.1 hm with hm | hm
  · exact hb (List.mem_filterMap.2 ⟨d, hm, hdb⟩)
  · cases hdb.symm.trans (hskipped d hm)

/-- Where no property chain reads like a plain name, a text is called as a plain name by the calls of
that text and by no others. -/
theorem filter_calleeText? {p : String → Bool}
    (h : ∀ c ∈ t.descendants, ∀ d ∈ t.descendants, ∀ name,
      c.calleeText? source ["identifier"] = some name →
        d.calleeText? source ["member_expression"] ≠ some name) (hc : c ∈ t.descendants) :
    (c.calleeText? source ["identifier"]).filter p =
      (c.calleeText? source ["identifier", "member_expression"]).filter fun name =>
        p name && t.descendants.any (·.calleeText? source ["identifier"] == some name) := by
  rw [calleeText?_cons "identifier" ["member_expression"]]
  cases hi : c.calleeText? source ["identifier"] with
  | some name =>
    have hany : t.descendants.any (·.calleeText? source ["identifier"] == some name) :=
      List.any_eq_true.2 ⟨c, hc, beq_iff_eq.2 hi⟩
    simp only [Option.some_or, Option.filter_some, hany, Bool.and_true]
  | none =>
    cases hm : c.calleeText? source ["member_expression"] with
    | none => rfl
    | some name =>
      have hany : t.descendants.any (·.calleeText? source ["identifier"] == some name) = false := by
        refine List.any_eq_false.2 fun d hd hn => ?_
        exact h d hd c hc name (beq_iff_eq.1 hn) hm
      simp only [Option.none_or, Option.filter_some, hany, Bool.and_false, Option.filter_none,
        Bool.false_eq_true, if_false]

/-- What is called below a node by a plain name or a property chain is listed once, in the order of
first calls. Where no property chain reads like a plain name, the hooks that are called are those of the
list that are called by plain names and begin with `use`, in the same order. -/
theorem hooks_among_calledNames (source : Source) (t : Tree) :
    let called := t.calledNames source
    let callee? := calleeText? source ["identifier", "member_expression"]
    called.Nodup ∧
      (∀ name, name ∈ called ↔ ∃ c ∈ t.descendants, callee? c = some name) ∧
      (called.Pairwise fun a b => ∃ before c after, t.descendants = before ++ c :: after ∧
        callee? c = some a ∧ ∀ d ∈ before, callee? d ≠ some b) ∧
      ((∀ c ∈ t.descendants, ∀ d ∈ t.descendants, ∀ name,
          c.calleeText? source ["identifier"] = some name →
            d.calleeText? source ["member_expression"] ≠ some name) →
        (t.hookUsage source).hooks = called.filter fun name => Text.startsWith "use" name &&
          t.descendants.any (·.calleeText? source ["identifier"] == some name)) := by
  intro called callee?
  have hcalled : called = (t.descendants.filterMap callee?).eraseDups := calledNames_eq source t
  refine ⟨?_, fun name => ?_, pairwise_calledNames source t, fun h => ?_⟩
  · rw [hcalled]
    exact nodup_eraseDups _
  · rw [hcalled, List.mem_eraseDups, List.mem_filterMap]
  · rw [hooks_hookUsage_eq, hcalled, ← eraseDups_filter, List.filter_filterMap]
    exact congrArg List.eraseDups (List.filterMap_congr fun c hc => filter_calleeText? h hc)

/-- A call from `start` to `stop` of what stands there without the parentheses at the end. -/
def callAt (type : String) (start stop : Nat) : Tree :=
  .node ⟨"call_expression", true, false, ⟨start, stop⟩, []⟩
    [.node ⟨type, true, false, ⟨start, stop - 2⟩, ["function"]⟩ []]

/-- A chain that begins like a hook stands in the list of calls and is no hook. -/
theorem hooks_among_calledNames_with_chain :
    let source := Source.ofBytes "use.b();useA();useA()".toUTF8.toList
    let t := Tree.node ⟨"program", true, false, ⟨0, 21⟩, []⟩
      [callAt "member_expression" 0 7, callAt "identifier" 8 14, callAt "identifier" 15 21]
    t.calledNames source = ["use.b", "useA"] ∧
      (t.hookUsage source).hooks = ((t.calledNames source).filter fun name =>
        Text.startsWith "use" name &&
          t.descendants.any (·.calleeText? source ["identifier"] == some name)) ∧
      (t.hookUsage source).hooks = ["useA"] := by
  intro source t
  refine ⟨by decide +kernel, (hooks_among_calledNames source t).2.2.2 fun c hc d hd name hn => ?_,
    by decide +kernel⟩
  have hplain : ∀ c ∈ t.descendants,
      c.calleeText? source ["identifier"] = none ∨
        c.calleeText? source ["identifier"] = some "useA" := by
    decide +kernel
  have hchain : ∀ d ∈ t.descendants, d.calleeText? source ["member_expression"] ≠ some "useA" := by
    decide +kernel
  rcases hplain c hc with h | h
  · cases hn.symm.trans h
  · cases hn.symm.trans h
    exact hchain d hd

end ComponentSurvey.Tree
