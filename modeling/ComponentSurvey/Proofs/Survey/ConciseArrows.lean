import ComponentSurvey.Proofs.Tree.Apart
import ComponentSurvey.Proofs.Tree.Unplaced
import ComponentSurvey.Survey.Components

/-!
Concise arrows beside arrows with a block that returns the same expression. The block form returns an
element when the concise form does, and also when any return statement below the concise form does.
-/

set_option autoImplicit false

namespace ComponentSurvey

namespace Tree

variable {t e : Tree}

def returnsWithin (t : Tree) : Bool :=
  t.preorder.any fun u => u.kind == .returnStatement && u.returnsElement

theorem returnsWithin_eq_or (t : Tree) :
    t.returnsWithin =
      (t.kind == .returnStatement && t.returnsElement || t.children.any returnsWithin) := by
  rw [returnsWithin, preorder_eq_cons, List.any_cons, descendants, preorderList_eq_flatMap,
    List.any_flatMap]
  rfl

theorem any_returnsElement_descendantsOf (t : Tree) :
    (t.descendantsOf .returnStatement).any returnsElement = t.children.any returnsWithin := by
  rw [descendantsOf, List.any_filter, descendants, preorderList_eq_flatMap, List.any_flatMap]
  rfl

theorem isElement_unplaced (t : Tree) : t.unplaced.isElement = t.isElement := by
  simp [isElement, Option.any_map]

theorem returnsWithin_unplaced (t : Tree) : t.unplaced.returnsWithin = t.returnsWithin := by
  simp [returnsWithin, preorder_unplaced, returnsElement, isElement_unplaced, Option.any_map,
    Function.comp_def]

theorem any_returnsWithin_unplaced {ts us : List Tree} (h : ts.map unplaced = us.map unplaced) :
    ts.any returnsWithin = us.any returnsWithin := by
  have hu (vs : List Tree) : (vs.map unplaced).any returnsWithin = vs.any returnsWithin := by
    simp [Function.comp_def, returnsWithin_unplaced]
  rw [← hu ts, h, hu us]

/-- What an expression returns depends neither on its place nor on its field. -/
theorem Alike.isElement_eq {u : Tree} (h : Alike t u) : t.isElement = u.isElement := by
  have hm (v : Tree) : v.unmarked.isElement = v.isElement := by
    cases v
    simp only [isElement, unmarked, marking, unparenthesized]
    split <;> rfl
  rw [← hm t, ← isElement_unplaced, h, isElement_unplaced, hm]

theorem Alike.returnsWithin_eq {u : Tree} (h : Alike t u) :
    t.returnsWithin = u.returnsWithin := by
  have hm (v : Tree) : v.unmarked.returnsWithin = v.returnsWithin := by
    cases v
    rfl
  rw [← hm t, ← returnsWithin_unplaced, h, returnsWithin_unplaced, hm]

def IsToken (t : Tree) : Prop := t.named = false ∧ t.children = []

structure IsReturnOf (e r : Tree) : Prop where
  kind_eq : r.kind = .returnStatement
  children_eq : ∃ before result after, r.children = before ++ result :: after ∧
    Alike result e ∧ ∀ t ∈ before ++ after, t.IsToken

structure IsReturningBlock (e b : Tree) : Prop where
  type_eq : b.type = "statement_block"
  children_eq : ∃ before statement after, b.children = before ++ statement :: after ∧
    IsReturnOf e statement ∧ ∀ t ∈ before ++ after, t.IsToken

/-- Two arrows that are alike but for their bodies: that of the first is an expression, that of the
second a block that returns it. -/
structure IsBlockForm (concise block e : Tree) : Prop where
  concise_kind : concise.kind = .arrow
  block_kind : block.kind = .arrow
  e_named : e.named
  e_content : e.isComment = false
  e_type : e.type ≠ "statement_block"
  concise_body : concise.field? "body" = some e
  children_eq : ∃ left right left' body right', concise.children = left ++ e :: right ∧
    block.children = left' ++ body :: right' ∧ IsReturningBlock e body ∧
    block.field? "body" = some body ∧
    left'.map unplaced = left.map unplaced ∧ right'.map unplaced = right.map unplaced

theorem Alike.named_eq {u : Tree} (h : Alike t u) : t.named = u.named := by
  have hn := congrArg Tree.named h
  simp only [named_unplaced] at hn
  cases t
  cases u
  exact hn

theorem Alike.isComment_eq {u : Tree} (h : Alike t u) : t.isComment = u.isComment := by
  have hc := congrArg Tree.isComment h
  simp only [isComment_unplaced] at hc
  cases t
  cases u
  exact hc

theorem IsToken.returnsWithin_eq_false (h : t.IsToken) : t.returnsWithin = false := by
  rw [returnsWithin_eq_or, kind, Label.kind, show t.label.named = false from h.1, h.2]
  rfl

theorem any_returnsWithin_tokens {before after : List Tree}
    (h : ∀ t ∈ before ++ after, t.IsToken) (u : Tree) :
    (before ++ u :: after).any returnsWithin = u.returnsWithin := by
  have hb : before.any returnsWithin = false := List.any_eq_false.2 fun t ht => by
    simp [(h t (List.mem_append_left _ ht)).returnsWithin_eq_false]
  have ha : after.any returnsWithin = false := List.any_eq_false.2 fun t ht => by
    simp [(h t (List.mem_append_right _ ht)).returnsWithin_eq_false]
  rw [List.any_append, List.any_cons, hb, ha, Bool.false_or, Bool.or_false]

theorem contents_of_tokens {before after : List Tree} {u : Tree} (ht : t.children = before ++ u :: after)
    (h : ∀ t ∈ before ++ after, t.IsToken) (hn : u.named) (hc : u.isComment = false) :
    t.contents = [u] := by
  have hb : before.filter named = [] := List.filter_eq_nil_iff.2 fun t ht => by
    simp [(h t (List.mem_append_left _ ht)).1]
  have ha : after.filter named = [] := List.filter_eq_nil_iff.2 fun t ht => by
    simp [(h t (List.mem_append_right _ ht)).1]
  rw [contents, namedChildren, ht, List.filter_append, List.filter_cons, if_pos hn, hb, ha]
  simp [hc]

/-- A return statement returns an element when its expression is one or has such a statement in it. -/
theorem IsReturnOf.returnsWithin_eq {r : Tree} (h : IsReturnOf e r) (hn : e.named)
    (hc : e.isComment = false) : r.returnsWithin = (e.isElement || e.returnsWithin) := by
  obtain ⟨before, result, after, hr, halike, htokens⟩ := h.children_eq
  have hcontents : r.contents = [result] :=
    contents_of_tokens hr htokens (by rw [halike.named_eq, hn]) (by rw [halike.isComment_eq, hc])
  rw [returnsWithin_eq_or, h.kind_eq, returnsElement, hcontents, hr, any_returnsWithin_tokens htokens,
    halike.returnsWithin_eq, ← halike.isElement_eq]
  rfl

theorem IsReturningBlock.returnsWithin_eq {b : Tree} (h : IsReturningBlock e b) (hn : e.named)
    (hc : e.isComment = false) : b.returnsWithin = (e.isElement || e.returnsWithin) := by
  obtain ⟨before, statement, after, hb, hreturn, htokens⟩ := h.children_eq
  have hk : b.kind ≠ .returnStatement := by
    rw [kind, Label.kind, show b.label.type = "statement_block" from h.type_eq]
    split <;> decide
  rw [returnsWithin_eq_or, hb, any_returnsWithin_tokens htokens, hreturn.returnsWithin_eq hn hc]
  simp [hk]

section

variable {concise block : Tree} (h : IsBlockForm concise block e)

include h

theorem IsBlockForm.concise_returnsElements : concise.returnsElements = e.isElement := by
  have ht : (e.type == "statement_block") = false := by simpa using h.e_type
  rw [returnsElements, h.concise_kind, h.concise_body]
  simp [ht]

theorem IsBlockForm.block_returnsElements :
    block.returnsElements =
      (e.isElement || (concise.descendantsOf .returnStatement).any returnsElement) := by
  obtain ⟨left, right, left', body, right', hc, hb, hbody, hfield, hleft, hright⟩ := h.children_eq
  have hreturns : block.returnsElements =
      (block.descendantsOf .returnStatement).any returnsElement := by
    rw [returnsElements, h.block_kind, hfield]
    simp [hbody.type_eq]
  have hw := hbody.returnsWithin_eq h.e_named h.e_content
  rw [hreturns, any_returnsElement_descendantsOf, any_returnsElement_descendantsOf, hc, hb,
    List.any_append, List.any_append, List.any_cons, List.any_cons, hw,
    any_returnsWithin_unplaced hleft, any_returnsWithin_unplaced hright]
  cases e.isElement <;> simp

end

end Tree

/-- An arrow with a block that returns an expression returns elements when the concise arrow does or
when a return statement below the concise arrow does. So the two are classified alike unless such a
statement stands below a concise arrow whose expression is no element: then only the block form is a
component. -/
theorem Tree.concise_beside_block {concise block e : Tree} (h : IsBlockForm concise block e)
    (name : Option String) (node node' : Tree) :
    let inner := (concise.descendantsOf .returnStatement).any returnsElement
    let conciseDeclaration : Declaration := ⟨.arrow, name, node, concise⟩
    let blockDeclaration : Declaration := ⟨.arrow, name, node', block⟩
    concise.returnsElements = e.isElement ∧
      block.returnsElements = (concise.returnsElements || inner) ∧
      (block.returnsElements = concise.returnsElements ↔ (inner → e.isElement)) ∧
      (blockDeclaration.isComponentFunction ↔
        conciseDeclaration.isComponentFunction ∨ name.any isCapitalized ∧ inner) := by
  intro inner conciseDeclaration blockDeclaration
  have hc := h.concise_returnsElements
  have hb := h.block_returnsElements
  refine ⟨hc, by rw [hb, hc], ?_, ?_⟩
  · rw [hb, hc]
    cases e.isElement <;> simp [inner]
  · simp only [Declaration.isComponentFunction, blockDeclaration, conciseDeclaration, hb, hc]
    cases e.isElement <;> cases name.any isCapitalized <;> simp [inner]

namespace Tree

def tokenAt (text : String) (start : Nat) : Tree :=
  .node ⟨text, false, false, ⟨start, start + text.length⟩, []⟩ []

def arrowHead (start : Nat) : List Tree :=
  [.node ⟨"formal_parameters", true, false, ⟨start, start + 2⟩, ["parameters"]⟩
      [tokenAt "(" start, tokenAt ")" (start + 1)],
    tokenAt "=>" (start + 3)]

def bareArrow (fields : List String) (start stop : Nat) (body : Tree) : Tree :=
  .node ⟨"arrow_function", true, false, ⟨start, stop⟩, fields⟩ (arrowHead start ++ [body])

/-- The block `{ return e; }` as the body of an arrow. -/
def returningBlock (start stop : Nat) (e : Tree) : Tree :=
  .node ⟨"statement_block", true, false, ⟨start, stop⟩, ["body"]⟩
    [tokenAt "\x7b" start,
      .node ⟨"return_statement", true, false, ⟨start + 2, stop - 2⟩, []⟩
        [tokenAt "return" (start + 2), e, tokenAt ";" (stop - 3)],
      tokenAt "\x7d" (stop - 1)]

/-- The arrow `() => { return <a/>; }`. -/
def elementArrow (fields : List String) (start : Nat) : Tree :=
  bareArrow fields start (start + 22) (returningBlock (start + 6) (start + 22)
    (.node ⟨"jsx_self_closing_element", true, false, ⟨start + 15, start + 19⟩, []⟩
      [tokenAt "<" (start + 15),
        .node ⟨"identifier", true, false, ⟨start + 16, start + 17⟩, ["name"]⟩ [],
        tokenAt "/>" (start + 17)]))

theorem isReturningBlock_returningBlock {start stop : Nat} {e e' : Tree} (h : Alike e' e) :
    IsReturningBlock e (returningBlock start stop e') where
  type_eq := rfl
  children_eq := by
    refine ⟨[tokenAt "\x7b" start], _, [tokenAt "\x7d" (stop - 1)], rfl, ⟨rfl, ?_⟩, ?_⟩
    · exact ⟨[tokenAt "return" (start + 2)], e', [tokenAt ";" (stop - 3)], rfl, h,
        by simp [IsToken, tokenAt, named, label, children]⟩
    · simp [IsToken, tokenAt, named, label, children]

/-- `() => () => { return <a/>; }` and `() => { return () => { return <a/>; }; }`. -/
theorem isBlockForm_elementArrow :
    IsBlockForm (bareArrow ["value"] 10 38 (elementArrow ["body"] 16))
      (bareArrow ["value"] 10 50 (returningBlock 16 50 (elementArrow [] 25)))
      (elementArrow ["body"] 16) where
  concise_kind := rfl
  block_kind := rfl
  e_named := rfl
  e_content := rfl
  e_type := by decide
  concise_body := rfl
  children_eq := ⟨arrowHead 10, [], arrowHead 10, returningBlock 16 50 (elementArrow [] 25), [],
    rfl, rfl, isReturningBlock_returningBlock rfl, rfl, rfl, rfl⟩

theorem concise_beside_block_of_elementArrow :
    let concise := bareArrow ["value"] 10 38 (elementArrow ["body"] 16)
    let block := bareArrow ["value"] 10 50 (returningBlock 16 50 (elementArrow [] 25))
    IsBlockForm concise block (elementArrow ["body"] 16) ∧
      (block.returnsElements = (concise.returnsElements ||
        (concise.descendantsOf .returnStatement).any returnsElement)) := by
  intro concise block
  have h := isBlockForm_elementArrow
  exact ⟨h, (concise_beside_block h (some "A") concise block).2.1⟩

theorem concise_arrow_overlooked :
    let concise := bareArrow ["value"] 10 38 (elementArrow ["body"] 16)
    let block := bareArrow ["value"] 10 50 (returningBlock 16 50 (elementArrow [] 25))
    IsBlockForm concise block (elementArrow ["body"] 16) ∧
      concise.returnsElements = false ∧ block.returnsElements = true ∧
      Declaration.isComponentFunction ⟨.arrow, some "A", concise, concise⟩ = false ∧
      Declaration.isComponentFunction ⟨.arrow, some "A", block, block⟩ = true :=
  ⟨isBlockForm_elementArrow, by decide, by decide, by decide, by decide⟩

end Tree

end ComponentSurvey
