import ComponentSurvey.Proofs.Survey.Places

/-!
Records come in the order of the source. In a tree whose spans are well nested, a node begins no
later than the nodes after it, and the records of each list follow the nodes of the tree.
-/

set_option autoImplicit false

namespace ComponentSurvey

namespace Tree

/-- Spans are in order, children are inside their parent, and siblings come one after the other. -/
structure WellNested (t : Tree) : Prop where
  ordered : ∀ u ∈ t.preorder, u.span.start ≤ u.span.stop
  inside : ∀ u ∈ t.preorder, ∀ c ∈ u.children,
    u.span.start ≤ c.span.start ∧ c.span.stop ≤ u.span.stop
  apart : ∀ u ∈ t.preorder, u.children.Pairwise fun a b => a.span.stop ≤ b.span.start

theorem mem_preorder_self (t : Tree) : t ∈ t.preorder := by
  rw [preorder_eq_cons]
  exact List.mem_cons_self

theorem WellNested.of_apart {t u : Tree} (h : t.WellNested) (hu : Apart [t] [u]) :
    u.WellNested := by
  rw [Apart, preorderList_singleton, preorderList_singleton] at hu
  exact ⟨fun v hv => h.ordered v (hu.subset hv), fun v hv => h.inside v (hu.subset hv),
    fun v hv => h.apart v (hu.subset hv)⟩

theorem WellNested.of_mem_children {t c : Tree} (h : t.WellNested) (hc : c ∈ t.children) :
    c.WellNested := h.of_apart (.of_mem_children hc)

mutual
theorem WellNested.within_span {t u : Tree} (h : t.WellNested) (hu : u ∈ t.preorder) :
    t.span.start ≤ u.span.start ∧ u.span.stop ≤ t.span.stop := by
  match t with
  | .node l ts =>
    rw [preorder_node, List.mem_cons] at hu
    rcases hu with rfl | hu
    · exact ⟨Nat.le_refl _, Nat.le_refl _⟩
    · obtain ⟨c, hc, hstart, hstop⟩ := within_span_of_mem (fun c hc => h.of_mem_children hc) hu
      obtain ⟨hl, hr⟩ := h.inside _ (mem_preorder_self _) c hc
      exact ⟨hl.trans hstart, hstop.trans hr⟩
theorem within_span_of_mem {ts : List Tree} {u : Tree} (h : ∀ c ∈ ts, c.WellNested)
    (hu : u ∈ preorderList ts) :
    ∃ c ∈ ts, c.span.start ≤ u.span.start ∧ u.span.stop ≤ c.span.stop := by
  match ts with
  | [] => cases hu
  | t :: ts =>
    obtain ⟨ht, hts⟩ := List.forall_mem_cons.1 h
    rw [preorderList_cons, List.mem_append] at hu
    rcases hu with hu | hu
    · exact ⟨t, List.mem_cons_self, ht.within_span hu⟩
    · obtain ⟨c, hc, hs⟩ := within_span_of_mem hts hu
      exact ⟨c, List.mem_cons_of_mem t hc, hs⟩
end

mutual
theorem WellNested.pairwise_preorder {t : Tree} (h : t.WellNested) :
    t.preorder.Pairwise fun a b => a.span.start ≤ b.span.start := by
  match t with
  | .node l ts =>
    rw [preorder_node, List.pairwise_cons]
    refine ⟨fun u hu => ?_, ?_⟩
    · exact (h.within_span (List.mem_cons_of_mem _ hu)).1
    · have ha : ts.Pairwise fun a b => a.span.stop ≤ b.span.start :=
        h.apart _ (mem_preorder_self _)
      exact pairwise_preorderList (fun c hc => h.of_mem_children hc) ha
theorem pairwise_preorderList {ts : List Tree} (h : ∀ c ∈ ts, c.WellNested)
    (ha : ts.Pairwise fun a b => a.span.stop ≤ b.span.start) :
    (preorderList ts).Pairwise fun a b => a.span.start ≤ b.span.start := by
  match ts with
  | [] => exact .nil
  | t :: ts =>
    obtain ⟨ht, hts⟩ := List.forall_mem_cons.1 h
    obtain ⟨hta, htsa⟩ := List.pairwise_cons.1 ha
    rw [preorderList_cons, List.pairwise_append]
    refine ⟨ht.pairwise_preorder, pairwise_preorderList hts htsa, fun a hm b hb => ?_⟩
    -- The first tree ends before the tree around `b` begins.
    obtain ⟨c, hc, hstart, -⟩ := within_span_of_mem hts hb
    calc a.span.start ≤ a.span.stop := ht.ordered a hm
      _ ≤ t.span.stop := (ht.within_span hm).2
      _ ≤ c.span.start := hta c hc
      _ ≤ b.span.start := hstart
end

end Tree

def Location.InOrder (ls : List Location) : Prop := ls.Pairwise fun a b => a.start ≤ b.start

variable {source : Source} {root : Tree}

theorem Tree.WellNested.inOrder_places (h : root.WellNested) :
    Location.InOrder (root.places source) := by
  rw [Location.InOrder, places, List.pairwise_map]
  have hp := h.pairwise_preorder
  rw [preorder_eq_cons] at hp
  exact hp.of_cons.imp Source.position_le

theorem Location.InOrder.sublist {ls ms : List Location} (h : InOrder ls) (hs : ms.Sublist ls) :
    InOrder ms := List.Pairwise.sublist hs h

theorem Tree.WellNested.inOrder_exportsOf {s : Tree} (h : s.WellNested) :
    Location.InOrder ((s.exportsOf source).map (·.location)) := by
  rcases map_location_exportsOf source s with ⟨n, hn⟩ | hn
  · rw [hn]
    exact List.pairwise_replicate.2 (.inr le_rfl)
  · exact h.inOrder_places.sublist hn

/-- Exports of one statement are in order, and what one statement exports begins no later than the
statements after it. -/
theorem Tree.WellNested.inOrder_exports (h : root.WellNested) :
    Location.InOrder ((root.exports source).map (·.location)) := by
  have ha := apart_exportStatements root
  have hp : Location.InOrder
      ((root.namedChildren.filter isExport).flatMap fun s => s.preorder.map (location source)) := by
    rw [← List.map_flatMap, ← preorderList_eq_flatMap]
    exact h.inOrder_places.sublist (ha.map _)
  rw [exports, List.map_flatMap]
  refine List.pairwise_flatMap.2 ⟨fun s hs => ?_, ?_⟩
  · have hs : s ∈ root.children := (List.mem_filter.1 (List.mem_filter.1 hs).1).1
    exact (h.of_mem_children hs).inOrder_exportsOf
  · refine (List.pairwise_flatMap.1 hp).2.imp fun hst l hl m hm => ?_
    exact hst l (map_location_exportsOf_subset source _ hl) m
      (map_location_exportsOf_subset source _ hm)

/-- When the spans of a tree are well nested, each list of its survey is in the order of the
source. -/
theorem Survey.lists_inOrder (table : Weights) (path : String) (source : Source) (root : Tree)
    (h : root.WellNested) :
    let v := ofTree table path source root
    Location.InOrder (v.components.map (·.location)) ∧
      Location.InOrder (v.functions.map (·.location)) ∧
      Location.InOrder (v.hooks.map (·.location)) ∧
      Location.InOrder (v.imports.map (·.location)) ∧
      Location.InOrder (v.exports.map (·.location)) ∧
      Location.InOrder (v.interfaces.map (·.location)) ∧
      Location.InOrder (v.types.map (·.location)) := by
  have hp : Location.InOrder (root.places source) := h.inOrder_places
  exact ⟨hp.sublist (Tree.map_location_components source root),
    hp.sublist (Tree.map_location_callables source root),
    hp.sublist (Tree.map_location_hooks source root),
    hp.sublist (Tree.map_location_imports source root),
    h.inOrder_exports,
    hp.sublist (Tree.map_location_interfaces source root),
    hp.sublist (Tree.map_location_typeAliases source root)⟩

/-- Two names that one statement exports, after an import. -/
theorem Survey.lists_inOrder_of_two_names :
    let arrow := Tree.node ⟨"arrow_function", true, false, ⟨26, 31⟩, ["value"]⟩ []
    let f := Tree.node ⟨"variable_declarator", true, false, ⟨24, 31⟩, []⟩
      [.node ⟨"identifier", true, false, ⟨24, 25⟩, ["name"]⟩ [], arrow]
    let c := Tree.node ⟨"variable_declarator", true, false, ⟨32, 35⟩, []⟩
      [.node ⟨"identifier", true, false, ⟨32, 33⟩, ["name"]⟩ [],
        .node ⟨"number", true, false, ⟨34, 35⟩, ["value"]⟩ []]
    let statement := Tree.node ⟨"export_statement", true, false, ⟨11, 35⟩, []⟩
      [.node ⟨"export", false, false, ⟨11, 17⟩, []⟩ [],
        .node ⟨"lexical_declaration", true, false, ⟨18, 35⟩, ["declaration"]⟩ [f, c]]
    let root := Tree.node ⟨"program", true, false, ⟨0, 36⟩, []⟩
      [.node ⟨"import_statement", true, false, ⟨0, 10⟩, []⟩ [], statement]
    let source := Source.ofBytes "import 'x'\nexport const f=()=>1,c=1\n".toUTF8.toList
    let v := ofTree [] "a.ts" source root
    root.WellNested ∧ v.exports.map (·.location) = [⟨2, 1, 2, 25⟩, ⟨2, 1, 2, 25⟩] ∧
      Location.InOrder (v.exports.map (·.location)) := by
  intro arrow f c statement root source v
  have h : root.WellNested := ⟨by decide, by decide, by decide⟩
  exact ⟨h, by decide +kernel, (lists_inOrder [] "a.ts" source root h).2.2.2.2.1⟩

end ComponentSurvey
