import ComponentSurvey.Proofs.Survey.Concatenation
import ComponentSurvey.Proofs.Survey.Ignorable
import ComponentSurvey.Proofs.Survey.Unmarked

/-!
Exporting a statement. An export statement puts one more tree around what it exports; only the list
of exports notices it.
-/

set_option autoImplicit false

namespace ComponentSurvey

namespace Tree

def isToken (t : Tree) : Bool := !t.named && t.children.isEmpty && !t.label.isBroken

def isImport (t : Tree) : Bool := t.type == "import_statement"

/-- What can be put behind `export`: any statement that is no import and no export. -/
def isExportable (t : Tree) : Bool := t.named && !t.isImport && !t.isExport

/-- An export statement is made of tokens and of the statement that it exports, which may be found
by other fields than before. -/
inductive Exports (t : Tree) : Tree → Prop where
  | wrap {l : Label} {before after : List Tree} {fields : List String}
      (type_eq : l.type = "export_statement") (named : l.named) (present : l.missing = false)
      (tokens_before : ∀ c ∈ before, c.isToken) (tokens_after : ∀ c ∈ after, c.isToken)
      (exported : (node l (before ++ t.marking fields :: after)).exported? =
        some (t.marking fields)) :
      Exports t (node l (before ++ t.marking fields :: after))

inductive SomeExported : List Tree → List Tree → Prop where
  | nil : SomeExported [] []
  | keep (t : Tree) {ts us : List Tree} : SomeExported ts us → SomeExported (t :: ts) (t :: us)
  | wrap {t e : Tree} {ts us : List Tree} :
      t.isExportable → Exports t e → SomeExported ts us → SomeExported (t :: ts) (e :: us)

variable {t e c : Tree} {ts us cs : List Tree}

theorem kind_of_isToken (h : c.isToken) : c.kind = .other := by
  have hn : c.label.named = false := by
    simp only [isToken, named, Bool.and_eq_true, Bool.not_eq_true'] at h
    exact h.1.1
  rw [kind, Label.kind, hn]
  rfl

theorem isBroken_of_isToken (h : c.isToken) : c.label.isBroken = false := by
  simp only [isToken, Bool.and_eq_true, Bool.not_eq_true'] at h
  exact h.2

theorem children_of_isToken (h : c.isToken) : c.children = [] := by
  simp only [isToken, Bool.and_eq_true, List.isEmpty_iff] at h
  exact h.1.2

namespace Exports

theorem type_eq (h : Exports t e) : e.type = "export_statement" := by
  obtain ⟨h, -, -, -, -, -⟩ := h
  exact h

theorem named (h : Exports t e) : e.named := by
  obtain ⟨-, h, -, -, -, -⟩ := h
  exact h

theorem isBroken (h : Exports t e) : e.label.isBroken = false := by
  obtain ⟨ht, -, hm, -, -, -⟩ := h
  simp [Label.isBroken, label, ht, hm]

theorem kind (h : Exports t e) : e.kind = .other := kind_of_type h.type_eq (by decide)

theorem exported (h : Exports t e) : ∃ fields, e.exported? = some (t.marking fields) := by
  obtain ⟨-, -, -, -, -, he⟩ := h
  exact ⟨_, he⟩

end Exports

/-- What is read off the statements from left to right is the same when it is the same for each
statement and the one that exports it. -/
theorem SomeExported.flatMap_eq {α : Type} {f : Tree → List α} (h : SomeExported ts us)
    (hf : ∀ t e, t.isExportable → Exports t e → f e = f t) : us.flatMap f = ts.flatMap f := by
  induction h with
  | nil => rfl
  | keep t _ ih => rw [List.flatMap_cons, ih, List.flatMap_cons]
  | wrap ht he _ ih => rw [List.flatMap_cons, hf _ _ ht he, ih, List.flatMap_cons]

end Tree

namespace Spine

variable {source : Source}

theorem context?_under {root : Tree} (h : root.kind = .other) (framework : String) (weight : Json)
    (s : Spine) : (s.under root).context? source framework weight =
      s.context? source framework weight := by
  obtain ⟨t, above⟩ := s
  cases above <;> simp [context?, under, h]

/-- A reading that neither roots nor marks change, and that finds nothing in sound nodes of the other
kinds. -/
structure Blind {α : Type} (f : Spine → Option α) : Prop where
  under {root : Tree} (h : root.kind = .other) (s : Spine) : f (s.under root) = f s
  unmarked (s : Spine) : f s.unmarked = f s
  other {s : Spine} (hk : s.tree.kind = .other) (hb : s.tree.label.isBroken = false) : f s = none

theorem blind_hook? : Blind (hook? source) where
  under := hook?_under
  unmarked := hook?_unmarked
  other hk _ := by simp [hook?, hk]

theorem blind_context? (framework : String) (weight : Json) :
    Blind (context? source framework weight) where
  under h := context?_under h framework weight
  unmarked s := context?_unmarked s framework weight
  other hk _ := by simp [context?, Tree.createsContext, hk]

def failure? (source : Source) (path : String) (s : Spine) : Option Failure :=
  if s.tree.label.isBroken then some (s.tree.syntaxFailure source path) else none

theorem blind_failure? (path : String) : Blind (failure? source path) where
  under _ _ := rfl
  unmarked := by
    rintro ⟨⟨l, ts⟩, above⟩
    rfl
  other _ hb := by simp [failure?, hb]

namespace Blind

open ComponentSurvey.Tree (spinesList Exports SomeExported)

variable {α : Type} {f : Spine → Option α} (hf : Blind f)
include hf

theorem filterMap_tokens (above : List Tree) {cs : List Tree} (h : ∀ c ∈ cs, c.isToken) :
    (spinesList above cs).filterMap f = [] := by
  induction cs with
  | nil => rfl
  | cons c cs ih =>
    have hc := h c List.mem_cons_self
    have hn : f ⟨c, above⟩ = none :=
      hf.other (Tree.kind_of_isToken hc) (Tree.isBroken_of_isToken hc)
    have hs : c.spines above = [⟨c, above⟩] := by
      obtain ⟨l, ts⟩ := c
      rw [Tree.spines, show ts = [] from Tree.children_of_isToken hc]
      rfl
    rw [spinesList, List.filterMap_append, hs, List.filterMap_cons_none hn,
      ih fun d hd => h d (List.mem_cons_of_mem c hd)]
    rfl

theorem filterMap_under (root : Tree) (h : root.kind = .other) (ts : List Tree) :
    (spinesList [root] ts).filterMap f = (spinesList [] ts).filterMap f := by
  rw [← List.nil_append [root], Tree.spinesList_concat, List.filterMap_map]
  exact congrArg (List.filterMap · _) (funext (hf.under h))

theorem filterMap_unmarked (ss : List Spine) :
    (ss.map Spine.unmarked).filterMap f = ss.filterMap f := by
  rw [List.filterMap_map]
  exact congrArg (List.filterMap · _) (funext hf.unmarked)

/-- An export statement reads like the statement that it exports. -/
theorem filterMap_exports {t e : Tree} (h : Exports t e) :
    (e.spines []).filterMap f = (t.spines []).filterMap f := by
  -- The export statement itself and its tokens give nothing; the exported statement is read below
  -- a tree of another kind and with other marks.
  have hk := h.kind
  have hn : f ⟨e, []⟩ = none := hf.other hk h.isBroken
  obtain @⟨l, before, after, fields, -, -, -, hb, ha, -⟩ := h
  rw [Tree.spines, List.filterMap_cons_none hn, hf.filterMap_under _ hk, Tree.spinesList_append,
    List.filterMap_append, hf.filterMap_tokens [] hb, List.nil_append, spinesList,
    List.filterMap_append, hf.filterMap_tokens [] ha, List.append_nil, ← hf.filterMap_unmarked,
    Tree.map_unmarked_spines_marking, hf.filterMap_unmarked]

theorem filterMap_someExported {l : Label} (hl : l.kind = .other) {ts us : List Tree}
    (h : SomeExported ts us) :
    (Tree.node l us).spinesBelow.filterMap f = (Tree.node l ts).spinesBelow.filterMap f := by
  have hs (cs : List Tree) : (Tree.node l cs).spinesBelow.filterMap f =
      cs.flatMap fun c => (c.spines []).filterMap f := by
    rw [Tree.spinesBelow, hf.filterMap_under (.node l cs) hl, Tree.children]
    induction cs with
    | nil => rfl
    | cons c cs ih =>
      rw [List.flatMap_cons, ← ih]
      exact List.filterMap_append
  rw [hs, hs]
  exact h.flatMap_eq fun t e _ he => hf.filterMap_exports he

end Blind

end Spine

namespace Tally

open ComponentSurvey.Tree (Exports SomeExported)

theorem ofTree_token {c : Tree} (h : c.isToken) (depth : Nat) : ofTree depth c = zero := by
  obtain ⟨l, ts⟩ := c
  rw [ofTree, ofNode_eq_zero (Tree.kind_of_isToken h), zero_join,
    show ts = [] from Tree.children_of_isToken h]
  rfl

theorem ofForest_tokens {cs : List Tree} (h : ∀ c ∈ cs, c.isToken) (depth : Nat) :
    ofForest depth cs = zero := by
  induction cs with
  | nil => rfl
  | cons c cs ih =>
    rw [ofForest, ofTree_token (h c List.mem_cons_self), zero_join,
      ih fun d hd => h d (List.mem_cons_of_mem c hd)]

theorem ofTree_marking (fields : List String) (t : Tree) (depth : Nat) :
    ofTree depth (t.marking fields) = ofTree depth t := by
  cases t
  rfl

theorem ofTree_exports {t e : Tree} (h : Exports t e) (depth : Nat) :
    ofTree depth e = ofTree depth t := by
  have hk := h.kind
  obtain @⟨l, before, after, fields, -, -, -, hb, ha, -⟩ := h
  have hi : inner l.kind depth = depth := by
    rw [show l.kind = .other from hk]
    rfl
  rw [ofTree, ofNode_eq_zero hk, zero_join, hi, ofForest_append, ofForest_tokens hb, zero_join,
    ofForest, ofForest_tokens ha, join_zero, ofTree_marking]

theorem ofForest_someExported {ts us : List Tree} (h : SomeExported ts us) (depth : Nat) :
    ofForest depth us = ofForest depth ts := by
  induction h with
  | nil => rfl
  | keep t _ ih => rw [ofForest, ih, ofForest]
  | wrap _ he _ ih => rw [ofForest, ofTree_exports he, ih, ofForest]

end Tally

namespace Tree

variable {source : Source} {l : Label} {ts us : List Tree}

def reached (t : Tree) : List Tree :=
  if t.named then (if t.isExport then t.exported? else some t).toList else []

theorem topLevel_eq (root : Tree) : root.topLevel = root.children.flatMap reached := by
  rw [topLevel, namedChildren, List.filterMap_filter, List.filterMap_eq_flatMap_toList]
  refine congrArg (List.flatMap · _) (funext fun t => ?_)
  cases h : t.named <;> simp [reached, h]

theorem map_unmarked_topLevel (h : SomeExported ts us) :
    (node l us).topLevel.map unmarked = (node l ts).topLevel.map unmarked := by
  rw [topLevel_eq, topLevel_eq, List.map_flatMap, List.map_flatMap]
  refine h.flatMap_eq fun t e ht he => ?_
  obtain ⟨⟨hn, -⟩, hx⟩ : (t.named ∧ t.isImport = false) ∧ t.isExport = false := by
    simpa [isExportable] using ht
  obtain ⟨fields, hf⟩ := he.exported
  have hxe : e.isExport := beq_iff_eq.2 he.type_eq
  simp [reached, hn, hx, he.named, hxe, hf]

theorem map_unmarked_declarations (h : SomeExported ts us) :
    ((node l us).declarations source).map Declaration.unmarked =
      ((node l ts).declarations source).map Declaration.unmarked := by
  have hd (root : Tree) : (root.declarations source).map Declaration.unmarked =
      (root.topLevel.map unmarked).flatMap fun t =>
        (t.declarationsOf source).map Declaration.unmarked := by
    simp only [declarations, List.map_flatMap, List.flatMap_map, declarationsOf_unmarked]
  rw [hd, hd, map_unmarked_topLevel h]

theorem filter_isImport (h : SomeExported ts us) :
    (us.filter named).filter isImport = (ts.filter named).filter isImport := by
  simp only [List.filter_filter]
  induction h with
  | nil => rfl
  | keep t _ ih => rw [List.filter_cons, ih, List.filter_cons]
  | @wrap t e _ _ ht he _ ih =>
    have hi : t.isImport = false := by
      simp only [isExportable, Bool.and_eq_true, Bool.not_eq_true'] at ht
      exact ht.1.2
    have hie : e.isImport = false := by simp [isImport, he.type_eq]
    rw [List.filter_cons_of_neg (by simp [hie]), ih, List.filter_cons_of_neg (by simp [hi])]

section

variable (h : SomeExported ts us)
include h

theorem filterMap_declarations {α : Type} {f : Declaration → Option α}
    (hf : ∀ d, f d.unmarked = f d) :
    ((node l us).declarations source).filterMap f =
      ((node l ts).declarations source).filterMap f := by
  have hm (ds : List Declaration) : ds.filterMap f = (ds.map .unmarked).filterMap f := by
    rw [List.filterMap_map]
    exact congrArg (List.filterMap · ds) (funext fun d => (hf d).symm)
  rw [hm, map_unmarked_declarations h, ← hm]

theorem findSome?_declarations {α : Type} {f : Declaration → Option α}
    (hf : ∀ d, f d.unmarked = f d) :
    ((node l us).declarations source).findSome? f =
      ((node l ts).declarations source).findSome? f := by
  rw [← List.head?_filterMap, filterMap_declarations h hf, List.head?_filterMap]

theorem components_someExported :
    (node l us).components source = (node l ts).components source :=
  filterMap_declarations h Declaration.component?_unmarked

theorem callables_someExported :
    (node l us).callables source = (node l ts).callables source := by
  have hc (root : Tree) : root.callables source =
      ((root.declarations source).map .unmarked).flatMap (Declaration.callables source) := by
    simp only [callables, List.flatMap_map, Declaration.callables_unmarked]
  rw [hc, map_unmarked_declarations h, ← hc]

theorem hooks_someExported (hl : l.kind = .other) :
    (node l us).hooks source = (node l ts).hooks source := by
  rw [hooks_eq, hooks_eq, Spine.blind_hook?.filterMap_someExported hl h]

theorem imports_someExported : (node l us).imports source = (node l ts).imports source :=
  congrArg (List.map (importRecord source)) (filter_isImport h)

theorem filter_topLevel_someExported {α : Type} {f : Tree → α} (hf : ∀ t, f t.unmarked = f t)
    (type : String) : ((node l us).topLevel.filter (·.type == type)).map f =
      ((node l ts).topLevel.filter (·.type == type)).map f := by
  have hm (cs : List Tree) : (cs.filter (·.type == type)).map f =
      ((cs.map unmarked).filter (·.type == type)).map f := by
    simp only [List.filter_map, List.map_map, Function.comp_def, type_unmarked, hf]
  rw [hm, map_unmarked_topLevel h, ← hm]

theorem interfaces_someExported :
    (node l us).interfaces source = (node l ts).interfaces source :=
  filter_topLevel_someExported h interfaceRecord_unmarked _

theorem typeAliases_someExported :
    (node l us).typeAliases source = (node l ts).typeAliases source :=
  filter_topLevel_someExported h typeAliasRecord_unmarked _

theorem metricsOver_someExported (lines : Int) :
    (node l us).metricsOver lines = (node l ts).metricsOver lines := by
  simp only [metricsOver, children, Tally.ofForest_someExported h]

theorem findSome?_context_someExported (hl : l.kind = .other) (framework : String)
    (weight : Json) :
    (Node.ofTree (node l us)).descendants.findSome? (Node.context? source framework weight) =
      (Node.ofTree (node l ts)).descendants.findSome? (Node.context? source framework weight) := by
  rw [findSome?_context_eq, findSome?_context_eq, ← List.head?_filterMap,
    (Spine.blind_context? framework weight).filterMap_someExported hl h, List.head?_filterMap]

theorem patterns_someExported (hl : l.kind = .other) (table : Weights) (imports : List Import) :
    (node l us).patterns source table imports = (node l ts).patterns source table imports := by
  simp only [patterns, frameworkPatterns, findSome?_context_someExported h hl,
    filterMap_declarations h fun d => d.customHook?_unmarked source (table.weight .customHook),
    findSome?_declarations h fun d => d.higherOrder?_unmarked source (table.weight .higherOrder),
    findSome?_declarations h fun d => d.singleton?_unmarked source (table.weight .singleton),
    findSome?_declarations h fun d => d.factory?_unmarked source (table.weight .factory)]

theorem failure_someExported (hl : l.kind = .other) (path : String) :
    (node l us).firstBroken?.map (syntaxFailure source path) =
      (node l ts).firstBroken?.map (syntaxFailure source path) := by
  have hb (root : Tree) : root.firstBroken?.map (syntaxFailure source path) =
      ((root.spines []).filterMap (Spine.failure? source path)).head? := by
    rw [firstBroken?, ← map_tree_spines [], List.find?_map, List.find?_eq_findSome?_guard,
      Option.map_map, List.map_findSome?, List.head?_filterMap]
    refine congrArg (List.findSome? · _) (funext fun s => ?_)
    cases hs : s.tree.label.isBroken <;> simp [Spine.failure?, Option.guard, hs]
  have hr : Spine.failure? source path ⟨node l us, []⟩ =
      Spine.failure? source path ⟨node l ts, []⟩ := rfl
  have hc (cs : List Tree) : ((node l cs).spines []).filterMap (Spine.failure? source path) =
      (Spine.failure? source path ⟨node l cs, []⟩).toList ++
        (node l cs).spinesBelow.filterMap (Spine.failure? source path) := by
    rw [spines, List.filterMap_cons]
    cases Spine.failure? source path ⟨node l cs, []⟩ <;> rfl
  rw [hb, hb, hc, hc, hr, (Spine.blind_failure? path).filterMap_someExported hl h]

end

end Tree

namespace Survey

def withoutExports (s : Survey) : Survey := { s with exports := [] }

/-- Exporting some statements of a program changes nothing in its survey but the exports. -/
theorem ofSource_of_someExported (source : Source) (table : Weights) (path : String) {l : Label}
    (hl : l.kind = .other) {ts us : List Tree} (h : Tree.SomeExported ts us) :
    (ofSource table path source (.node l us)).map withoutExports =
      (ofSource table path source (.node l ts)).map withoutExports := by
  have hs : (ofTree table path source (.node l us)).withoutExports =
      (ofTree table path source (.node l ts)).withoutExports := by
    simp only [ofTree, withoutExports, Tree.components_someExported h,
      Tree.callables_someExported h, Tree.hooks_someExported h hl, Tree.imports_someExported h,
      Tree.interfaces_someExported h, Tree.typeAliases_someExported h,
      Tree.metricsOver_someExported h, Tree.patterns_someExported h hl]
  rw [ofSource, checkedTree_eq, Tree.failure_someExported h hl, ofSource, checkedTree_eq]
  cases Language.ofPath path with
  | error f => rfl
  | ok _ =>
    cases (Tree.node l ts).firstBroken?.map (Tree.syntaxFailure source path) with
    | some f => rfl
    | none => exact congrArg Except.ok hs

/-- The program `function A(){}`, before and after the word `export` is put before it. -/
theorem ofSource_of_someExported_function :
    let function (fields : List String) := Tree.node
      ⟨"function_declaration", true, false, ⟨0, 14⟩, fields⟩
      [.node ⟨"identifier", true, false, ⟨9, 10⟩, ["name"]⟩ [],
        .node ⟨"formal_parameters", true, false, ⟨10, 12⟩, ["parameters"]⟩ [],
        .node ⟨"statement_block", true, false, ⟨12, 14⟩, ["body"]⟩ []]
    let exported := Tree.node ⟨"export_statement", true, false, ⟨0, 14⟩, []⟩
      [.node ⟨"export", false, false, ⟨0, 0⟩, []⟩ [], function ["declaration"]]
    let root : Label := ⟨"program", true, false, ⟨0, 14⟩, []⟩
    let source := Source.ofBytes "function A(){}".toUTF8.toList
    (ofSource [] "a.ts" source (.node root [exported])).map withoutExports =
      (ofSource [] "a.ts" source (.node root [function []])).map withoutExports := by
  intro function exported root source
  have hb (c : Tree) (hc : c ∈ [Tree.node ⟨"export", false, false, ⟨0, 0⟩, []⟩ []]) :
      c.isToken := by
    obtain rfl := List.mem_singleton.1 hc
    decide
  have ha (c : Tree) (hc : c ∈ []) : c.isToken := absurd hc List.not_mem_nil
  have he : Tree.Exports (function []) exported := .wrap rfl rfl rfl hb ha rfl
  exact ofSource_of_someExported source [] "a.ts" (by decide) (.wrap (by decide) he .nil)

end Survey

end ComponentSurvey
