import ComponentSurvey.Declaration
import ComponentSurvey.Proofs.Tree.Ancestry

/-!
Declarations at their places. A site is a declaration whose trees are nodes of the file, found by the
same search; what is above its target tells how the declaration came by it.
-/

set_option autoImplicit false

namespace ComponentSurvey

namespace Node

def field? (n : Node) (f : String) : Option Node := n.children.find? (·.tree.marked f)

def namedChildren (n : Node) : List Node := n.children.filter (·.tree.named)

mutual
def unparenthesizedAt (place : List Step) : Tree → Option Node
  | .node l ts =>
    if l.type == "parenthesized_expression" then firstUnparenthesizedAt l place [] ts
    else some ⟨.node l ts, place⟩
def firstUnparenthesizedAt (l : Label) (place : List Step) (left : List Tree) :
    List Tree → Option Node
  | [] => none
  | t :: ts =>
    if t.named && !t.isComment then unparenthesizedAt (⟨l, left, ts⟩ :: place) t
    else firstUnparenthesizedAt l place (t :: left) ts
end

def unparenthesized (n : Node) : Option Node := unparenthesizedAt n.place n.tree

def exported? (statement : Node) : Option Node :=
  (statement.field? "declaration").orElse fun _ => statement.field? "value"

def topLevel (root : Node) : List Node :=
  root.namedChildren.filterMap fun n => if n.tree.isExport then n.exported? else some n

def declarators (statement : Node) : List Node :=
  statement.namedChildren.filter (·.kind == .variable)

end Node

structure Site where
  form : DeclarationForm
  name : Option String
  node : Node
  target : Node

def Site.declaration (s : Site) : Declaration := ⟨s.form, s.name, s.node.tree, s.target.tree⟩

namespace Node

def boundFunction? (source : Source) (declarator : Node) : Option Site :=
  match declarator.tree.name? source, (declarator.field? "value").bind unparenthesized with
  | some name, some value =>
    match value.kind with
    | .arrow => some ⟨.arrow, some name, declarator, value⟩
    | .functionExpression => some ⟨.function, some name, declarator, value⟩
    | _ => none
  | _, _ => none

def sitesOf (source : Source) (statement : Node) : List Site :=
  match statement.kind with
  | .classLike => [⟨.classLike, statement.tree.name? source, statement, statement⟩]
  | .function | .functionExpression =>
    [⟨.function, statement.tree.name? source, statement, statement⟩]
  | .arrow => [⟨.arrow, none, statement, statement⟩]
  | _ =>
    if statement.tree.isVariableStatement then
      statement.declarators.filterMap (boundFunction? source)
    else []

end Node

def Tree.sites (source : Source) (root : Tree) : List Site :=
  (Node.ofTree root).topLevel.flatMap (Node.sitesOf source)

namespace Node

variable {source : Source}

theorem map_tree_field? (n : Node) (f : String) : (n.field? f).map tree = n.tree.field? f := by
  rw [Tree.field?, ← map_tree_children, List.find?_map]
  rfl

theorem map_tree_namedChildren (n : Node) : n.namedChildren.map tree = n.tree.namedChildren := by
  rw [Tree.namedChildren, ← map_tree_children, List.filter_map]
  rfl

mutual
theorem map_tree_unparenthesizedAt (place : List Step) (t : Tree) :
    (unparenthesizedAt place t).map tree = t.unparenthesized := by
  match t with
  | .node l ts =>
    rw [unparenthesizedAt, Tree.unparenthesized, ← map_tree_firstUnparenthesizedAt l place [] ts]
    cases l.type == "parenthesized_expression" <;> rfl
theorem map_tree_firstUnparenthesizedAt (l : Label) (place : List Step) (left ts : List Tree) :
    (firstUnparenthesizedAt l place left ts).map tree = Tree.firstUnparenthesized ts := by
  match ts with
  | [] => rfl
  | t :: ts =>
    rw [firstUnparenthesizedAt, Tree.firstUnparenthesized, ← map_tree_unparenthesizedAt _ t,
      ← map_tree_firstUnparenthesizedAt l place (t :: left) ts]
    cases t.named && !t.isComment <;> rfl
end

theorem map_tree_unparenthesized (n : Node) :
    n.unparenthesized.map tree = n.tree.unparenthesized :=
  map_tree_unparenthesizedAt n.place n.tree

theorem map_tree_exported? (n : Node) : n.exported?.map tree = n.tree.exported? := by
  rw [exported?, Tree.exported?, ← map_tree_field?, ← map_tree_field?]
  cases n.field? "declaration" <;> rfl

theorem map_tree_topLevel (root : Node) : root.topLevel.map tree = root.tree.topLevel := by
  rw [topLevel, Tree.topLevel, ← map_tree_namedChildren, List.filterMap_map, List.map_filterMap]
  refine congrArg (List.filterMap · _) (funext fun n => ?_)
  simp only [Function.comp_apply, ← map_tree_exported?]
  cases n.tree.isExport <;> rfl

theorem map_tree_declarators (n : Node) : n.declarators.map tree = n.tree.declarators := by
  rw [declarators, Tree.declarators, ← map_tree_namedChildren, List.filter_map]
  rfl

theorem map_declaration_boundFunction? (n : Node) :
    (n.boundFunction? source).map Site.declaration = n.tree.boundFunction? source := by
  have hv : (n.tree.field? "value").bind Tree.unparenthesized =
      ((n.field? "value").bind unparenthesized).map tree := by
    rw [← map_tree_field?, Option.map_bind, Option.bind_map]
    exact congrArg _ (funext fun m => (map_tree_unparenthesized m).symm)
  rw [boundFunction?, Tree.boundFunction?, hv]
  cases n.tree.name? source with
  | none => rfl
  | some name =>
    cases (n.field? "value").bind unparenthesized with
    | none => rfl
    | some value =>
      simp only [Option.map_some, kind]
      cases value.tree.kind <;> rfl

theorem map_declaration_sitesOf (n : Node) :
    (n.sitesOf source).map Site.declaration = n.tree.declarationsOf source := by
  have hb : (n.declarators.filterMap (boundFunction? source)).map Site.declaration =
      n.tree.declarators.filterMap (Tree.boundFunction? source) := by
    rw [← map_tree_declarators, List.filterMap_map, List.map_filterMap]
    exact congrArg (List.filterMap · _) (funext map_declaration_boundFunction?)
  rw [sitesOf, Tree.declarationsOf, ← hb, kind]
  cases n.tree.kind <;> cases n.tree.isVariableStatement <;> rfl

end Node

theorem Tree.map_declaration_sites (source : Source) (root : Tree) :
    (root.sites source).map Site.declaration = root.declarations source := by
  have ht : (Node.ofTree root).topLevel.map Node.tree = root.topLevel :=
    Node.map_tree_topLevel (Node.ofTree root)
  rw [declarations, ← ht, List.flatMap_map, sites, List.map_flatMap]
  exact congrArg (List.flatMap · _) (funext Node.map_declaration_sitesOf)

namespace Site

variable (source : Source)

/-- How the search comes by a site. What is bound stands in nothing but parentheses below its
declarator. -/
inductive Found : Site → Prop where
  | classLike {n : Node} (h : n.kind = .classLike) :
      Found ⟨.classLike, n.tree.name? source, n, n⟩
  | function {n : Node} (h : n.kind = .function ∨ n.kind = .functionExpression) :
      Found ⟨.function, n.tree.name? source, n, n⟩
  | arrow {n : Node} (h : n.kind = .arrow) : Found ⟨.arrow, none, n, n⟩
  | bound {n value : Node} {form : DeclarationForm} {name : String} {outer : List Node}
      (hn : n.kind = .variable) (hname : n.tree.name? source = some name)
      (habove : value.ancestors = outer ++ n :: n.ancestors)
      (houter : ∀ a ∈ outer, a.tree.type = "parenthesized_expression")
      (hkind : form = .arrow ∧ value.kind = .arrow ∨
        form = .function ∧ value.kind = .functionExpression) :
      Found ⟨form, some name, n, value⟩

end Site

namespace Node

variable {source : Source}

theorem mem_children_of_field? {n v : Node} {f : String} (h : n.field? f = some v) :
    v ∈ n.children := List.mem_of_find?_eq_some h

theorem mem_children_of_mem_namedChildren {n v : Node} (h : v ∈ n.namedChildren) :
    v ∈ n.children := (List.mem_filter.1 h).1

mutual
theorem ancestors_unparenthesizedAt {place : List Step} {t : Tree} {v : Node}
    (h : unparenthesizedAt place t = some v) : ∃ outer,
      v.ancestors = outer ++ ancestors ⟨t, place⟩ ∧
        ∀ a ∈ outer, a.tree.type = "parenthesized_expression" := by
  match t with
  | .node l ts =>
    rw [unparenthesizedAt] at h
    by_cases hp : l.type == "parenthesized_expression"
    · rw [if_pos hp] at h
      obtain ⟨outer, hv, ho⟩ := ancestors_firstUnparenthesizedAt h
      refine ⟨outer ++ [⟨.node l ts, place⟩], by simpa using hv, fun a ha => ?_⟩
      rcases List.mem_append.1 ha with ha | ha
      · exact ho a ha
      · rw [List.mem_singleton.1 ha]
        exact eq_of_beq hp
    · rw [if_neg hp] at h
      cases h
      exact ⟨[], rfl, by simp⟩
theorem ancestors_firstUnparenthesizedAt {l : Label} {place : List Step} {left ts : List Tree}
    {v : Node} (h : firstUnparenthesizedAt l place left ts = some v) : ∃ outer,
      v.ancestors = outer ++ ⟨.node l (left.reverse ++ ts), place⟩ ::
        ancestors ⟨.node l (left.reverse ++ ts), place⟩ ∧
      ∀ a ∈ outer, a.tree.type = "parenthesized_expression" := by
  match ts with
  | [] => cases h
  | t :: ts =>
    rw [firstUnparenthesizedAt] at h
    by_cases hc : t.named && !t.isComment
    · rw [if_pos hc] at h
      exact ancestors_unparenthesizedAt h
    · rw [if_neg hc] at h
      obtain ⟨outer, hv, ho⟩ := ancestors_firstUnparenthesizedAt h
      rw [List.reverse_cons, List.append_assoc, List.singleton_append] at hv
      exact ⟨outer, hv, ho⟩
end

theorem found_boundFunction? {n : Node} {s : Site} (hn : n.kind = .variable)
    (h : n.boundFunction? source = some s) : s.Found source ∧ s.node = n := by
  rw [boundFunction?] at h
  cases hname : n.tree.name? source with
  | none => simp [hname] at h
  | some name =>
    cases hv : (n.field? "value").bind unparenthesized with
    | none => simp [hname, hv] at h
    | some value =>
      obtain ⟨v, hf, hu⟩ := Option.bind_eq_some_iff.1 hv
      obtain ⟨outer, habove, houter⟩ := ancestors_unparenthesizedAt hu
      have hc := ancestors_of_mem_children (mem_children_of_field? hf)
      simp only [hname, hv] at h
      cases hk : value.kind <;> simp only [hk, reduceCtorEq, Option.some.injEq] at h
      · subst h
        exact ⟨.bound hn hname (habove.trans (congrArg _ hc)) houter (.inr ⟨rfl, hk⟩), rfl⟩
      · subst h
        exact ⟨.bound hn hname (habove.trans (congrArg _ hc)) houter (.inl ⟨rfl, hk⟩), rfl⟩

theorem found_sitesOf {n : Node} {s : Site} (h : s ∈ n.sitesOf source) :
    s.Found source ∧ s.node ∈ n.walk := by
  have hself := mem_walk_self n
  rw [sitesOf] at h
  split at h
  · rename_i hk
    cases List.mem_singleton.1 h
    exact ⟨.classLike hk, hself⟩
  · rename_i hk
    cases List.mem_singleton.1 h
    exact ⟨.function (.inl hk), hself⟩
  · rename_i hk
    cases List.mem_singleton.1 h
    exact ⟨.function (.inr hk), hself⟩
  · rename_i hk
    cases List.mem_singleton.1 h
    exact ⟨.arrow hk, hself⟩
  · split at h
    · obtain ⟨d, hd, hs⟩ := List.mem_filterMap.1 h
      obtain ⟨hc, hk⟩ := List.mem_filter.1 hd
      obtain ⟨hf, hn⟩ := found_boundFunction? (eq_of_beq hk) hs
      have hw := mem_descendants_of_mem_children (mem_children_of_mem_namedChildren hc)
      exact ⟨hf, hn ▸ mem_walk_of_mem_descendants hw⟩
    · cases h

theorem mem_descendants_of_mem_topLevel {root n : Node} (h : n ∈ root.topLevel) :
    n ∈ root.descendants := by
  obtain ⟨m, hm, hn⟩ := List.mem_filterMap.1 h
  have hd := mem_descendants_of_mem_children (mem_children_of_mem_namedChildren hm)
  cases he : m.tree.isExport with
  | false =>
    rw [he, if_neg (by simp)] at hn
    cases hn
    exact hd
  | true =>
    rw [he, if_pos rfl, exported?] at hn
    have hc : n ∈ m.children := by
      cases hf : m.field? "declaration" with
      | none => exact mem_children_of_field? (f := "value") (by simpa [hf] using hn)
      | some d => exact mem_children_of_field? (f := "declaration") (by simpa [hf] using hn)
    exact mem_descendants_trans (mem_descendants_of_mem_children hc) hd

end Node

namespace Site

variable {source : Source}

theorem Found.target_mem_walk {s : Site} (h : s.Found source) : s.target ∈ s.node.walk := by
  cases h with
  | classLike h => exact Node.mem_walk_self _
  | function h => exact Node.mem_walk_self _
  | arrow h => exact Node.mem_walk_self _
  | bound hn hname habove houter hkind =>
    refine Node.mem_walk_of_mem_descendants (Node.mem_descendants_iff.2 ?_)
    rw [habove]
    exact List.mem_append_right _ List.mem_cons_self

theorem Found.isFunctionLike_target {s : Site} (h : s.Found source) (hf : s.form ≠ .classLike) :
    s.target.kind.isFunctionLike := by
  cases h with
  | classLike h => exact absurd rfl hf
  | function h =>
    rcases h with h | h
    · rw [h]
      rfl
    · rw [h]
      rfl
  | arrow h =>
    rw [h]
    rfl
  | bound hn hname habove houter hkind =>
    rcases hkind with ⟨-, h⟩ | ⟨-, h⟩
    · rw [h]
      rfl
    · rw [h]
      rfl

end Site

theorem Tree.found_sites {source : Source} {root : Tree} {s : Site}
    (h : s ∈ root.sites source) :
    s.Found source ∧ s.target ∈ (Node.ofTree root).descendants := by
  obtain ⟨n, hn, hs⟩ := List.mem_flatMap.1 h
  obtain ⟨hf, hw⟩ := Node.found_sitesOf hs
  have hnode := Node.mem_descendants_of_mem_walk hw (Node.mem_descendants_of_mem_topLevel hn)
  exact ⟨hf, Node.mem_descendants_of_mem_walk hf.target_mem_walk hnode⟩

end ComponentSurvey
