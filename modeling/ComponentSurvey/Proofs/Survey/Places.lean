import ComponentSurvey.Analysis
import ComponentSurvey.Proofs.Source.Positions
import ComponentSurvey.Proofs.Survey.Parts

/-!
Where the records of a survey are. Every record has the place of a node of the file. But for
exports, which repeat the place of their statement, the records of one list have the places of
different nodes, in the order of the nodes.
-/

set_option autoImplicit false

namespace ComponentSurvey

variable {source : Source}

namespace Tree

variable {root : Tree}

def places (source : Source) (root : Tree) : List Location := root.descendants.map (location source)

theorem Apart.map_location_sublist {us : List Tree} (h : Apart root.children us) :
    (us.map (location source)).Sublist (root.places source) := h.sublist.map _

theorem map_location_components (source : Source) (root : Tree) :
    ((root.components source).map (·.location)).Sublist (root.places source) := by
  have hs : ((root.components source).map (·.location)).Sublist
      ((root.declarations source).map fun d => d.node.location source) := by
    refine map_filterMap_sublist fun d c hc => ?_
    rcases Declaration.eq_of_component? hc with rfl | rfl
    · rfl
    · rfl
  have hn : (((root.declarations source).map (·.node)).map (location source)).Sublist
      (root.places source) := (apart_nodes source root).map_location_sublist
  rw [List.map_map] at hn
  exact hs.trans hn

end Tree

def Declaration.callableNodes (source : Source) (d : Declaration) : List Tree :=
  if d.form == .classLike then d.target.members.filter (Tree.isPlainMethod source)
  else if d.isComponentFunction then []
  else [d.node]

theorem Declaration.map_location_callables (source : Source) (d : Declaration) :
    (d.callables source).map (·.location) =
      (d.callableNodes source).map (Tree.location source) := by
  unfold Declaration.callables Declaration.callableNodes
  split
  · rw [List.map_map]
    rfl
  · split
    · rfl
    · rfl

namespace Tree

variable {root s : Tree} {d : Declaration}

theorem apart_callableNodes (h : d ∈ s.declarationsOf source) :
    Apart [d.node] (d.callableNodes source) := by
  unfold Declaration.callableNodes
  split
  · exact (apart_target h).trans ((Apart.children d.target).trans (apart_methods source d.target))
  · split
    · exact .nil _
    · exact .refl _

theorem map_location_callables (source : Source) (root : Tree) :
    ((root.callables source).map (·.location)).Sublist (root.places source) := by
  have hm : (root.callables source).map (·.location) =
      ((root.declarations source).flatMap (Declaration.callableNodes source)).map
        (location source) := by
    rw [callables, List.map_flatMap, List.map_flatMap]
    exact congrArg (List.flatMap · _) (funext (Declaration.map_location_callables source))
  rw [hm]
  exact (apart_flatMap_declarations root fun _ _ => apart_callableNodes).map_location_sublist

theorem map_location_hooks (source : Source) (root : Tree) :
    ((root.hooks source).map (·.location)).Sublist (root.places source) := by
  have hs : ((root.hookCalls source).map fun x => x.2.tree.location source).Sublist
      ((Node.ofTree root).descendants.map fun n => n.tree.location source) := by
    refine map_filterMap_sublist fun n x hx => ?_
    split at hx
    · obtain ⟨name, -, rfl⟩ := Option.map_eq_some_iff.1 hx
      rfl
    · cases hx
  have hn := congrArg (List.map (location source)) (Node.map_tree_descendants (.ofTree root))
  rw [List.map_map] at hn
  rw [hooks, List.map_map]
  exact hs.trans (hn ▸ .refl _)

theorem map_location_imports (source : Source) (root : Tree) :
    ((root.imports source).map (·.location)).Sublist (root.places source) := by
  rw [imports, List.map_map]
  exact ((Apart.namedChildren root).trans (.of_sublist List.filter_sublist)).map_location_sublist

theorem map_location_interfaces (source : Source) (root : Tree) :
    ((root.interfaces source).map (·.location)).Sublist (root.places source) := by
  rw [interfaces, List.map_map]
  exact ((apart_topLevel root).trans (.of_sublist List.filter_sublist)).map_location_sublist

theorem map_location_typeAliases (source : Source) (root : Tree) :
    ((root.typeAliases source).map (·.location)).Sublist (root.places source) := by
  rw [typeAliases, List.map_map]
  exact ((apart_topLevel root).trans (.of_sublist List.filter_sublist)).map_location_sublist

/-- The names of a list have places of their own, other exports that of their statement. -/
theorem map_location_exportsOf (source : Source) (s : Tree) :
    (∃ n, (s.exportsOf source).map (·.location) = List.replicate n (s.location source)) ∨
      ((s.exportsOf source).map (·.location)).Sublist (s.places source) := by
  cases hc : s.childOfType? "export_clause" with
  | some clause =>
    have hm : clause ∈ s.namedChildren := List.mem_of_find?_eq_some hc
    have hs : (clause.namedChildren.filter (·.type == "export_specifier")).Sublist
        clause.children := List.filter_sublist.trans List.filter_sublist
    have ha : Apart s.children (clause.namedChildren.filter (·.type == "export_specifier")) :=
      ((Apart.namedChildren s).trans (.of_mem hm)).trans
        ((Apart.children clause).trans (.of_sublist hs))
    right
    simp only [exportsOf, hc]
    rw [listedExports, List.map_map]
    exact ha.map_location_sublist
  | none =>
    left
    simp only [exportsOf, hc]
    split
    · exact ⟨1, rfl⟩
    split
    · exact ⟨1, rfl⟩
    split
    · exact ⟨1, rfl⟩
    split
    · exact ⟨0, rfl⟩
    · rw [List.map_map]
      exact ⟨_, List.map_const'⟩

theorem map_location_exportsOf_subset (source : Source) (s : Tree) :
    (s.exportsOf source).map (·.location) ⊆ s.preorder.map (location source) := by
  rw [preorder_eq_cons, List.map_cons]
  intro l hl
  rcases map_location_exportsOf source s with ⟨n, hn⟩ | hn
  · rw [hn] at hl
    rw [(List.mem_replicate.1 hl).2]
    exact List.mem_cons_self
  · exact List.mem_cons_of_mem _ (hn.subset hl)

theorem apart_exportStatements (root : Tree) :
    Apart root.children (root.namedChildren.filter isExport) :=
  (Apart.namedChildren root).trans (.of_sublist List.filter_sublist)

theorem location_mem_places_of_export {e : Export} (h : e ∈ root.exports source) :
    e.location ∈ root.places source := by
  obtain ⟨s, hs, he⟩ := List.mem_flatMap.1 h
  have ha := (apart_exportStatements root).trans (.of_mem hs)
  rw [Apart, preorderList_singleton] at ha
  exact List.map_subset _ ha.subset
    (map_location_exportsOf_subset source s (List.mem_map_of_mem he))

theorem location_mem_places_of_declaration {d : Declaration} (h : d ∈ root.declarations source) :
    d.node.location source ∈ root.places source :=
  (apart_nodes source root).map_location_sublist.subset (by simpa using ⟨d, h, rfl⟩)

end Tree

namespace Declaration

variable {weight : Json} {d : Declaration} {p : Pattern}

theorem location_of_customHook? (h : d.customHook? source weight = some p) :
    p.location = d.node.location source := by
  unfold customHook? at h
  split at h
  · cases h
  · obtain ⟨name, -, rfl⟩ := Option.map_eq_some_iff.1 h
    rfl

theorem location_of_singleton? (h : d.singleton? source weight = some p) :
    p.location = d.node.location source := by
  simp only [singleton?] at h
  split at h
  · cases h
    rfl
  · cases h

theorem location_of_higherOrder? (h : d.higherOrder? source weight = some p) :
    p.location = d.node.location source := by
  unfold higherOrder? at h
  split at h
  · cases h
  · obtain ⟨name, -, hp⟩ := Option.bind_eq_some_iff.1 h
    simp only at hp
    split at hp
    · cases hp
      rfl
    · cases hp

theorem location_of_factory? (h : d.factory? source weight = some p) :
    p.location = d.node.location source := by
  unfold factory? at h
  split at h
  · cases h
  · obtain ⟨name, -, hp⟩ := Option.bind_eq_some_iff.1 h
    split at hp
    · cases hp
      rfl
    · cases hp

end Declaration

theorem Node.location_of_context? {framework : String} {weight : Json} {n : Node} {p : Pattern}
    (h : n.context? source framework weight = some p) :
    p.location = n.tree.location source := by
  unfold context? at h
  split at h
  · cases h
    rfl
  · cases h

namespace Tree

variable {root : Tree} {table : Weights} {imports : List Import} {p : Pattern}

theorem location_mem_places_of_findSome? {f : Declaration → Option Pattern}
    (hf : ∀ d p, f d = some p → p.location = d.node.location source)
    (h : p ∈ ((root.declarations source).findSome? f).toList) :
    p.location ∈ root.places source := by
  obtain ⟨d, hd, hp⟩ := List.exists_of_findSome?_eq_some (Option.mem_toList.1 h)
  rw [hf d p hp]
  exact location_mem_places_of_declaration hd

theorem location_mem_places_of_frameworkPattern {framework : String}
    (h : p ∈ root.frameworkPatterns source table framework) :
    p.location ∈ root.places source := by
  rw [frameworkPatterns, List.mem_append, List.mem_append] at h
  rcases h with (h | h) | h
  · obtain ⟨d, hd, hp⟩ := List.mem_filterMap.1 h
    rw [Declaration.location_of_customHook? hp]
    exact location_mem_places_of_declaration hd
  · exact location_mem_places_of_findSome? (fun _ _ => Declaration.location_of_higherOrder?) h
  · obtain ⟨n, hn, hp⟩ := List.exists_of_findSome?_eq_some (Option.mem_toList.1 h)
    have ht : n.tree ∈ (Node.ofTree root).descendants.map (·.tree) := List.mem_map_of_mem hn
    rw [Node.map_tree_descendants] at ht
    rw [Node.location_of_context? hp]
    exact List.mem_map_of_mem ht

theorem location_mem_places_of_pattern (h : p ∈ root.patterns source table imports) :
    p.location ∈ root.places source := by
  rw [patterns, List.mem_append, List.mem_append] at h
  rcases h with (h | h) | h
  · split at h
    · cases h
    · exact location_mem_places_of_frameworkPattern h
  · exact location_mem_places_of_findSome? (fun _ _ => Declaration.location_of_singleton?) h
  · exact location_mem_places_of_findSome? (fun _ _ => Declaration.location_of_factory?) h

end Tree

namespace Survey

def locations (v : Survey) : List Location :=
  v.components.map (·.location) ++ v.functions.map (·.location) ++ v.hooks.map (·.location) ++
    v.imports.map (·.location) ++ v.exports.map (·.location) ++ v.interfaces.map (·.location) ++
    v.types.map (·.location) ++ v.patterns.map (·.location)

theorem locations_subset_places (table : Weights) (path : String) (source : Source) (root : Tree) :
    (ofTree table path source root).locations ⊆ root.places source := by
  intro l hl
  simp only [locations, ofTree, List.mem_append] at hl
  rcases hl with ((((((hl | hl) | hl) | hl) | hl) | hl) | hl) | hl
  · exact (Tree.map_location_components source root).subset hl
  · exact (Tree.map_location_callables source root).subset hl
  · exact (Tree.map_location_hooks source root).subset hl
  · exact (Tree.map_location_imports source root).subset hl
  · obtain ⟨e, he, rfl⟩ := List.mem_map.1 hl
    exact Tree.location_mem_places_of_export he
  · exact (Tree.map_location_interfaces source root).subset hl
  · exact (Tree.map_location_typeAliases source root).subset hl
  · obtain ⟨p, hp, rfl⟩ := List.mem_map.1 hl
    exact Tree.location_mem_places_of_pattern hp

/-- When all spans are in the source, every location that is reported is that of a node and in the
file as its lines are counted. Up to the end of the source, later offsets have later lines and
columns, so nodes with the same location have the same span. -/
theorem locations_within (table : Weights) (path : String) (source : Source) (root : Tree)
    (h : ∀ t ∈ root.preorder, t.span.start ≤ t.span.stop ∧ t.span.stop ≤ source.bytes.size) :
    let v := ofTree table path source root
    (∀ l ∈ v.locations, l.Within v.complexity.linesOfCode ∧
      ∃ t ∈ root.preorder, l = t.location source) ∧
    (∀ i j, i < j → j ≤ source.bytes.size → source.position i < source.position j) ∧
    ∀ t ∈ root.preorder, ∀ u ∈ root.preorder, t.location source = u.location source →
      t.span = u.span := by
  intro v
  refine ⟨fun l hl => ?_, fun i j => Source.position_lt, fun t ht u hu => ?_⟩
  · obtain ⟨t, ht, rfl⟩ := List.mem_map.1 (locations_subset_places table path source root hl)
    have ht : t ∈ root.preorder := root.preorder_eq_cons ▸ List.mem_cons_of_mem _ ht
    exact ⟨source.within_location (h t ht).1, t, ht, rfl⟩
  · exact Source.span_eq_of_location_eq (h t ht) (h u hu)

/-- The one statement of a file with an empty line before it and one after it. -/
theorem locations_within_of_import :
    let statement := Tree.node ⟨"import_statement", true, false, ⟨1, 11⟩, []⟩ []
    let root := Tree.node ⟨"program", true, false, ⟨0, 12⟩, []⟩ [statement]
    let source := Source.ofBytes "\nimport 'a'\n".toUTF8.toList
    let v := ofTree [] "a.ts" source root
    v.locations = [⟨2, 1, 2, 11⟩] ∧ v.complexity.linesOfCode = 3 ∧
      ∀ l ∈ v.locations, l.Within v.complexity.linesOfCode := by
  intro statement root source v
  have h := locations_within [] "a.ts" source root (by decide +kernel)
  exact ⟨by decide +kernel, by decide +kernel, fun l hl => (h.1 l hl).1⟩

end Survey

end ComponentSurvey
