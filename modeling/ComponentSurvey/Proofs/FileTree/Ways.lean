import ComponentSurvey.Proofs.FileTree.Following

/-!
Ways through a file tree. A path goes on into directories and through links, and never behind a file.
In two trees with the same ways it therefore leads to the same places, however their files differ.
-/

set_option autoImplicit false

namespace ComponentSurvey

inductive Way where
  | inside
  | through (target : String)

namespace Entry

def way? : Entry → Option Way
  | .file .. => none
  | .directory _ => some .inside
  | .link target => some (.through target)

variable {e new : Entry} {q : Route} {name : String} {children : List (String × Entry)}

theorem exists_of_way?_inside (h : e.way? = some .inside) : ∃ children, e = .directory children := by
  cases e with
  | directory children => exact ⟨children, rfl⟩
  | _ => simp [way?] at h

theorem isDirectory_iff : e.isDirectory ↔ e.way? = some .inside := by
  cases e <;> simp [isDirectory, way?]

theorem eq_link_of_way? {target : String} (h : e.way? = some (.through target)) :
    e = .link target := by
  cases e with
  | link other => simpa [way?] using h
  | _ => simp [way?] at h

theorem at?_cons (e : Entry) (name : String) (r : Route) :
    e.at? (name :: r) = (e.child? name).bind (at? · r) := by
  rw [at?]

theorem at?_cons_of_way (h : e.way? = none) (name : String) (r : Route) :
    e.at? (name :: r) = none := by
  cases e with
  | file bytes tree => rfl
  | _ => simp [way?] at h

theorem directory_of_child {c : Entry} (h : e.child? name = some c) :
    ∃ children, e = .directory children ∧ children.lookup name = some c := by
  cases e with
  | directory children => exact ⟨children, rfl, h⟩
  | _ => simp [child?, Entry.children] at h

/-- A directory that stands below a part of a route stands in what has that part as its name. -/
theorem directory_of_at?_cons {c : Entry} (h : e.at? (name :: q) = some c) :
    ∃ children child, e = .directory children ∧ children.lookup name = some child ∧
      child.at? q = some c := by
  rw [at?_cons] at h
  obtain ⟨child, hc, hq⟩ := Option.bind_eq_some_iff.1 h
  obtain ⟨children, rfl, hl⟩ := directory_of_child hc
  exact ⟨children, child, rfl, hl, hq⟩

end Entry

namespace Spot

theorem at?_append (s : Spot) (q r : Route) : s.at? (q ++ r) = (s.at? q).bind (at? · r) := by
  induction q generalizing s with
  | nil => rfl
  | cons name q ih =>
    rw [List.cons_append, at?, at?]
    cases s.entry.child? name with
    | none => rfl
    | some e => exact ih (s.enter name e)

theorem map_entry_at? (s : Spot) (r : Route) : (s.at? r).map entry = s.entry.at? r := by
  induction r generalizing s with
  | nil => rfl
  | cons name r ih =>
    rw [at?, Entry.at?]
    cases s.entry.child? name with
    | none => rfl
    | some e => exact ih (s.enter name e)

theorem route_of_at? {s t : Spot} {r : Route} (h : s.at? r = some t) : t.route = s.route ++ r := by
  induction r generalizing s with
  | nil =>
    obtain rfl := Option.some.inj h
    rw [List.append_nil]
  | cons name r ih =>
    rw [at?] at h
    obtain ⟨e, -, ht⟩ := Option.bind_eq_some_iff.1 h
    rw [ih ht]
    simp [route, enter]

end Spot

namespace FileTree

def Stands (fs : FileTree) (r : Route) (s : Spot) : Prop := fs.topSpot.at? r = some s

variable {fs gs : FileTree} {r q : Route} {s t : Spot} {e : Entry} {name : String}

theorem map_entry_topSpot (fs : FileTree) (r : Route) :
    (fs.topSpot.at? r).map Spot.entry = fs.entry? r := Spot.map_entry_at? fs.topSpot r

theorem Stands.at_eq (h : fs.Stands r s) : fs.entry? r = some s.entry := by
  rw [← map_entry_topSpot, show fs.topSpot.at? r = some s from h]
  rfl

theorem Stands.route_eq (h : fs.Stands r s) : s.route = r := by
  rw [Spot.route_of_at? h]
  rfl

theorem Stands.enter (h : fs.Stands r s) (hc : s.entry.child? name = some e) :
    fs.Stands (r ++ [name]) (s.enter name e) := by
  rw [Stands, Spot.at?_append, show fs.topSpot.at? r = some s from h, Option.bind_some, Spot.at?,
    hc]
  rfl

theorem Stands.at_child (h : fs.Stands r s) (name : String) :
    fs.entry? (r ++ [name]) = s.entry.child? name := by
  rw [← map_entry_topSpot, Spot.at?_append, show fs.topSpot.at? r = some s from h,
    Option.bind_some, Spot.map_entry_at?, Entry.at?_cons]
  cases s.entry.child? name <;> rfl

theorem Stands.parent (h : fs.Stands r s) : fs.Stands r.dropLast s.parent := by
  rcases List.eq_nil_or_concat r with rfl | ⟨q, name, rfl⟩
  · obtain rfl := Option.some.inj h
    rfl
  · rw [List.concat_eq_append] at h ⊢
    rw [Stands, Spot.at?_append] at h
    obtain ⟨u, hu, hs⟩ := Option.bind_eq_some_iff.1 h
    rw [Spot.at?] at hs
    obtain ⟨e, -, he⟩ := Option.bind_eq_some_iff.1 hs
    obtain rfl := Option.some.inj he
    rw [List.dropLast_concat]
    exact hu

theorem exists_stands (h : (fs.entry? r).isSome) : ∃ s, fs.Stands r s := by
  rw [← map_entry_topSpot, Option.isSome_map] at h
  exact Option.isSome_iff_exists.1 h

/-- Whatever a path goes on through in the one tree stands at the same route in the other, and nothing
that stands in the first is missing in the second. -/
structure SameWays (fs gs : FileTree) : Prop where
  current_eq : gs.current = fs.current
  way_eq : ∀ r, (gs.entry? r).bind Entry.way? = (fs.entry? r).bind Entry.way?
  stays : ∀ r, (fs.entry? r).isSome → (gs.entry? r).isSome

theorem SameWays.refl (fs : FileTree) : fs.SameWays fs := ⟨rfl, fun _ => rfl, fun _ => id⟩

/-- Two places at one route, each in its tree. -/
def Twins (fs gs : FileTree) (s s' : Spot) : Prop := ∃ r, fs.Stands r s ∧ gs.Stands r s'

variable {s' : Spot}

theorem twins_top (fs gs : FileTree) : fs.Twins gs fs.topSpot gs.topSpot := ⟨[], rfl, rfl⟩

theorem Twins.parent (h : fs.Twins gs s s') : fs.Twins gs s.parent s'.parent := by
  obtain ⟨r, hs, hs'⟩ := h
  exact ⟨r.dropLast, hs.parent, hs'.parent⟩

theorem Twins.route_eq (h : fs.Twins gs s s') : s'.route = s.route := by
  obtain ⟨r, hs, hs'⟩ := h
  rw [hs.route_eq, hs'.route_eq]

theorem Twins.enter {e' : Entry} (h : fs.Twins gs s s') (he : s.entry.child? name = some e)
    (he' : s'.entry.child? name = some e') : fs.Twins gs (s.enter name e) (s'.enter name e') := by
  obtain ⟨r, hs, hs'⟩ := h
  exact ⟨r ++ [name], hs.enter he, hs'.enter he'⟩

theorem Twins.way_eq (h : fs.Twins gs s s') (hw : fs.SameWays gs) :
    s'.entry.way? = s.entry.way? := by
  obtain ⟨r, hs, hs'⟩ := h
  have hr := hw.way_eq r
  rw [hs.at_eq, hs'.at_eq] at hr
  exact hr

theorem Twins.way_child_eq (h : fs.Twins gs s s') (hw : fs.SameWays gs) (name : String) :
    (s'.entry.child? name).bind Entry.way? = (s.entry.child? name).bind Entry.way? := by
  obtain ⟨r, hs, hs'⟩ := h
  have hr := hw.way_eq (r ++ [name])
  rwa [hs.at_child, hs'.at_child] at hr

theorem Twins.startFrom (h : fs.Twins gs s s') (path : String) :
    fs.Twins gs (fs.startFrom s path) (gs.startFrom s' path) := by
  unfold FileTree.startFrom
  split
  · exact twins_top fs gs
  · exact h

structure Progress.Alike (fs gs : FileTree) (p p' : Progress) : Prop where
  arrived : ∀ t, p = .arrived t → t.entry.isDirectory →
    ∃ t', p' = .arrived t' ∧ fs.Twins gs t t'
  linked : ∀ t target rest, p = .linked t target rest →
    ∃ t', p' = .linked t' target rest ∧ fs.Twins gs t t'

theorem Progress.alike_failed (fs gs : FileTree) (fault : Fault) (p : Progress) :
    Alike fs gs (.failed fault) p where
  arrived t h := by cases h
  linked t target rest h := by cases h

/-- Nothing is reached through a file, or in one. -/
theorem Progress.alike_of_ends (h : s.entry.way? = none) (parts : List String) (p : Progress) :
    Alike fs gs (advance s parts) p := by
  obtain ⟨bytes, tree, he⟩ : ∃ bytes tree, s.entry = .file bytes tree := by
    cases hs : s.entry with
    | file bytes tree => exact ⟨bytes, tree, rfl⟩
    | _ => simp [hs, Entry.way?] at h
  cases parts with
  | nil =>
    refine ⟨fun t ht hd => ?_, fun _ _ _ hl => by cases hl⟩
    obtain rfl := Progress.arrived.inj ht
    rw [he] at hd
    cases hd
  | cons part parts =>
    rw [advance, he]
    exact alike_failed fs gs _ p

theorem Twins.advance_name (hw : fs.SameWays gs) {children children' : List (String × Entry)}
    {part : String} {parts : List String} (h : fs.Twins gs s s')
    (hs : s.entry = .directory children) (hs' : s'.entry = .directory children')
    (ih : ∀ {t t'}, fs.Twins gs t t' →
      Progress.Alike fs gs (advance t parts) (advance t' parts)) :
    Progress.Alike fs gs
      (match children.lookup part with
        | none => .failed .missing
        | some (.link target) => .linked s target parts
        | some e => advance (s.enter part e) parts)
      (match children'.lookup part with
        | none => .failed .missing
        | some (.link target) => .linked s' target parts
        | some e => advance (s'.enter part e) parts) := by
  have hchild : s.entry.child? part = children.lookup part := by rw [hs]; rfl
  have hchild' : s'.entry.child? part = children'.lookup part := by rw [hs']; rfl
  have hway := h.way_child_eq hw part
  rw [hchild, hchild'] at hway
  cases hl : children.lookup part with
  | none => exact Progress.alike_failed fs gs _ _
  | some e =>
    rw [hl, Option.bind_some] at hway
    cases e with
    | file bytes tree => exact Progress.alike_of_ends rfl parts _
    | link target =>
      obtain ⟨e', hl', he'⟩ := Option.bind_eq_some_iff.1 hway
      obtain rfl := Entry.eq_link_of_way? he'
      rw [hl']
      refine ⟨fun t ht => (by cases ht), fun t _ _ ht => ?_⟩
      obtain ⟨rfl, rfl, rfl⟩ := Progress.linked.inj ht
      exact ⟨s', rfl, h⟩
    | directory inner =>
      obtain ⟨e', hl', he'⟩ := Option.bind_eq_some_iff.1 hway
      obtain ⟨inner', rfl⟩ := Entry.exists_of_way?_inside he'
      rw [hl']
      exact ih (h.enter (hchild.trans hl) (hchild'.trans hl'))

theorem Twins.advance (hw : fs.SameWays gs) (parts : List String) (h : fs.Twins gs s s') :
    Progress.Alike fs gs (advance s parts) (FileTree.advance s' parts) := by
  induction parts generalizing s s' with
  | nil =>
    refine ⟨fun t ht _ => ?_, fun _ _ _ hl => by cases hl⟩
    obtain rfl := Progress.arrived.inj ht
    exact ⟨s', rfl, h⟩
  | cons part parts ih =>
    cases hs : s.entry with
    | file bytes tree => exact Progress.alike_of_ends (by rw [hs]; rfl) (part :: parts) _
    | link target =>
      rw [FileTree.advance, hs]
      exact Progress.alike_failed fs gs _ _
    | directory children =>
      have hway := h.way_eq hw
      rw [hs] at hway
      obtain ⟨children', hs'⟩ := Entry.exists_of_way?_inside hway
      rw [FileTree.advance, FileTree.advance, hs, hs']
      dsimp only
      by_cases hhere : part == "."
      · rw [if_pos hhere, if_pos hhere]
        exact ih h
      rw [if_neg hhere, if_neg hhere]
      by_cases habove : part == ".."
      · rw [if_pos habove, if_pos habove]
        exact ih h.parent
      rw [if_neg habove, if_neg habove]
      by_cases hlong : longestName < part.utf8ByteSize
      · rw [if_pos hlong]
        exact Progress.alike_failed fs gs _ _
      rw [if_neg hlong, if_neg hlong]
      exact h.advance_name hw hs hs' ih

theorem follow_linked {links : Nat} {parts rest : List String} {target : String} {u : Spot}
    (h : FileTree.advance s parts = .linked u target rest) :
    fs.follow (links + 1) s parts =
      fs.follow links (fs.startFrom u target) (followedParts target ++ rest) := by
  rw [FileTree.follow, h]

/-- Either there is no link on the way to what is reached, or the first one uses up one of the links
that may be followed. -/
theorem follow_cases {links : Nat} {parts : List String} {a : Arrival}
    (h : fs.follow links s parts = .ok a) :
    (FileTree.advance s parts = .arrived a.spot ∧ a.links = links) ∨
      ∃ u target rest n, FileTree.advance s parts = .linked u target rest ∧ links = n + 1 ∧
        fs.follow n (fs.startFrom u target) (followedParts target ++ rest) = .ok a := by
  cases hp : FileTree.advance s parts with
  | arrived u =>
    rw [FileTree.follow_arrived hp] at h
    obtain rfl := Except.ok.inj h
    exact .inl ⟨rfl, rfl⟩
  | failed fault => cases links <;> simp [FileTree.follow, hp] at h
  | linked u target rest =>
    cases links with
    | zero => simp [FileTree.follow, hp] at h
    | succ n => exact .inr ⟨u, target, rest, n, rfl, rfl, (follow_linked hp).symm.trans h⟩

/-- Where a path leads to a directory in one tree, it leads to its twin in the other, through as many
links. -/
theorem Twins.follow (hw : fs.SameWays gs) {links left : Nat} {parts : List String}
    (h : fs.Twins gs s s') (ht : fs.follow links s parts = .ok ⟨t, left⟩)
    (hd : t.entry.isDirectory) :
    ∃ t', gs.follow links s' parts = .ok ⟨t', left⟩ ∧ fs.Twins gs t t' := by
  -- Each link on the way leaves fewer links to follow.
  induction links using Nat.strongRecOn generalizing s s' parts with
  | ind links ih =>
    rcases follow_cases ht with ⟨hp, rfl⟩ | ⟨u, target, rest, n, hp, rfl, hn⟩
    · obtain ⟨t', hp', htwins⟩ := (h.advance hw parts).arrived t hp hd
      exact ⟨t', FileTree.follow_arrived hp' _, htwins⟩
    · obtain ⟨u', hp', hu⟩ := (h.advance hw parts).linked u target rest hp
      rw [follow_linked hp']
      exact ih n (Nat.lt_succ_self n) (hu.startFrom target) hn

theorem advance_append (s : Spot) (parts more : List String) :
    FileTree.advance s (parts ++ more) =
      match FileTree.advance s parts with
      | .arrived t => FileTree.advance t more
      | .failed fault => .failed fault
      | .linked t target rest => .linked t target (rest ++ more) := by
  induction parts generalizing s with
  | nil => rfl
  | cons part parts ih =>
    rw [List.cons_append, FileTree.advance, FileTree.advance]
    cases s.entry with
    | file bytes tree => rfl
    | link target => rfl
    | directory children =>
      dsimp only
      by_cases hhere : part == "."
      · rw [if_pos hhere, if_pos hhere, ih]
      rw [if_neg hhere, if_neg hhere]
      by_cases habove : part == ".."
      · rw [if_pos habove, if_pos habove, ih]
      rw [if_neg habove, if_neg habove]
      by_cases hlong : longestName < part.utf8ByteSize
      · rw [if_pos hlong, if_pos hlong]
      rw [if_neg hlong, if_neg hlong]
      cases children.lookup part with
      | none => rfl
      | some e =>
        cases e with
        | link target => rfl
        | _ => exact ih _

theorem follow_append {links left : Nat} {parts : List String}
    (ht : fs.follow links s parts = .ok ⟨t, left⟩) (more : List String) :
    fs.follow links s (parts ++ more) = fs.follow left t more := by
  induction links using Nat.strongRecOn generalizing s parts with
  | ind links ih =>
    have ha := advance_append s parts more
    rcases follow_cases ht with ⟨hp, rfl⟩ | ⟨u, target, rest, n, hp, rfl, hn⟩
    · rw [hp] at ha
      exact follow_congr ha _
    · rw [hp] at ha
      rw [follow_linked ha, ← List.append_assoc]
      exact ih n (Nat.lt_succ_self n) hn

end FileTree

end ComponentSurvey
