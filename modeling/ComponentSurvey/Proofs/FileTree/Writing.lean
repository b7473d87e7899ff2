import ComponentSurvey.FileTree.Change
import ComponentSurvey.Proofs.FileTree.Ways

/-!
Writing to paths. A file that is written stands where its path leads. As no way leads on from a file,
every other path that can be written leads where it led before.
-/

set_option autoImplicit false

namespace ComponentSurvey

namespace Entry

variable {e new : Entry} {q : Route} {name : String} {children : List (String × Entry)}

theorem putAt_cons (new : Entry) (name : String) (r : Route) (children : List (String × Entry)) :
    putAt new (name :: r) (.directory children) =
      .directory (putChild name (putAt new r ((children.lookup name).getD (.directory [])))
        children) := by
  rw [putAt]

theorem at?_putChild (e : Entry) (children : List (String × Entry)) (other : String) (r : Route) :
    (Entry.directory (putChild name e children)).at? (other :: r) =
      if other == name then e.at? r else (Entry.directory children).at? (other :: r) := by
  simp only [at?_cons, child?, Entry.children, lookup_putChild]
  by_cases h : other == name <;> simp [h]

theorem at?_putAt (h : e.at? q = some (.directory children)) (new : Entry) (name : String) :
    (putAt new (q ++ [name]) e).at? (q ++ [name]) = some new := by
  induction q generalizing e with
  | nil =>
    obtain rfl : e = .directory children := Option.some.inj h
    rw [List.nil_append, putAt_cons, at?_putChild, if_pos (by simp), putAt, at?]
  | cons part q ih =>
    obtain ⟨above, child, rfl, hl, hq⟩ := directory_of_at?_cons h
    rw [List.cons_append, putAt_cons, at?_putChild, if_pos (by simp), hl, Option.getD_some, ih hq]

theorem way?_at?_of_ends {old : Option Entry} (hold : ∀ o, old = some o → o.way? = none)
    (hnew : new.way? = none) (x : Route) :
    (new.at? x).bind way? = (old.bind (at? · x)).bind way? ∧
      ((old.bind (at? · x)).isSome → (new.at? x).isSome) := by
  cases x with
  | nil =>
    refine ⟨?_, fun _ => rfl⟩
    cases old with
    | none => exact hnew
    | some o => exact hnew.trans (hold o rfl).symm
  | cons part x =>
    rw [at?_cons_of_way hnew]
    cases old with
    | none => exact ⟨rfl, id⟩
    | some o =>
      rw [Option.bind_some, at?_cons_of_way (hold o rfl)]
      exact ⟨rfl, id⟩

/-- What is put where no path goes on, and lets none go on, leaves all ways as they were. -/
theorem way?_putAt (h : e.at? q = some (.directory children))
    (hold : ∀ old, children.lookup name = some old → old.way? = none) (hnew : new.way? = none)
    (x : Route) :
    ((putAt new (q ++ [name]) e).at? x).bind way? = (e.at? x).bind way? ∧
      ((e.at? x).isSome → ((putAt new (q ++ [name]) e).at? x).isSome) := by
  induction q generalizing e x with
  | nil =>
    obtain rfl : e = .directory children := Option.some.inj h
    rw [List.nil_append, putAt_cons, putAt]
    cases x with
    | nil => exact ⟨rfl, fun _ => rfl⟩
    | cons part x =>
      rw [at?_putChild]
      by_cases hp : part = name
      · subst hp
        rw [if_pos (by simp), at?_cons]
        exact way?_at?_of_ends hold hnew x
      · rw [if_neg (by simpa using hp)]
        exact ⟨rfl, id⟩
  | cons first q ih =>
    obtain ⟨above, child, rfl, hl, hq⟩ := directory_of_at?_cons h
    rw [List.cons_append, putAt_cons, hl, Option.getD_some]
    cases x with
    | nil => exact ⟨rfl, fun _ => rfl⟩
    | cons part x =>
      rw [at?_putChild]
      by_cases hp : part = first
      · subst hp
        rw [if_pos (by simp), at?_cons, child?, Entry.children, hl, Option.bind_some]
        exact ih hq x
      · rw [if_neg (by simpa using hp)]
        exact ⟨rfl, id⟩

end Entry

namespace FileTree

variable {fs gs : FileTree} {r q : Route} {s s' t : Spot} {e : Entry} {name : String}

def namedPieces (path : String) : List String := (Path.pieces path).filter (· != "")

/-- What a path that is opened for writing leads to before its last name: a directory, and the name
can be one in it. -/
structure LeadsInto (fs : FileTree) (links : Nat) (directory : Spot) (path : String) (here : Spot)
    (left : Nat) (name : String) : Prop where
  follow_eq : fs.follow links (fs.startFrom directory path) (namedPieces path).dropLast =
    .ok ⟨here, left⟩
  isDirectory : here.entry.isDirectory
  last_eq : (namedPieces path).getLast? = some name
  isMeaningful : Path.isMeaningful name
  ne_above : name ≠ ".."
  noFinalSlash : Path.hasFinalSlash path = false
  short : name.utf8ByteSize ≤ longestName

variable {steps links left : Nat} {directory here : Spot} {path : String}

/-- What is done with the name at the end, once the directory is reached. -/
theorem LeadsInto.openedRoute_eq (h : fs.LeadsInto links directory path here left name)
    (steps : Nat) :
    fs.openedRoute (steps + 1) links directory path =
      match here.entry.child? name, left with
      | some (.directory _), _ => .error .isDirectory
      | some (.link _), 0 => .error .tooManyLinks
      | some (.link target), n + 1 => fs.openedRoute steps n here target
      | _, _ => .ok (here.route ++ [name]) := by
  obtain ⟨hfollow, hd, hlast, hm, habove, hslash, hshort⟩ := h
  obtain ⟨entry, above⟩ := here
  obtain ⟨children, rfl⟩ := Entry.exists_of_way?_inside (Entry.isDirectory_iff.1 hd)
  have hlong := Nat.not_lt.2 hshort
  have hchild : (Entry.directory children).child? name = children.lookup name := rfl
  rw [namedPieces] at hfollow hlast
  rw [openedRoute]
  simp only [hfollow, hlast, hm, hslash, beq_eq_false_iff_ne.2 habove, hlong, hchild, Bool.not_true,
    Bool.or_self, Bool.false_eq_true, if_false]
  cases children.lookup name with
  | none => rfl
  | some e =>
    cases e with
    | link target => cases left <;> rfl
    | _ => rfl

theorem LeadsInto.openedRoute_of_ends (h : fs.LeadsInto links directory path here left name)
    (hends : (here.entry.child? name).bind Entry.way? = none) (steps : Nat) :
    fs.openedRoute (steps + 1) links directory path = .ok (here.route ++ [name]) := by
  rw [h.openedRoute_eq]
  cases hc : here.entry.child? name with
  | none => rfl
  | some e =>
    rw [hc, Option.bind_some] at hends
    cases e with
    | file bytes tree => rfl
    | _ => simp [Entry.way?] at hends

theorem exists_leadsInto (h : fs.openedRoute (steps + 1) links directory path = .ok r) :
    ∃ here left name, fs.LeadsInto links directory path here left name := by
  rw [openedRoute] at h
  have hf : fs.follow links (fs.startFrom directory path) (namedPieces path).dropLast =
    fs.follow links (fs.startFrom directory path)
      ((Path.pieces path).filter (· != "")).dropLast := rfl
  cases hfollow : fs.follow links (fs.startFrom directory path)
      ((Path.pieces path).filter (· != "")).dropLast with
  | error fault => simp [hfollow] at h
  | ok a =>
    obtain ⟨⟨entry, above⟩, left⟩ := a
    cases hlast : ((Path.pieces path).filter (· != "")).getLast? with
    | none => simp [hfollow, hlast] at h
    | some name =>
      cases entry with
      | file bytes tree => simp [hfollow, hlast] at h
      | link target => simp [hfollow, hlast] at h
      | directory children =>
        simp only [hfollow, hlast] at h
        by_cases hname : !Path.isMeaningful name || name == ".." || Path.hasFinalSlash path
        · simp [hname] at h
        by_cases hlong : longestName < name.utf8ByteSize
        · simp [hname, hlong] at h
        simp only [Bool.or_eq_true, Bool.not_eq_true', beq_iff_eq, not_or, Bool.not_eq_false,
          Bool.not_eq_true] at hname
        exact ⟨_, left, name, hf.trans hfollow, rfl, hlast, hname.1.1, hname.1.2, hname.2,
          Nat.not_lt.1 hlong⟩

/-- The path leads into a directory. Its last name is a link, which is gone through, or there is no way
on from it and the file is written there. -/
theorem openedRoute_cases (h : fs.openedRoute (steps + 1) links directory path = .ok r) :
    ∃ here left name, fs.LeadsInto links directory path here left name ∧
      ((∃ target n, here.entry.child? name = some (.link target) ∧ left = n + 1 ∧
          fs.openedRoute steps n here target = .ok r) ∨
        (here.entry.child? name).bind Entry.way? = none ∧ r = here.route ++ [name]) := by
  obtain ⟨here, left, name, hl⟩ := exists_leadsInto h
  rw [hl.openedRoute_eq] at h
  refine ⟨here, left, name, hl, ?_⟩
  cases hc : here.entry.child? name with
  | none =>
    rw [hc] at h
    exact .inr ⟨rfl, (Except.ok.inj h).symm⟩
  | some e =>
    rw [hc] at h
    cases e with
    | file bytes tree => exact .inr ⟨rfl, (Except.ok.inj h).symm⟩
    | directory children => cases h
    | link target =>
      cases left with
      | zero => cases h
      | succ n => exact .inl ⟨target, n, rfl, rfl, h⟩

/-- The route at which a file is written ends in a directory, and is no way on. -/
theorem openedRoute_slot (hs : fs.Stands q directory)
    (h : fs.openedRoute steps links directory path = .ok r) :
    ∃ above children name, r = above ++ [name] ∧ fs.entry? above = some (.directory children) ∧
      (children.lookup name).bind Entry.way? = none := by
  induction steps generalizing links directory path q with
  | zero => simp [openedRoute] at h
  | succ steps ih =>
    obtain ⟨here, left, name, hl, hcase⟩ := openedRoute_cases h
    obtain ⟨_, _, q', hhere, -⟩ := Twins.follow (.refl fs)
      (Twins.startFrom ⟨q, hs, hs⟩ path) hl.follow_eq hl.isDirectory
    rcases hcase with ⟨target, n, -, -, hn⟩ | ⟨hends, rfl⟩
    · exact ih hhere hn
    · obtain ⟨children, hc⟩ := Entry.exists_of_way?_inside (Entry.isDirectory_iff.1 hl.isDirectory)
      rw [hc] at hends
      exact ⟨q', children, name, by rw [hhere.route_eq], by rw [hhere.at_eq, hc], hends⟩

theorem Twins.openedRoute (hw : fs.SameWays gs) (hs : fs.Twins gs directory s')
    (h : fs.openedRoute steps links directory path = .ok r) :
    gs.openedRoute steps links s' path = .ok r := by
  induction steps generalizing links directory s' path with
  | zero => simp [FileTree.openedRoute] at h
  | succ steps ih =>
    obtain ⟨here, left, name, hl, hcase⟩ := openedRoute_cases h
    obtain ⟨here', hfollow, hhere⟩ := (hs.startFrom path).follow hw hl.follow_eq hl.isDirectory
    have hd : here'.entry.isDirectory := by
      rw [Entry.isDirectory_iff, hhere.way_eq hw, ← Entry.isDirectory_iff]
      exact hl.isDirectory
    have hl' : gs.LeadsInto links s' path here' left name :=
      { hl with follow_eq := hfollow, isDirectory := hd }
    have hchild := hhere.way_child_eq hw name
    rcases hcase with ⟨target, n, hc, rfl, hn⟩ | ⟨hends, rfl⟩
    · rw [hc] at hchild
      obtain ⟨e', hc', he'⟩ := Option.bind_eq_some_iff.1 hchild
      obtain rfl := Entry.eq_link_of_way? he'
      rw [hl'.openedRoute_eq, hc']
      exact ih hhere hn
    · rw [hl'.openedRoute_of_ends (hchild.trans hends), hhere.route_eq]

theorem LeadsInto.advance_eq (h : fs.LeadsInto links directory path here left name) :
    FileTree.advance here [name] =
      match here.entry.child? name with
      | none => .failed .missing
      | some (.link target) => .linked here target []
      | some e => .arrived (here.enter name e) := by
  obtain ⟨children, hd⟩ := Entry.exists_of_way?_inside (Entry.isDirectory_iff.1 h.isDirectory)
  have hm := h.isMeaningful
  simp only [Path.isMeaningful, Bool.and_eq_true, bne_iff_ne] at hm
  rw [FileTree.advance, hd]
  simp only [beq_eq_false_iff_ne.2 hm.2, beq_eq_false_iff_ne.2 h.ne_above, Nat.not_lt.2 h.short,
    Bool.false_eq_true, if_false]
  rfl

theorem LeadsInto.followedParts_eq (h : fs.LeadsInto links directory path here left name) :
    followedParts path = (namedPieces path).dropLast ++ [name] := by
  rw [followedParts, h.noFinalSlash, ← namedPieces]
  exact (List.dropLast_append_getLast? name h.last_eq).symm

/-- What stands where a path is written is what the path leads to. -/
theorem follow_openedRoute {bytes : List UInt8} {tree : Tree} (hs : fs.Stands q directory)
    (h : fs.openedRoute steps links directory path = .ok r)
    (he : fs.entry? r = some (.file bytes tree)) :
    ∃ a, fs.follow links (fs.startFrom directory path) (followedParts path) = .ok a ∧
      a.spot.entry = .file bytes tree := by
  induction steps generalizing links directory path q with
  | zero => simp [openedRoute] at h
  | succ steps ih =>
    obtain ⟨here, left, name, hl, hcase⟩ := openedRoute_cases h
    obtain ⟨_, _, q', hhere, -⟩ := Twins.follow (.refl fs)
      (Twins.startFrom ⟨q, hs, hs⟩ path) hl.follow_eq hl.isDirectory
    rw [hl.followedParts_eq, follow_append hl.follow_eq]
    rcases hcase with ⟨target, n, hc, rfl, hn⟩ | ⟨hends, rfl⟩
    · have ha := hl.advance_eq
      rw [hc] at ha
      rw [follow_linked ha, List.append_nil]
      exact ih hhere hn
    · have ha := hl.advance_eq
      rw [hhere.route_eq, hhere.at_child] at he
      rw [he] at ha
      exact ⟨_, FileTree.follow_arrived ha left, rfl⟩

theorem currentSpot_eq_ok_iff : fs.currentSpot = .ok s ↔ fs.Stands fs.current s := by
  rw [currentSpot, Stands]
  cases fs.topSpot.at? fs.current <;> simp

/-- A path can be written at a route when it is a path at all and, followed from the current directory,
is opened there. -/
theorem writableRoute_eq_ok_iff : fs.writableRoute path = .ok r ↔
    Path.hasNull path = false ∧ admitted path = .ok () ∧ ∃ s, fs.Stands fs.current s ∧
      fs.openedRoute (mostLinks + 1) mostLinks s path = .ok r := by
  simp only [writableRoute, ← currentSpot_eq_ok_iff]
  cases Path.hasNull path with
  | true => simp
  | false =>
    cases admitted path with
    | error fault => simp
    | ok _ =>
      cases fs.currentSpot with
      | error fault => simp
      | ok s =>
        dsimp only
        cases ho : fs.openedRoute (mostLinks + 1) mostLinks s path <;> simp [ho]

theorem SameWays.writableRoute (hw : fs.SameWays gs) (h : fs.writableRoute path = .ok r) :
    gs.writableRoute path = .ok r := by
  obtain ⟨hnull, hadmitted, s, hs, ho⟩ := writableRoute_eq_ok_iff.1 h
  have hstays := hw.stays fs.current (by rw [hs.at_eq]; rfl)
  obtain ⟨s', hs'⟩ := exists_stands hstays
  refine writableRoute_eq_ok_iff.2 ⟨hnull, hadmitted, s', hw.current_eq ▸ hs', ?_⟩
  exact Twins.openedRoute hw ⟨fs.current, hs, hs'⟩ ho

theorem top_put (hr : r ≠ []) (e : Entry) : (fs.put r e).top = Entry.putAt e r fs.top := by
  obtain ⟨name, r, rfl⟩ := List.exists_cons_of_ne_nil hr
  rw [put, if_neg (by simp), top, top, Entry.putAt_cons]
  rfl

theorem at_put (h : fs.writableRoute path = .ok r) (e : Entry) :
    FileTree.entry? (fs.put r e) r = some e := by
  obtain ⟨-, -, s, hs, ho⟩ := writableRoute_eq_ok_iff.1 h
  obtain ⟨above, children, name, rfl, hd, -⟩ := openedRoute_slot hs ho
  unfold entry?
  rw [top_put (by simp)]
  exact Entry.at?_putAt hd e name

/-- A file that is written is no way and shuts none. -/
theorem sameWays_put (h : fs.writableRoute path = .ok r) (bytes : List UInt8) (tree : Tree) :
    fs.SameWays (fs.put r (.file bytes tree)) := by
  obtain ⟨-, -, s, hs, ho⟩ := writableRoute_eq_ok_iff.1 h
  obtain ⟨above, children, name, rfl, hd, hends⟩ := openedRoute_slot hs ho
  have hold : ∀ old, children.lookup name = some old → old.way? = none := by
    intro old hl
    rwa [hl] at hends
  have hways := Entry.way?_putAt hd hold (show (Entry.file bytes tree).way? = none from rfl)
  refine ⟨?_, fun x => ?_, fun x => ?_⟩
  · rw [put, if_neg (by simp)]
  · unfold entry?
    rw [top_put (by simp)]
    exact (hways x).1
  · unfold entry?
    rw [top_put (by simp)]
    exact (hways x).2

theorem locate_of_writable {bytes : List UInt8} {tree : Tree} (h : fs.writableRoute path = .ok r)
    (he : fs.entry? r = some (.file bytes tree)) : fs.locate path = .ok (.file bytes tree) := by
  obtain ⟨-, hadmitted, s, hs, ho⟩ := writableRoute_eq_ok_iff.1 h
  obtain ⟨a, ha, hentry⟩ := follow_openedRoute hs ho he
  rw [locate, hadmitted, currentSpot_eq_ok_iff.2 hs]
  simp only [ha, hentry]

/-- A file that was written is found under the path to which it was written. -/
theorem locate_put (h : fs.writableRoute path = .ok r) (bytes : List UInt8) (tree : Tree) :
    (fs.put r (.file bytes tree)).locate path = .ok (.file bytes tree) :=
  locate_of_writable ((sameWays_put h bytes tree).writableRoute h) (at_put h _)

end FileTree

end ComponentSurvey
