import ComponentSurvey.FileTree.Resolved
import ComponentSurvey.Proofs.FileTree.Following

/-!
Paths that go straight: through no link and not back. Such a path is its own resolution.
-/

set_option autoImplicit false

namespace ComponentSurvey

namespace Route

variable {p q : Route}

theorem isAbsolute_body (h : ∀ name ∈ p, Path.IsName name) :
    Path.isAbsolute (String.intercalate "/" p) = false :=
  Path.isAbsolute_intercalate fun name hm => (h name hm).toIsPart

theorem leadingSlashes_text (h : ∀ name ∈ p, Path.IsName name) :
    Path.leadingSlashes p.text = "/" := by
  rw [text_eq fun name hm => (h name hm).ne_empty, Path.leadingSlashes_slash (isAbsolute_body h)]

theorem pieces_text (h : ∀ name ∈ p, Path.IsName name) (hp : p ≠ []) :
    Path.pieces p.text = "" :: p := by
  rw [text_eq fun name hm => (h name hm).ne_empty, Path.pieces_slash,
    Path.pieces_intercalate hp fun name hm => (h name hm).toIsPart]

theorem parts_text (h : ∀ name ∈ p, Path.IsName name) : Path.parts p.text = p := by
  cases p with
  | nil => rfl
  | cons name p =>
    have hm : (name :: p).filter Path.isMeaningful = name :: p :=
      List.filter_eq_self.2 fun name hm => (h name hm).isMeaningful
    rw [Path.parts, pieces_text h (List.cons_ne_nil name p), List.filter_cons_of_neg (by decide), hm]

theorem text_inj (hp : ∀ name ∈ p, Path.IsName name) (hq : ∀ name ∈ q, Path.IsName name)
    (h : p.text = q.text) : p = q := by
  rw [← parts_text hp, h, parts_text hq]

theorem display_text (h : ∀ name ∈ p, Path.IsName name) : Path.display p.text = p.text := by
  have ht := text_eq fun name hm => (h name hm).ne_empty
  have hne : ("/" ++ String.intercalate "/" p == "") = false := by simp
  simp only [Path.display, leadingSlashes_text h, parts_text h, hne, Bool.false_eq_true, if_false]
  exact ht.symm

theorem isAbsolute_text (h : ∀ name ∈ p, Path.IsName name) : Path.isAbsolute p.text = true := by
  rw [text_eq fun name hm => (h name hm).ne_empty, Path.isAbsolute_append (by decide)]
  rfl

end Route

namespace FileTree

variable {fs : FileTree} {p : Route}

theorem routeOf_text (h : ∀ name ∈ p, Path.IsName name) (current : Route) :
    routeOf current p.text = p := by
  have habove : ".." ∉ p := fun hm => (h ".." hm).ne_above rfl
  have h2 : ("/" == "//") = false := by decide
  simp only [routeOf, Route.leadingSlashes_text h, h2, Bool.false_eq_true, if_false,
    Route.isAbsolute_text h, if_true, Route.parts_text h, List.nil_append, normalized_eq habove]

/-- A path of proper names with no link on the way and none at its end. -/
structure IsDirect (fs : FileTree) (p : Route) : Prop where
  isName : ∀ name ∈ p, Path.IsName name
  noLink : ∀ way, way <+: p → ∀ target, fs.entry? way ≠ some (.link target)

theorem linkTarget?_of_no_link {q : LinkFree}
    (h : ∀ target, fs.entry? (q.route fs.current) ≠ some (.link target)) :
    fs.linkTarget? q = none := by
  unfold linkTarget?
  split
  next target he => exact absurd he (h target)
  · rfl

/-- Induction on the part of the path that is left: the part that is done stays as it is. -/
theorem resolvePieces_direct {done rest : Route} (h : fs.IsDirect (done ++ rest))
    (intoLink : Replaced → LinkFree → String → Except Failure (Resolution × Replaced))
    (replaced : Replaced) :
    fs.resolvePieces intoLink replaced ⟨true, done.reverse⟩ rest =
      .ok (.free ⟨true, (done ++ rest).reverse⟩, replaced) := by
  induction rest generalizing done with
  | nil => rw [resolvePieces, List.append_nil]
  | cons name rest ih =>
    have he : done ++ name :: rest = done ++ [name] ++ rest := by simp
    rw [he] at h
    have hn := h.isName name (by simp)
    have hway : ".." ∉ (done ++ [name]).reverse := fun hm =>
      (h.isName ".." (List.mem_append_left rest (List.mem_reverse.1 hm))).ne_above rfl
    have henter : LinkFree.enter ⟨true, done.reverse⟩ name = ⟨true, (done ++ [name]).reverse⟩ := by
      simp [LinkFree.enter]
    have hl : fs.linkTarget? (LinkFree.enter ⟨true, done.reverse⟩ name) = none := by
      refine linkTarget?_of_no_link fun target => ?_
      rw [henter, LinkFree.route_eq hway, List.reverse_reverse]
      exact h.noLink _ (List.prefix_append _ rest) target
    rw [resolvePieces_enter hn hl, henter, ih h, he]

theorem resolveFrom_direct (h : fs.IsDirect p) (depth : Nat) (replaced : Replaced)
    (directory : LinkFree) :
    fs.resolveFrom (depth + 1) replaced directory p.text =
      .ok (.free ⟨true, p.reverse⟩, replaced) := by
  rw [resolveFrom_absolute (Route.isAbsolute_text h.isName)]
  cases p with
  | nil => rfl
  | cons name p =>
    rw [Route.pieces_text h.isName (List.cons_ne_nil name p), resolvePieces_empty]
    exact @resolvePieces_direct fs [] (name :: p) h _ replaced

/-- Whatever else is in the way, it is not that too many links have been followed. -/
theorem advance_ne_tooManyLinks (s : Spot) (parts : List String) :
    advance s parts ≠ .failed .tooManyLinks := by
  induction parts generalizing s with
  | nil => simp [advance]
  | cons part parts ih =>
    unfold advance
    split
    · split_ifs
      · exact ih s
      · exact ih s.parent
      · simp
      · split
        · simp
        · simp
        · exact ih _
    · simp

theorem advance_direct {s : Spot} {parts : List String} (hn : ∀ name ∈ parts, Path.IsName name)
    (h : ∀ way, way <+: parts → ∀ target, s.entry.at? way ≠ some (.link target)) (t : Spot)
    (target : String) (rest : List String) : advance s parts ≠ .linked t target rest := by
  induction parts generalizing s with
  | nil => simp [advance]
  | cons name parts ih =>
    obtain ⟨hname, hnames⟩ := List.forall_mem_cons.1 hn
    unfold advance
    split
    next children hs =>
      have hat (e : Entry) (hl : children.lookup name = some e) (way : Route) :
          s.entry.at? (name :: way) = e.at? way := by
        simp [Entry.at?, Entry.child?, hs, Entry.children, hl]
      simp only [beq_iff_eq, hname.ne_here, hname.ne_above, if_false]
      split_ifs
      · simp
      · split
        · simp
        next l hl =>
          exact absurd (hat _ hl []) (h [name] (List.prefix_append [name] parts) l)
        next e _ hl =>
          refine ih hnames fun way hw l hl' => ?_
          exact h (name :: way) (List.cons_prefix_cons.2 ⟨rfl, hw⟩) l ((hat e hl way).trans hl')
    · simp

theorem locateRoute_direct (h : fs.IsDirect p) : fs.locateRoute p ≠ .error .tooManyLinks := by
  have hf : p.filter (· != "") = p :=
    List.filter_eq_self.2 fun name hm => by simpa using (h.isName name hm).ne_empty
  have hl := @advance_direct fs.topSpot p h.isName h.noLink
  have ht := advance_ne_tooManyLinks fs.topSpot p
  have hfollow : fs.follow mostLinks fs.topSpot p ≠ .error .tooManyLinks := by
    unfold follow
    split
    · simp
    next fault he =>
      rintro ⟨⟩
      exact ht he
    next he => exact absurd he (hl _ _ _)
  rw [locateRoute, hf]
  unfold admitted
  split_ifs
  · simp
  · simp
  · dsimp only
    split
    next fault he =>
      rintro ⟨⟩
      exact hfollow he
    · simp

theorem resolve_direct (h : fs.IsDirect p) : fs.resolve p.text = .ok p := by
  have hr := resolveFrom_direct h 999 [] .here
  have htext : LinkFree.text ⟨true, p.reverse⟩ = p.text := by
    simp [LinkFree.text, Route.text_eq fun name hm => (h.isName name hm).ne_empty]
  have hnull : p.any Path.hasNull = false :=
    List.any_eq_false.2 fun name hm => by simp [(h.isName name hm).hasNull]
  -- This rules out the loop, which is told by the links that following the path would need.
  have hl := locateRoute_direct h
  simp only [resolve, Route.display_text h.isName, deepestLink, hr, htext, routeOf_text h.isName,
    hnull, Bool.false_eq_true, if_false]

end FileTree

end ComponentSurvey
