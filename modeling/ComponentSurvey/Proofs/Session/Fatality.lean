import ComponentSurvey.Session.Batch

/-!
Which failures end a batch. A file whose path cannot be resolved fails in a way that is not to be
expected of a file; any other failure of a file, when it is read or surveyed, is an expected one.
-/

set_option autoImplicit false

namespace ComponentSurvey

def failureOf? {α : Type} : Except Failure α → Option Failure
  | .ok _ => none
  | .error f => some f

theorem Language.isExpected_of_ofPath {path : String} {f : Failure}
    (h : Language.ofPath path = .error f) : f.isExpected = true := by
  unfold Language.ofPath Language.ofSuffix at h
  split at h
  · cases h
  · exact (Except.error.inj h) ▸ rfl

/-- A source is refused for its suffix or for a syntax error. -/
theorem Survey.isExpected_of_ofSource {table : Weights} {path : String} {source : Source} {t : Tree}
    {f : Failure} (h : Survey.ofSource table path source t = .error f) : f.isExpected = true := by
  rw [Survey.ofSource, Survey.checkedTree_eq] at h
  cases hl : Language.ofPath path with
  | error e =>
    simp only [hl, Except.bind, Except.map, Except.error.injEq] at h
    exact h ▸ Language.isExpected_of_ofPath hl
  | ok l =>
    cases hb : t.firstBroken? with
    | none => simp [hl, hb, Except.bind, Except.map] at h
    | some b =>
      simp only [hl, hb, Except.bind, Except.map, Option.map_some, Option.getD_some,
        Except.error.injEq] at h
      exact h ▸ rfl

namespace FileTree

variable {fs : FileTree}

theorem error_of_resolvePieces
    {intoLink : Replaced → LinkFree → String → Except Failure (Resolution × Replaced)}
    (hi : ∀ replaced p target f, intoLink replaced p target = .error f → f = .nullCharacter)
    {replaced : Replaced} {p : LinkFree} {pieces : List String} {f : Failure}
    (h : fs.resolvePieces intoLink replaced p pieces = .error f) : f = .nullCharacter := by
  induction pieces generalizing replaced p with
  | nil => cases h
  | cons piece rest ih =>
    simp only [resolvePieces] at h
    split at h
    · exact ih h
    split at h
    · exact ih h
    split at h
    · cases h; rfl
    split at h
    · exact ih h
    split at h
    · exact ih h
    · cases h
    · rename_i target _ _ _
      cases hr : intoLink (((p.enter piece).text, none) :: replaced) p target with
      | error e =>
        rw [hr] at h
        cases h
        exact hi _ _ _ _ hr
      | ok result =>
        obtain ⟨resolution, after⟩ := result
        rw [hr] at h
        cases resolution with
        | free q => exact ih h
        | looped path => cases h

theorem error_of_resolveFrom {depth : Nat} {replaced : Replaced} {p : LinkFree} {path : String}
    {f : Failure} (h : fs.resolveFrom depth replaced p path = .error f) : f = .nullCharacter := by
  induction depth generalizing replaced p path f with
  | zero => cases h
  | succ depth ih => exact error_of_resolvePieces (fun _ _ _ _ he => ih he) h

/-- A path is refused for a null character or for a loop of links. -/
theorem error_of_resolve {path : String} {f : Failure} (h : fs.resolve path = .error f) :
    f = .nullCharacter ∨ ∃ r : Route, f = .linkLoop r.text := by
  unfold resolve at h
  cases hr : fs.resolveFrom deepestLink [] .here (Path.display path) with
  | error e =>
    simp only [hr, Except.error.injEq] at h
    exact .inl (h ▸ error_of_resolveFrom hr)
  | ok result =>
    simp only [hr] at h
    generalize routeOf fs.current _ = r at h
    cases hn : r.any Path.hasNull with
    | true =>
      simp only [hn, if_true, Except.error.injEq] at h
      exact .inl h.symm
    | false =>
      simp only [hn, Bool.false_eq_true, if_false] at h
      split at h
      · exact .inr ⟨r, (Except.error.inj h).symm⟩
      · cases h

theorem isExpected_of_resolve {path : String} {f : Failure} (h : fs.resolve path = .error f) :
    f.isExpected = false := by
  rcases error_of_resolve h with rfl | ⟨r, rfl⟩ <;> rfl

theorem isExpected_of_read {k : Route} {f : Failure} (h : fs.read k = .error f) :
    f.isExpected = true := by
  unfold read at h
  split at h <;> first | cases h; rfl | cases h

theorem isExpected_of_survey {table : Weights} {k : Route} {f : Failure}
    (h : fs.survey table k = .error f) : f.isExpected = true := by
  unfold survey at h
  cases hr : fs.read k with
  | error e =>
    simp only [hr, Except.error.injEq] at h
    exact h ▸ isExpected_of_read hr
  | ok content =>
    simp only [hr] at h
    exact Survey.isExpected_of_ofSource h

def unresolved? (fs : FileTree) (path : String) : Option Failure := failureOf? (fs.resolve path)

end FileTree

end ComponentSurvey
