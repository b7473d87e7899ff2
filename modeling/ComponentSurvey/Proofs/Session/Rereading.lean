import ComponentSurvey.Proofs.Session.Forgetful

/-!
Sessions that read what the files hold. While no file changes, a report that is kept is the survey
of what its file holds, and failures are never kept; so whatever is forgotten before a file is
looked at, in turn or by several workers, the file gives the same.
-/

set_option autoImplicit false

namespace ComponentSurvey

def FileTree.Holds (fs : FileTree) : Holding := fun k bytes tree => fs.read k = .ok (bytes, tree)

theorem FileTree.within_holds (fs : FileTree) : fs.Within fs.Holds := fun _ _ _ h => h

def FileTree.surveyAt (fs : FileTree) (table : Weights) (path : String) : Except Failure Survey :=
  match fs.resolve path with
  | .error f => .error f
  | .ok k => fs.survey table k

namespace Session

variable {fs : FileTree} {table : Weights} {excluded : Option (List String)} {s t : Session}
  {k : Route} {r : Report} {path : String}

theorem Faithful.survey_of_lookup (h : s.Faithful table fs.Holds)
    (hl : s.cache.lookup k = some r) : fs.survey table k = .ok r.survey := by
  obtain ⟨bytes, tree, hr, hv⟩ := h.isSurvey k r (mem_of_lookup hl)
  have hr : fs.read k = .ok (bytes, tree) := hr
  rw [FileTree.survey, hr]
  exact hv

theorem Faithful.known_eq (h : s.Faithful table fs.Holds) (k : Route) :
    s.known fs k = fs.survey table k := by
  cases hl : s.cache.lookup k with
  | some r => rw [known_of_lookup hl, h.survey_of_lookup hl]
  | none => rw [known_of_new hl, h.weights_eq]

theorem Faithful.alone_eq (h : s.Faithful table fs.Holds) (path : String) :
    s.alone fs path = fs.surveyAt table path := by
  unfold FileTree.surveyAt
  cases hk : fs.resolve path with
  | error f => exact alone_refused hk
  | ok k => rw [alone_resolved hk, h.known_eq]

/-- A session with this table and these exclusions that keeps nothing but surveys of what the files
hold. -/
structure Reads (fs : FileTree) (table : Weights) (excluded : Option (List String)) (s : Session) :
    Prop where
  faithful : s.Faithful table fs.Holds
  excluded_eq : s.excluded = excluded

theorem Reads.clear (h : s.Reads fs table excluded) : s.clear.Reads fs table excluded :=
  ⟨h.faithful.clear _, h.excluded_eq⟩

theorem excluded_analyzeFile (fs : FileTree) (path : String) (s : Session) :
    (s.analyzeFile fs path).2.excluded = s.excluded := by
  cases hk : fs.resolve path with
  | error f => rw [analyzeFile_refused hk]
  | ok k =>
    cases hl : s.cache.lookup k with
    | some r => rw [analyzeFile_kept hk hl]
    | none =>
      cases hv : fs.survey s.weights k with
      | error f =>
        rw [analyzeFile_failed hk hl hv]
        rfl
      | ok v =>
        rw [analyzeFile_new hk hl hv]
        rfl

theorem excluded_noteOutcome (s : Session) (o : FileOutcome) :
    (s.noteOutcome o).excluded = s.excluded := by
  unfold Session.noteOutcome
  split
  · rfl
  · split <;> rfl

theorem Reads.analyzeFile (h : s.Reads fs table excluded) (path : String) :
    (s.analyzeFile fs path).1.map (·.survey) = fs.surveyAt table path ∧
      (s.analyzeFile fs path).2.Reads fs table excluded :=
  ⟨h.faithful.alone_eq path, h.faithful.analyzeFile fs.within_holds path,
    (excluded_analyzeFile fs path s).trans h.excluded_eq⟩

theorem Reads.noteOutcome (h : s.Reads fs table excluded) (o : FileOutcome) :
    (s.noteOutcome o).Reads fs table excluded :=
  ⟨h.faithful.noteOutcome o, (excluded_noteOutcome s o).trans h.excluded_eq⟩

theorem Reads.tryFile (h : s.Reads fs table excluded) (p : Route) :
    (s.tryFile fs p).1.told = (p, fs.surveyAt table p.text) ∧
      (s.tryFile fs p).2.Reads fs table excluded := by
  obtain ⟨hv, hr⟩ := h.analyzeFile p.text
  have hn := hr.noteOutcome ⟨p, (s.analyzeFile fs p.text).1⟩
  simp only [tryFile_eq, FileOutcome.told, hv]
  exact ⟨trivial, hn⟩

structure Match {α β : Type} (view : α → β) (fs : FileTree) (table : Weights)
    (excluded : Option (List String)) (a b : α × Session) : Prop where
  view_eq : view a.1 = view b.1
  left : a.2.Reads fs table excluded
  right : b.2.Reads fs table excluded

theorem Reads.analyzeFileAnew (hs : s.Reads fs table excluded) (ht : t.Reads fs table excluded)
    (path : String) :
    Match (Except.map (·.survey)) fs table excluded (s.analyzeFile fs path)
      (t.clear.analyzeFile fs path) := by
  obtain ⟨hv, hs'⟩ := hs.analyzeFile path
  obtain ⟨hv', ht'⟩ := ht.clear.analyzeFile path
  rw [← hv'] at hv
  exact ⟨hv, hs', ht'⟩

theorem Reads.tryFilesAnew (files : List Route) {s t : Session} (hs : s.Reads fs table excluded)
    (ht : t.Reads fs table excluded) :
    Match (List.map FileOutcome.told) fs table excluded (s.tryFiles fs files)
      (t.tryFilesAnew fs files) := by
  induction files generalizing s t with
  | nil => exact ⟨rfl, hs, ht⟩
  | cons p files ih =>
    obtain ⟨hv, hs'⟩ := hs.tryFile p
    obtain ⟨hv', ht'⟩ := ht.clear.tryFile p
    cases hr : s.tryFile fs p with
    | mk o after =>
      cases hr' : t.clear.tryFile fs p with
      | mk o' after' =>
        rw [hr] at hv hs'
        rw [hr'] at hv' ht'
        have ho : o.told = o'.told := hv.trans hv'.symm
        have hi := ih hs' ht'
        cases hd : o.fatal? with
        | some f =>
          have hd' : o'.fatal? = some f := by rw [← FileOutcome.fatal?_congr ho, hd]
          rw [tryFiles_fatal hr hd]
          simp only [Session.tryFilesAnew, hr', hd', Option.isSome_some, if_true]
          exact ⟨by simp [ho], hs', ht'⟩
        | none =>
          have hd' : o'.fatal? = none := by rw [← FileOutcome.fatal?_congr ho, hd]
          rw [tryFiles_more hr hd]
          simp only [Session.tryFilesAnew, hr', hd', Option.isSome_none, Bool.false_eq_true,
            if_false]
          exact ⟨by simp [ho, hi.view_eq], hi.left, hi.right⟩

theorem Match.streamFrom {o o' : FileOutcome}
    {rest rest' : Option Nat → Session → Stream × Session}
    (ho : o.told = o'.told) (hs : s.Reads fs table excluded) (ht : t.Reads fs table excluded)
    (h : ∀ limit, Match Stream.told fs table excluded (rest limit s) (rest' limit t))
    (limit : Option Nat) (p : Route) :
    Match Stream.told fs table excluded (Session.streamFrom limit p rest (o, s))
      (Session.streamFrom limit p rest' (o', t)) := by
  obtain ⟨q, result⟩ := o
  obtain ⟨q', result'⟩ := o'
  obtain ⟨-, hv⟩ := Prod.mk.inj ho
  have hm (limit : Option Nat) := Prod.mk.inj (h limit).view_eq
  simp only [Prod.mk.injEq] at hm
  cases result with
  | error f =>
    cases result' with
    | ok r' => cases hv
    | error f' =>
      obtain rfl : f = f' := Except.error.inj hv
      by_cases hf : f.isExpected
      · simp only [Session.streamFrom, hf, if_true]
        exact ⟨by simpa [Stream.told, Stream.surveys] using hm limit, (h limit).left,
          (h limit).right⟩
      · simp only [Session.streamFrom, hf]
        exact ⟨rfl, hs, ht⟩
  | ok r =>
    cases result' with
    | error f' => cases hv
    | ok r' =>
      have hr : r.survey = r'.survey := Except.ok.inj hv
      have more (limit : Option Nat) : Match Stream.told fs table excluded
          ({ (rest limit s).1 with yields := ⟨r, s.cache.length⟩ :: (rest limit s).1.yields },
            (rest limit s).2)
          ({ (rest' limit t).1 with yields := ⟨r', t.cache.length⟩ :: (rest' limit t).1.yields },
            (rest' limit t).2) :=
        ⟨by simpa [Stream.told, Stream.surveys, hr] using hm limit, (h limit).left,
          (h limit).right⟩
      obtain _ | _ | _ | n := limit
      · exact more none
      · exact ⟨by simp [Session.streamFrom, Stream.told, Stream.surveys, hr], hs, ht⟩
      · exact ⟨by simp [Session.streamFrom, Stream.told, Stream.surveys, hr], hs, ht⟩
      · exact more (some (n + 1))

theorem Reads.streamAnew (files : List Route) {s t : Session} (hs : s.Reads fs table excluded)
    (ht : t.Reads fs table excluded) (limit : Option Nat) :
    Match Stream.told fs table excluded (s.stream fs limit files)
      (t.streamAnew fs limit files) := by
  induction files generalizing s t limit with
  | nil => exact ⟨rfl, hs, ht⟩
  | cons p files ih =>
    obtain ⟨hv, hs'⟩ := hs.tryFile p
    obtain ⟨hv', ht'⟩ := ht.clear.tryFile p
    rw [Session.stream, Session.streamAnew]
    cases hr : s.tryFile fs p with
    | mk o after =>
      cases hr' : t.clear.tryFile fs p with
      | mk o' after' =>
        rw [hr] at hv hs'
        rw [hr'] at hv' ht'
        exact Match.streamFrom (hv.trans hv'.symm) hs' ht' (ih hs' ht') limit p

end Session

theorem Report.isSurvey_of_survey {fs : FileTree} {table : Weights} {k : Route} {r : Report}
    (h : fs.survey table k = .ok r.survey) : r.IsSurvey table fs.Holds k := by
  unfold FileTree.survey at h
  split at h
  · cases h
  next bytes tree hr => exact ⟨bytes, tree, hr, h⟩

namespace Request

/-- What is right about a request in each of its stages while no file changes, whatever is forgotten
meanwhile. -/
def Tells (fs : FileTree) (table : Weights) (q : Request) : Prop :=
  match q.stage with
  | .asked => True
  | .unknown k => fs.resolve q.path = .ok k
  | .made k r => fs.resolve q.path = .ok k ∧ fs.survey table k = .ok r.survey
  | .done result => result.map (·.survey) = fs.surveyAt table q.path

variable {fs : FileTree} {table : Weights} {excluded : Option (List String)} {s : Session}
  {q : Request}

theorem Tells.result (h : q.Tells fs table) {result : Except Failure Report}
    (hr : q.result? = some result) : result.map (·.survey) = fs.surveyAt table q.path := by
  obtain ⟨path, stage⟩ := q
  cases stage with
  | done answer =>
    cases hr
    exact h
  | _ => cases hr

theorem Tells.proceed (h : q.Tells fs table) (hs : s.Reads fs table excluded) :
    (q.proceed fs s).1.Tells fs table ∧ (q.proceed fs s).2.Reads fs table excluded := by
  have hw := hs.faithful.weights_eq
  obtain ⟨path, stage⟩ := q
  cases stage with
  | asked =>
    cases hk : fs.resolve path with
    | error f =>
      simp only [Request.proceed, Session.ask_refused hk]
      exact ⟨by simp [Tells, FileTree.surveyAt, hk, Except.map], hs⟩
    | ok k =>
      cases hl : s.cache.lookup k with
      | some r =>
        simp only [Request.proceed, Session.ask_kept hk hl]
        have hr := hs.faithful.survey_of_lookup hl
        exact ⟨by simp [Tells, FileTree.surveyAt, hk, hr, Except.map], hs⟩
      | none =>
        simp only [Request.proceed, Session.ask_unknown hk hl]
        exact ⟨hk, hs.faithful.congr rfl rfl, hs.excluded_eq⟩
  | unknown k =>
    have hk : fs.resolve path = .ok k := h
    cases hv : fs.survey table k with
    | error f =>
      simp only [Request.proceed, Session.make_failed (hw ▸ hv)]
      exact ⟨by simp [Tells, FileTree.surveyAt, hk, hv, Except.map], hs⟩
    | ok v =>
      simp only [Request.proceed, Session.make_new (hw ▸ hv)]
      exact ⟨⟨hk, hv⟩, hs.faithful.congr rfl rfl, hs.excluded_eq⟩
  | made k r =>
    obtain ⟨hk, hv⟩ : fs.resolve path = .ok k ∧ fs.survey table k = .ok r.survey := h
    rw [proceed_made]
    -- What is kept may be the report of another worker: it is a survey of the same file.
    have hf := hs.faithful.keep (Report.isSurvey_of_survey hv)
    have hl := hf.survey_of_lookup (Session.lookup_keep s k r)
    refine ⟨by simp [Tells, FileTree.surveyAt, hk, hl, Except.map], hf, ?_⟩
    cases hn : s.cache.lookup k with
    | some earlier => simpa [Session.keep_kept hn] using hs.excluded_eq
    | none => simpa [Session.keep_new hn] using hs.excluded_eq
  | done result => exact ⟨h, hs⟩

end Request

namespace Workshop

structure Tells (fs : FileTree) (table : Weights) (excluded : Option (List String))
    (paths : List Route) (w : Workshop) : Prop where
  files_eq : w.files = fs
  session : w.session.Reads fs table excluded
  paths_eq : w.requests.map (·.path) = paths.map (·.text)
  tells : ∀ q ∈ w.requests, q.Tells fs table

variable {fs : FileTree} {table : Weights} {excluded : Option (List String)} {paths : List Route}
  {w : Workshop}

theorem Tells.opened {s : Session} (h : s.Reads fs table excluded) :
    (Workshop.opened fs s paths).Tells fs table excluded paths := by
  refine ⟨rfl, h, by simp [Workshop.opened, Request.new], fun q hq => ?_⟩
  obtain ⟨p, -, rfl⟩ := List.mem_map.1 hq
  trivial

theorem Tells.proceed (h : w.Tells fs table excluded paths) (i : Nat) :
    (w.act (.proceed i)).Tells fs table excluded paths := by
  have hp := (paths_proceed w i).trans h.paths_eq
  have hf := (files_proceed w i).trans h.files_eq
  cases hi : w.requests[i]? with
  | none => rwa [act_proceed_none hi]
  | some q =>
    obtain ⟨hq, hs⟩ := (h.tells q (List.mem_of_getElem? hi)).proceed h.session
    rw [act_proceed_some hi] at hp hf ⊢
    rw [h.files_eq] at hp ⊢
    refine ⟨rfl, hs, hp, fun q' hq' => ?_⟩
    rcases List.mem_or_eq_of_mem_set hq' with hold | rfl
    · exact h.tells q' hold
    · exact hq

theorem Tells.actAnew (h : w.Tells fs table excluded paths) (i : Nat) :
    (w.actAnew i).Tells fs table excluded paths := by
  have hc : (w.act .clear).Tells fs table excluded paths :=
    ⟨h.files_eq, h.session.clear, h.paths_eq, h.tells⟩
  unfold Workshop.actAnew
  split
  · exact hc.proceed i
  · exact h.proceed i

theorem Tells.foldl {turn : Workshop → Nat → Workshop}
    (ht : ∀ w i, w.Tells fs table excluded paths → (turn w i).Tells fs table excluded paths)
    (h : w.Tells fs table excluded paths) (order : List Nat) :
    (order.foldl turn w).Tells fs table excluded paths := by
  induction order generalizing w with
  | nil => exact h
  | cons i order ih => exact ih (ht w i h)

theorem advances_actAnew : Advances actAnew where
  length_eq w i := by
    unfold actAnew
    split
    · exact advances_act.length_eq (w.act .clear) i
    · exact advances_act.length_eq w i
  stepsLeft w i j q hj := by
    unfold actAnew
    split
    · exact advances_act.stepsLeft (w.act .clear) i j q hj
    · exact advances_act.stepsLeft w i j q hj

/-- When every request has come to its end, the outcomes tell what the files give. -/
theorem Tells.told_outcomes (h : w.Tells fs table excluded paths) (hd : w.Finished) :
    (w.outcomes paths).map FileOutcome.told =
      paths.map fun p => (p, fs.surveyAt table p.text) := by
  have ho : ∀ o ∈ w.outcomes paths, o.told = (o.path, fs.surveyAt table o.path.text) := by
    intro o ho
    obtain ⟨⟨p, q⟩, hm, hq⟩ := List.mem_filterMap.1 ho
    obtain ⟨hmem, hpath⟩ := request_of_mem_zip h.paths_eq hm
    obtain ⟨result, hr, rfl⟩ := Option.map_eq_some_iff.1 hq
    rw [FileOutcome.told, (h.tells q hmem).result hr, hpath]
  have hp : (w.outcomes paths).map (·.path) = paths := paths_zip_requests h.paths_eq hd
  calc (w.outcomes paths).map FileOutcome.told
      = (w.outcomes paths).map fun o => (o.path, fs.surveyAt table o.path.text) :=
        List.map_congr_left ho
    _ = ((w.outcomes paths).map (·.path)).map fun p => (p, fs.surveyAt table p.text) := by
        rw [List.map_map]
        rfl
    _ = paths.map fun p => (p, fs.surveyAt table p.text) := congrArg _ hp

end Workshop

namespace Session

variable {fs : FileTree} {table : Weights} {excluded : Option (List String)} {s t : Session}
  {files : List Route} {order : List Nat}

theorem Reads.foldl_noteOutcome (h : s.Reads fs table excluded) (os : List FileOutcome) :
    (os.foldl Session.noteOutcome s).Reads fs table excluded := by
  induction os generalizing s with
  | nil => exact h
  | cons o os ih => exact ih (h.noteOutcome o)

theorem Reads.tryFilesByAnew (hs : s.Reads fs table excluded) (ht : t.Reads fs table excluded)
    (hc : ∀ i < files.length, 3 ≤ order.count i) :
    Match (List.map FileOutcome.told) fs table excluded
      (s.tryFilesBy (order.map .proceed) fs files) (t.tryFilesByAnew order fs files) := by
  have hlen (u : Session) : (Workshop.opened fs u files).requests.length = files.length := by
    simp [Workshop.opened]
  have hs' : ((Workshop.opened fs s files).run (order.map .proceed)).Tells fs table excluded
      files := by
    rw [Workshop.run, List.foldl_map]
    exact .foldl (fun w i h => h.proceed i) (.opened hs) order
  have ht' : ((Workshop.opened fs t files).runAnew order).Tells fs table excluded files :=
    .foldl (fun w i h => h.actAnew i) (.opened ht) order
  have hd : ((Workshop.opened fs s files).run (order.map .proceed)).Finished :=
    Workshop.finished_run (by rwa [hlen])
  have hd' : ((Workshop.opened fs t files).runAnew order).Finished :=
    Workshop.advances_actAnew.finished (by rwa [hlen])
  exact ⟨(hs'.told_outcomes hd).trans (ht'.told_outcomes hd').symm,
    hs'.session.foldl_noteOutcome _, ht'.session.foldl_noteOutcome _⟩

end Session

end ComponentSurvey
