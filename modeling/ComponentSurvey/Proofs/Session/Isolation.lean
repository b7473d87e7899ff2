import ComponentSurvey.Proofs.FileTree.Detour
import ComponentSurvey.Proofs.Session.Workers
import Mathlib.Data.List.Nodup

/-!
A file that fails affects no other file of its batch, and it makes no difference how many workers do
the batch or in which order they take their steps. Only a file whose path cannot be resolved is not
among the files that may fail: it ends the batch.
-/

set_option autoImplicit false

namespace ComponentSurvey

namespace Session

variable {fs : FileTree} {files : List Route} {s now now' : Session} {directory : String}
  {patterns : Option (List String)} {order : List Nat} {added added' : List (Route × Report)}

theorem analyzeDirectoryBy_refused {f : Failure} (h : s.found fs directory patterns = .error f)
    (order : List Nat) : s.analyzeDirectoryBy order fs directory patterns = (.error f, s) := by
  rw [analyzeDirectoryBy, find_refused h]

theorem analyzeDirectoryBy_found (h : s.found fs directory patterns = .ok files) :
    ∃ t, Alike s t ∧ ∀ order, s.analyzeDirectoryBy order fs directory patterns =
      (t.tryFilesBy (order.map .proceed) fs files).2.conclude
        (t.tryFilesBy (order.map .proceed) fs files).1 := by
  obtain ⟨t, hf, log, rfl⟩ := find_found h
  refine ⟨Session.write { s with log } .info .analysis
    ("Analyzing " ++ toString files.length ++ " files under " ++ directory), ⟨_, rfl⟩, ?_⟩
  intro order
  rw [analyzeDirectoryBy, hf]

theorem finishes_turns (s : Session) (fs : FileTree) (files : List Route) :
    s.Finishes (Workshop.turns files.length) fs files :=
  .of_count fun i hi => by simp [Workshop.count_turns, hi]

/-- Several workers are asked for, and their requests are served one after the other. -/
theorem analyzeDirectory_eq_analyzeDirectoryBy (h : s.found fs directory patterns = .ok files)
    {workers : Int} (hw : 1 < workers) : s.analyzeDirectory fs directory patterns workers =
      s.analyzeDirectoryBy (Workshop.turns files.length) fs directory patterns := by
  obtain ⟨t, hf, -⟩ := find_found h
  simp only [analyzeDirectory, analyzeDirectoryBy, hf, hw, if_true, Workshop.inTurn_eq]

theorem accounts_analyzeDirectoryBy (h : s.found fs directory patterns = .ok files)
    (hd : s.Finishes order fs files) :
    ∃ os now, Accounts fs files s now files os ∧
      s.analyzeDirectoryBy order fs directory patterns = now.conclude os := by
  obtain ⟨t, ha, he⟩ := analyzeDirectoryBy_found h
  exact ⟨_, _, (ha.grown fs files).tryFilesBy (ha.finishes hd), he order⟩

theorem accounts_analyzeDirectory (h : s.found fs directory patterns = .ok files) (workers : Int) :
    ∃ os now, Accounts fs files s now files os ∧
      s.analyzeDirectory fs directory patterns workers = now.conclude os := by
  by_cases hw : 1 < workers
  · rw [analyzeDirectory_eq_analyzeDirectoryBy h hw]
    exact accounts_analyzeDirectoryBy h (finishes_turns s fs files)
  · obtain ⟨t, ha, he⟩ := analyzeDirectory_found h
    exact ⟨_, _, ((ha.grown fs files).tryFiles fun p hp => hp).2, he workers (Int.not_lt.1 hw)⟩

/-- Workers go on when a file ends the batch: each file that does not fail is kept. -/
theorem lookup_analyzeDirectory (h : s.found fs directory patterns = .ok files) {workers : Int}
    (hw : 1 < workers) {p : Route} (hp : p ∈ files) {k : Route} (hk : fs.resolve p.text = .ok k)
    {v : Survey} (hv : s.alone fs p.text = .ok v) :
    ∃ r, (s.analyzeDirectory fs directory patterns workers).2.cache.lookup k = some r := by
  obtain ⟨t, ha, he⟩ := analyzeDirectoryBy_found h
  rw [analyzeDirectory_eq_analyzeDirectoryBy h hw, he, (conclude_session _ _).2]
  exact (ha.grown fs files).lookup_tryFilesBy (finishes_turns t fs files) hp hk hv

theorem analyzeDirectory_of_unresolved {before after : List Route} {p : Route} {f : Failure}
    (h : s.found fs directory patterns = .ok (before ++ p :: after))
    (hb : ∀ q ∈ before, ∃ v, s.alone fs q.text = .ok v) (hu : fs.resolve p.text = .error f)
    (workers : Int) : (s.analyzeDirectory fs directory patterns workers).1 = .error f := by
  have hn : before.findSome? (fs.unresolved? ·.text) = none := by
    refine List.findSome?_eq_none_iff.2 fun q hq => ?_
    obtain ⟨v, hv⟩ := hb q hq
    rw [← filter_failureOf?_alone fs s, hv]
    rfl
  obtain ⟨os, now, ha, hc⟩ := accounts_analyzeDirectory h workers
  rw [hc, ha.conclude_eq, List.findSome?_append, hn, List.findSome?_cons, FileTree.unresolved?, hu]
  rfl

/-- One worker does nothing more when the path of the first file cannot be resolved. -/
theorem cache_analyzeDirectory_of_unresolved {p : Route} {f : Failure}
    (h : s.found fs directory patterns = .ok (p :: files)) (hu : fs.resolve p.text = .error f) :
    (s.analyzeDirectory fs directory patterns 1).2.cache = s.cache := by
  obtain ⟨t, ha, he⟩ := analyzeDirectory_found h
  have hr := tryFile_eq fs p t
  rw [analyzeFile_refused hu] at hr
  have hf : FileOutcome.fatal? ⟨p, .error f⟩ = some f := by
    simp [FileOutcome.fatal?, FileTree.isExpected_of_resolve hu]
  rw [he 1 (Int.le_refl 1), (conclude_session _ _).2, tryFiles_fatal hr hf,
    (noteOutcome_session _ _).2, ha.cache_eq]

theorem Detour.found_project {patterns : List String} (hn : patterns ≠ [])
    (hp : ∀ pattern ∈ patterns, pattern = "a.ts" ∨ pattern = "b.ts")
    (hf : (patterns.map ([·])).eraseDups = files) (s : Session) :
    s.found Detour.project "/" (some patterns) = .ok files := by
  have ho : patternsOf (some patterns) = patterns := by
    cases patterns with
    | nil => exact absurd rfl hn
    | cons pattern patterns => rfl
  rw [found, ho, Detour.project, Detour.find_files _ _ _ hp, hf]
  rfl

theorem Detour.resolve_project_a :
    Detour.project.resolve (Route.text ["a.ts"]) = .error (.linkLoop Detour.sixteen.loop) := by
  have ht : Route.text ["a.ts"] = "/a.ts" := by decide
  rw [ht, Detour.project, Detour.resolve_a]

theorem Detour.resolve_project_b : Detour.project.resolve (Route.text ["b.ts"]) = .ok ["b.ts"] := by
  have ht : Route.text ["b.ts"] = "/b.ts" := by decide
  rw [ht, Detour.project, Detour.resolve_b]

theorem Detour.survey_b (table : Weights) : ∃ v, Detour.project.survey table ["b.ts"] = .ok v := by
  rw [FileTree.survey, FileTree.read, Detour.project, Detour.locate_b]
  exact ⟨_, rfl⟩

theorem Detour.alone_b (s : Session) (hs : s.cache = []) :
    ∃ v, s.alone Detour.project (Route.text ["b.ts"]) = .ok v := by
  have hl : s.cache.lookup ["b.ts"] = none := by rw [hs]; rfl
  rw [alone_resolved Detour.resolve_project_b, known_of_new hl]
  exact Detour.survey_b s.weights

/-- A batch fails as its search for files fails, and is then as if it had not been asked for. Else
each file found has one outcome, in the order of the files and in value what the file gives alone, and
there is one report more for each new key, of what the file under it gives. Only a file whose path
cannot be resolved ends the batch. -/
theorem analyzeDirectory_isolated (fs : FileTree) (directory : String)
    (patterns : Option (List String)) (workers : Int) (s : Session) :
    let batch := s.analyzeDirectory fs directory patterns workers
    match s.found fs directory patterns with
    | .error f => batch.1 = .error f ∧ batch.2.cache = s.cache
    | .ok files =>
      ∃ added, batch.2.cache = s.cache ++ added ∧ (added.map (·.1)).Nodup ∧
        (∀ k r, (k, r) ∈ added → fs.survey s.weights k = .ok r.survey) ∧
        match files.findSome? (fs.unresolved? ·.text) with
        | some f => batch.1 = .error f ∧ ∀ k ∈ added.map (·.1), s.NewKey fs files k
        | none =>
          (∀ k, k ∈ added.map (·.1) ↔ s.NewKey fs files k) ∧
          ∃ b, batch.1 = .ok b ∧
            b.results.map (·.survey) = files.filterMap (fun p => (s.alone fs p.text).toOption) ∧
            b.failures =
              files.filterMap fun p => (failureOf? (s.alone fs p.text)).map (p, ·) := by
  intro batch
  cases hd : s.found fs directory patterns with
  | error f =>
    have hb : batch = (.error f, s) := analyzeDirectory_refused hd workers
    simp [hb]
  | ok files =>
    obtain ⟨os, now, ha, hb⟩ := accounts_analyzeDirectory hd workers
    obtain ⟨added, hg⟩ := ha.grown
    have hc := ha.conclude_eq
    refine ⟨added, ?_, hg.keys_nodup, hg.isSurvey, ?_⟩
    · rw [← hg.cache_eq, ← (conclude_session os now).2, ← hb]
    · cases hn : files.findSome? (fs.unresolved? ·.text) with
      | some f =>
        rw [hn, ← hb] at hc
        exact ⟨hc, fun k hk => hg.newKey hk⟩
      | none =>
        rw [hn, ← hb] at hc
        exact ⟨ha.mem_keys_iff hn hg, _, hc, ha.surveys_eq hn, ha.failures_eq hn⟩

/-- A file that is found can end its batch, when its path has no resolution. -/
theorem analyzeDirectory_ended_by_detour :
    let s := Session.new [] none
    s.found Detour.project "/" (some ["a.ts"]) = .ok [["a.ts"]] ∧
      (s.analyzeDirectory Detour.project "/" (some ["a.ts"]) 1).1 =
        .error (.linkLoop Detour.sixteen.loop) := by
  intro s
  have hd : s.found Detour.project "/" (some ["a.ts"]) = .ok ([] ++ [["a.ts"]]) :=
    Detour.found_project (by decide) (by decide) (by decide) s
  exact ⟨hd, analyzeDirectory_of_unresolved hd (by simp) Detour.resolve_project_a 1⟩

theorem Grown.mem_surveys_iff (h : Grown fs files s added now) (k : Route) (v : Survey) :
    (k, v) ∈ added.map (fun e => (e.1, e.2.survey)) ↔
      k ∈ added.map (·.1) ∧ fs.survey s.weights k = .ok v := by
  constructor
  · intro hm
    obtain ⟨⟨k', r⟩, he, heq⟩ := List.mem_map.1 hm
    obtain ⟨rfl, rfl⟩ := Prod.mk.inj heq
    exact ⟨List.mem_map_of_mem he, h.isSurvey k' r he⟩
  · rintro ⟨hk, hv⟩
    obtain ⟨⟨k', r⟩, he, rfl⟩ := List.mem_map.1 hk
    obtain rfl : r.survey = v := Except.ok.inj ((h.isSurvey k' r he).symm.trans hv)
    exact List.mem_map_of_mem he

theorem Grown.nodup_surveys (h : Grown fs files s added now) :
    (added.map fun e => (e.1, e.2.survey)).Nodup := by
  refine List.Nodup.of_map Prod.fst ?_
  rw [List.map_map]
  exact h.keys_nodup

/-- Reports under the same keys are the same surveys, in whichever order they came to be kept. -/
theorem Grown.perm (h : Grown fs files s added now) (h' : Grown fs files s added' now')
    (hk : ∀ k, k ∈ added.map (·.1) ↔ k ∈ added'.map (·.1)) :
    (now.cache.map fun e => (e.1, e.2.survey)).Perm (now'.cache.map fun e => (e.1, e.2.survey)) := by
  rw [h.cache_eq, h'.cache_eq, List.map_append, List.map_append]
  refine List.Perm.append_left _ ((List.perm_ext_iff_of_nodup h.nodup_surveys h'.nodup_surveys).2 ?_)
  rintro ⟨k, v⟩
  rw [h.mem_surveys_iff, h'.mem_surveys_iff, hk]

/-- Workers who have come to their ends have done what one alone does file by file: the same results
and failures in the same order, and in the end the same surveys under the same keys. Each result is
the very report that is kept under its file's key, so that files with one key have one report. -/
theorem analyzeDirectoryBy_agrees (order : List Nat) (fs : FileTree) (directory : String)
    (patterns : Option (List String)) (s : Session)
    (h : ∀ files, s.found fs directory patterns = .ok files → s.Finishes order fs files) :
    let parallel := s.analyzeDirectoryBy order fs directory patterns
    let sequential := s.analyzeDirectory fs directory patterns 1
    match s.found fs directory patterns with
    | .error f => parallel = (.error f, s) ∧ sequential = (.error f, s)
    | .ok files =>
      match files.findSome? (fs.unresolved? ·.text) with
      | some f => parallel.1 = .error f ∧ sequential.1 = .error f
      | none =>
        ∃ b c, parallel.1 = .ok b ∧ sequential.1 = .ok c ∧
          b.results.map (·.survey) = c.results.map (·.survey) ∧ b.failures = c.failures ∧
          (parallel.2.cache.map fun e => (e.1, e.2.survey)).Perm
            (sequential.2.cache.map fun e => (e.1, e.2.survey)) ∧
          b.results = files.filterMap fun p => parallel.2.reportOf? fs p.text := by
  intro parallel sequential
  cases hd : s.found fs directory patterns with
  | error f => exact ⟨analyzeDirectoryBy_refused hd order, analyzeDirectory_refused hd 1⟩
  | ok files =>
    obtain ⟨os, now, ha, hb⟩ := accounts_analyzeDirectoryBy hd (h files hd)
    obtain ⟨os', now', ha', hb'⟩ := accounts_analyzeDirectory hd 1
    have hc := ha.conclude_eq
    have hc' := ha'.conclude_eq
    rw [← hb] at hc
    rw [← hb'] at hc'
    dsimp only
    cases hn : files.findSome? (fs.unresolved? ·.text) with
    | some f =>
      rw [hn] at hc hc'
      exact ⟨hc, hc'⟩
    | none =>
      rw [hn] at hc hc'
      obtain ⟨added, hg⟩ := ha.grown
      obtain ⟨added', hg'⟩ := ha'.grown
      have he : parallel.2.cache = now.cache := by
        rw [← (conclude_session os now).2, ← hb]
      have he' : sequential.2.cache = now'.cache := by
        rw [← (conclude_session os' now').2, ← hb']
      refine ⟨_, _, hc, hc', ?_, ?_, ?_, ?_⟩
      · rw [ha.surveys_eq hn, ha'.surveys_eq hn]
      · rw [ha.failures_eq hn, ha'.failures_eq hn]
      · rw [he, he']
        refine hg.perm hg' fun k => ?_
        rw [ha.mem_keys_iff hn hg, ha'.mem_keys_iff hn hg']
      · rw [ha.results_eq hn]
        simp only [reportOf?, he]

def twoNames : FileTree where
  children := [("x.ts", .file [] (.node ⟨"program", true, false, ⟨0, 0⟩, []⟩ [])),
    ("y.ts", .link "x.ts")]
  current := []

def filesOfTwoNames : List Route := [["x.ts"], ["y.ts"]]

theorem found_twoNames (s : Session) :
    s.found twoNames "/" (some ["x.ts", "y.ts"]) = .ok filesOfTwoNames := by
  have hd (excluded : List String) : Discovery.find twoNames "/" ["x.ts", "y.ts"] excluded =
      .ok ⟨[], filesOfTwoNames⟩ := by
    refine Discovery.find_top rfl (by decide) fun pattern hm => ?_
    simp only [List.mem_cons, List.not_mem_nil, or_false] at hm
    rcases hm with rfl | rfl
    · exact Discovery.matched_file (by decide) rfl rfl excluded
    · exact Discovery.matched_file (by decide) rfl rfl excluded
  exact congrArg _ (hd _)

/-- Both workers find that there is no report yet, and both survey the file. -/
theorem analyzeDirectoryBy_agrees_on_two_names :
    let s := Session.new [] none
    let order := [0, 1, 0, 1, 0, 1]
    let parallel := s.analyzeDirectoryBy order twoNames "/" (some ["x.ts", "y.ts"])
    let sequential := s.analyzeDirectory twoNames "/" (some ["x.ts", "y.ts"]) 1
    s.Finishes order twoNames filesOfTwoNames ∧
      ∃ b c, parallel.1 = .ok b ∧ sequential.1 = .ok c ∧
        b.results.map (·.survey) = c.results.map (·.survey) ∧ b.failures = c.failures ∧
        (parallel.2.cache.map fun e => (e.1, e.2.survey)).Perm
          (sequential.2.cache.map fun e => (e.1, e.2.survey)) ∧
        b.results = filesOfTwoNames.filterMap fun p => parallel.2.reportOf? twoNames p.text := by
  intro s order parallel sequential
  have hf := found_twoNames s
  have hd : s.Finishes order twoNames filesOfTwoNames := .of_count (by decide)
  have hn : filesOfTwoNames.findSome? (twoNames.unresolved? ·.text) = none := by decide +kernel
  have h := analyzeDirectoryBy_agrees order twoNames "/" (some ["x.ts", "y.ts"]) s
    fun files hfiles => Except.ok.inj (hf.symm.trans hfiles) ▸ hd
  simp only [hf, hn] at h
  exact ⟨hd, h⟩

/-- Behind a file that ends its batch, workers go on where one alone stops. -/
theorem workers_go_on_behind_detour :
    let s := Session.new [] none
    (s.analyzeDirectory Detour.project "/" (some ["a.ts", "b.ts"]) 1).2.cache.map (·.1) ≠
      (s.analyzeDirectory Detour.project "/" (some ["a.ts", "b.ts"]) 2).2.cache.map (·.1) := by
  intro s
  have hd : s.found Detour.project "/" (some ["a.ts", "b.ts"]) = .ok [["a.ts"], ["b.ts"]] :=
    Detour.found_project (by decide) (by decide) (by decide) s
  have hone := cache_analyzeDirectory_of_unresolved hd Detour.resolve_project_a
  obtain ⟨v, hv⟩ := Detour.alone_b s rfl
  obtain ⟨r, hr⟩ := lookup_analyzeDirectory hd (by decide : (1 : Int) < 2) (by decide)
    Detour.resolve_project_b hv
  have hmem := List.mem_map_of_mem (f := (·.1)) (mem_of_lookup hr)
  intro he
  rw [← he, hone] at hmem
  exact absurd hmem (List.not_mem_nil)

end Session

end ComponentSurvey
