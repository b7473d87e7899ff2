import ComponentSurvey.Proofs.Session.Fatality
import ComponentSurvey.Proofs.Session.Memory

/-!
What analyzing files does to a session while the files stay as they are. The session keeps what it
kept, and behind it one report for every new key, so that each file goes on giving what it gave.
-/

set_option autoImplicit false

namespace ComponentSurvey

namespace Session

def known (fs : FileTree) (s : Session) (key : Route) : Except Failure Survey :=
  match s.cache.lookup key with
  | some report => .ok report.survey
  | none => fs.survey s.weights key

/-- What a file gives when no other is asked for. -/
def alone (fs : FileTree) (s : Session) (path : String) : Except Failure Survey :=
  (s.analyzeFile fs path).1.map (·.survey)

def reportOf? (fs : FileTree) (s : Session) (path : String) : Option Report :=
  (fs.resolve path).toOption.bind fun key => s.cache.lookup key

/-- The session `now` has come from `s` by files at some of the paths being analyzed. -/
structure Grown (fs : FileTree) (paths : List Route) (s : Session) (added : List (Route × Report))
    (now : Session) : Prop where
  weights_eq : now.weights = s.weights
  cache_eq : now.cache = s.cache ++ added
  keys_nodup : (added.map (·.1)).Nodup
  isNew : ∀ k r, (k, r) ∈ added → s.cache.lookup k = none
  isSurvey : ∀ k r, (k, r) ∈ added → fs.survey s.weights k = .ok r.survey
  isLedTo : ∀ k r, (k, r) ∈ added → ∃ p ∈ paths, fs.resolve p.text = .ok k

/-- An answer about a path: in value what the path gives alone, and the very report that is kept. -/
structure Settles (fs : FileTree) (s now : Session) (path : String)
    (result : Except Failure Report) : Prop where
  value : result.map (·.survey) = s.alone fs path
  kept : ∀ r, result = .ok r → now.reportOf? fs path = some r

def Alike (s t : Session) : Prop := ∃ log, t = { s with log }

variable {fs : FileTree} {paths : List Route} {s t now later : Session}
  {added : List (Route × Report)} {path : String} {k : Route} {r : Report} {f : Failure}

theorem ask_refused (h : fs.resolve path = .error f) : s.ask fs path = (.refused f, s) := by
  simp [ask, h]

theorem ask_kept (hk : fs.resolve path = .ok k) (hl : s.cache.lookup k = some r) :
    s.ask fs path = (.kept r, s) := by
  simp [ask, hk, hl]

theorem ask_unknown (hk : fs.resolve path = .ok k) (hl : s.cache.lookup k = none) :
    s.ask fs path = (.unknown k, s.write .debug .analysis ("Analyzing " ++ k.text)) := by
  simp [ask, hk, hl]

theorem make_failed (hv : fs.survey s.weights k = .error f) : s.make fs k = (.error f, s) := by
  simp [make, hv]

theorem make_new {v : Survey} (hv : fs.survey s.weights k = .ok v) :
    s.make fs k = (.ok ⟨s.nextSerial, v⟩, { s with nextSerial := s.nextSerial + 1 }) := by
  simp [make, hv]

theorem keep_kept {earlier : Report} (hl : s.cache.lookup k = some earlier) :
    s.keep k r = (earlier, s) := by
  simp [Session.keep, hl]

theorem keep_new (hl : s.cache.lookup k = none) :
    s.keep k r = (r, { s with cache := s.cache ++ [(k, r)] }) := by
  simp [Session.keep, hl]

theorem Alike.ask (h : Alike s t) (fs : FileTree) (path : String) :
    ∃ t', t.ask fs path = ((s.ask fs path).1, t') ∧ Alike (s.ask fs path).2 t' := by
  obtain ⟨log, rfl⟩ := h
  cases hk : fs.resolve path with
  | error f =>
    rw [ask_refused (s := s) hk]
    exact ⟨_, ask_refused hk, log, rfl⟩
  | ok k =>
    cases hl : s.cache.lookup k with
    | some r =>
      rw [ask_kept hk hl]
      exact ⟨_, ask_kept hk hl, log, rfl⟩
    | none =>
      rw [ask_unknown hk hl]
      exact ⟨_, ask_unknown hk hl, _, rfl⟩

theorem Alike.make (h : Alike s t) (fs : FileTree) (k : Route) :
    ∃ t', t.make fs k = ((s.make fs k).1, t') ∧ Alike (s.make fs k).2 t' := by
  obtain ⟨log, rfl⟩ := h
  cases hv : fs.survey s.weights k with
  | error f =>
    rw [make_failed hv]
    exact ⟨_, make_failed hv, log, rfl⟩
  | ok v =>
    rw [make_new hv]
    exact ⟨_, make_new hv, log, rfl⟩

theorem Alike.keep (h : Alike s t) (k : Route) (r : Report) :
    ∃ t', t.keep k r = ((s.keep k r).1, t') ∧ Alike (s.keep k r).2 t' := by
  obtain ⟨log, rfl⟩ := h
  cases hl : s.cache.lookup k with
  | some earlier =>
    rw [keep_kept hl]
    exact ⟨_, keep_kept hl, log, rfl⟩
  | none =>
    rw [keep_new hl]
    exact ⟨_, keep_new hl, log, rfl⟩

theorem Alike.analyzeFile (h : Alike s t) (fs : FileTree) (path : String) :
    ∃ t', t.analyzeFile fs path = ((s.analyzeFile fs path).1, t') ∧
      Alike (s.analyzeFile fs path).2 t' := by
  obtain ⟨t₁, ht₁, h₁⟩ := h.ask fs path
  unfold Session.analyzeFile
  rw [ht₁]
  cases hq : s.ask fs path with
  | mk answer asked =>
    rw [hq] at h₁
    cases answer with
    | refused f => exact ⟨t₁, rfl, h₁⟩
    | kept r => exact ⟨t₁, rfl, h₁⟩
    | unknown k =>
      obtain ⟨t₂, ht₂, h₂⟩ := h₁.make fs k
      simp only [ht₂]
      cases hm : asked.make fs k with
      | mk result made =>
        rw [hm] at h₂
        cases result with
        | error f => exact ⟨t₂, rfl, h₂⟩
        | ok r =>
          obtain ⟨t₃, ht₃, h₃⟩ := h₂.keep k r
          simp only [ht₃]
          exact ⟨t₃, rfl, h₃⟩

theorem analyzeFile_refused (h : fs.resolve path = .error f) :
    s.analyzeFile fs path = (.error f, s) := by
  unfold Session.analyzeFile ask
  simp [h]

theorem alone_refused (h : fs.resolve path = .error f) : s.alone fs path = .error f := by
  rw [alone, analyzeFile_refused h]
  rfl

theorem alone_resolved (hk : fs.resolve path = .ok k) : s.alone fs path = s.known fs k := by
  unfold alone known
  cases hl : s.cache.lookup k with
  | some r => rw [analyzeFile_kept hk hl]; rfl
  | none =>
    cases hv : fs.survey s.weights k with
    | error f => rw [analyzeFile_failed hk hl hv]; rfl
    | ok v => rw [analyzeFile_new hk hl hv]; rfl

theorem known_of_lookup (hl : s.cache.lookup k = some r) : s.known fs k = .ok r.survey := by
  simp [known, hl]

theorem known_of_new (hl : s.cache.lookup k = none) : s.known fs k = fs.survey s.weights k := by
  simp [known, hl]

theorem reportOf?_resolved (hk : fs.resolve path = .ok k) :
    s.reportOf? fs path = s.cache.lookup k := by
  simp [reportOf?, hk, Except.toOption]

theorem reportOf?_refused (h : fs.resolve path = .error f) : s.reportOf? fs path = none := by
  simp [reportOf?, h, Except.toOption]

/-- A file fails in a way not to be expected of it just when its path cannot be resolved. -/
theorem filter_failureOf?_alone (fs : FileTree) (s : Session) (path : String) :
    (failureOf? (s.alone fs path)).filter (!·.isExpected) = fs.unresolved? path := by
  unfold FileTree.unresolved?
  cases hk : fs.resolve path with
  | error f => simp [alone_refused hk, failureOf?, FileTree.isExpected_of_resolve hk]
  | ok k =>
    rw [alone_resolved hk]
    cases hl : s.cache.lookup k with
    | some r => simp [known_of_lookup hl, failureOf?]
    | none =>
      rw [known_of_new hl]
      cases hv : fs.survey s.weights k with
      | error f => simp [failureOf?, FileTree.isExpected_of_survey hv]
      | ok v => rfl

theorem Alike.grown (h : Alike s t) (fs : FileTree) (paths : List Route) : Grown fs paths s [] t := by
  obtain ⟨log, rfl⟩ := h
  exact ⟨rfl, by simp, List.nodup_nil, by simp, by simp, by simp⟩

theorem Grown.congr (h : Grown fs paths s added now) (hw : later.weights = now.weights)
    (hc : later.cache = now.cache) : Grown fs paths s added later :=
  ⟨hw.trans h.weights_eq, hc.trans h.cache_eq, h.keys_nodup, h.isNew, h.isSurvey, h.isLedTo⟩

theorem Grown.lookup_eq (h : Grown fs paths s added now) (k : Route) :
    now.cache.lookup k = (s.cache.lookup k).or (added.lookup k) := by
  rw [h.cache_eq, List.lookup_append]

theorem mem_of_lookup {cache : List (Route × Report)} (h : cache.lookup k = some r) :
    (k, r) ∈ cache := by
  obtain ⟨before, after, rfl, -⟩ := List.lookup_eq_some_iff.1 h
  simp

theorem Grown.known_eq (h : Grown fs paths s added now) (k : Route) :
    now.known fs k = s.known fs k := by
  have hn := h.lookup_eq k
  cases hs : s.cache.lookup k with
  | some r => rw [known_of_lookup hs, known_of_lookup (by rw [hn, hs]; rfl)]
  | none =>
    rw [hs, Option.none_or] at hn
    rw [known_of_new hs]
    cases ha : added.lookup k with
    | some r => rw [known_of_lookup (hn.trans ha), h.isSurvey k r (mem_of_lookup ha)]
    | none => rw [known_of_new (hn.trans ha), h.weights_eq]

theorem Grown.alone_eq (h : Grown fs paths s added now) (path : String) :
    now.alone fs path = s.alone fs path := by
  cases hk : fs.resolve path with
  | error f => rw [alone_refused hk, alone_refused hk]
  | ok k => rw [alone_resolved hk, alone_resolved hk, h.known_eq]

theorem Grown.concat (h : Grown fs paths s added now) (hl : now.cache.lookup k = none)
    (hv : fs.survey s.weights k = .ok r.survey) (hp : ∃ p ∈ paths, fs.resolve p.text = .ok k)
    (hw : later.weights = now.weights) (hc : later.cache = now.cache ++ [(k, r)]) :
    Grown fs paths s (added ++ [(k, r)]) later := by
  have hn := h.lookup_eq k
  rw [hl, eq_comm, Option.or_eq_none_iff] at hn
  refine ⟨hw.trans h.weights_eq, by rw [hc, h.cache_eq, List.append_assoc],
    nodup_keys_concat h.keys_nodup hn.2 r, ?_, ?_, ?_⟩
  all_goals
    intro k' r' hm
    rcases List.mem_append.1 hm with hold | hlast
  · exact h.isNew k' r' hold
  · cases List.mem_singleton.1 hlast
    exact hn.1
  · exact h.isSurvey k' r' hold
  · cases List.mem_singleton.1 hlast
    exact hv
  · exact h.isLedTo k' r' hold
  · cases List.mem_singleton.1 hlast
    exact hp

theorem Grown.keep (h : Grown fs paths s added now) (hv : fs.survey s.weights k = .ok r.survey)
    (hp : ∃ p ∈ paths, fs.resolve p.text = .ok k) :
    ∃ more, Grown fs paths s more (now.keep k r).2 := by
  cases hl : now.cache.lookup k with
  | some earlier => rw [keep_kept hl]; exact ⟨added, h⟩
  | none => rw [keep_new hl]; exact ⟨_, h.concat hl hv hp rfl rfl⟩

theorem lookup_keep (s : Session) (k : Route) (r : Report) :
    (s.keep k r).2.cache.lookup k = some (s.keep k r).1 := by
  cases hl : s.cache.lookup k with
  | some earlier => rw [keep_kept hl]; exact hl
  | none => rw [keep_new hl]; simp [List.lookup_append, hl]

theorem cache_prefix_keep (s : Session) (k : Route) (r : Report) :
    s.cache <+: (s.keep k r).2.cache := by
  cases hl : s.cache.lookup k with
  | some earlier => simp only [keep_kept hl, List.prefix_rfl]
  | none => rw [keep_new hl]; exact List.prefix_append _ _

theorem reportOf?_mono (hc : now.cache <+: later.cache) (h : now.reportOf? fs path = some r) :
    later.reportOf? fs path = some r := by
  obtain ⟨rest, hc⟩ := hc
  cases hk : fs.resolve path with
  | error f => simp [reportOf?_refused hk] at h
  | ok k =>
    rw [reportOf?_resolved hk] at h ⊢
    rw [← hc, List.lookup_append, h, Option.some_or]

theorem Settles.mono {result : Except Failure Report} (h : Settles fs s now path result)
    (hc : now.cache <+: later.cache) : Settles fs s later path result :=
  ⟨h.value, fun r hr => reportOf?_mono hc (h.kept r hr)⟩

/-- A path that fails leads to no report, however the session has grown. -/
theorem Grown.reportOf?_failed (h : Grown fs paths s added now) (hf : s.alone fs path = .error f) :
    now.reportOf? fs path = none := by
  rw [← h.alone_eq] at hf
  cases hk : fs.resolve path with
  | error f => exact reportOf?_refused hk
  | ok k =>
    rw [alone_resolved hk] at hf
    rw [reportOf?_resolved hk]
    cases hl : now.cache.lookup k with
    | none => rfl
    | some r => simp [known_of_lookup hl] at hf

theorem Settles.toOption_eq {result : Except Failure Report} (h : Settles fs s now path result)
    (hg : Grown fs paths s added now) : result.toOption = now.reportOf? fs path := by
  cases result with
  | ok r => exact (h.kept r rfl).symm
  | error f => exact (hg.reportOf?_failed h.value.symm).symm

theorem Grown.analyzeFile (h : Grown fs paths s added now) {p : Route} (hp : p ∈ paths) :
    (∃ more, Grown fs paths s more (now.analyzeFile fs p.text).2) ∧
      now.cache <+: (now.analyzeFile fs p.text).2.cache ∧
      Settles fs s (now.analyzeFile fs p.text).2 p.text (now.analyzeFile fs p.text).1 := by
  have hv := h.alone_eq p.text
  rw [alone] at hv
  cases hk : fs.resolve p.text with
  | error f =>
    rw [analyzeFile_refused hk] at hv ⊢
    exact ⟨⟨added, h⟩, List.prefix_rfl, hv, by simp⟩
  | ok k =>
    cases hl : now.cache.lookup k with
    | some r =>
      rw [analyzeFile_kept hk hl] at hv ⊢
      refine ⟨⟨added, h⟩, List.prefix_rfl, hv, fun r' hr' => ?_⟩
      cases hr'
      rw [reportOf?_resolved hk, hl]
    | none =>
      cases hd : fs.survey now.weights k with
      | error f =>
        rw [analyzeFile_failed hk hl hd] at hv ⊢
        exact ⟨⟨added, h.congr rfl rfl⟩, List.prefix_rfl, hv, by simp⟩
      | ok v =>
        rw [analyzeFile_new hk hl hd] at hv ⊢
        rw [h.weights_eq] at hd
        refine ⟨⟨_, h.concat hl hd ⟨p, hp, hk⟩ rfl rfl⟩, List.prefix_append _ _, hv,
          fun r' hr' => ?_⟩
        cases hr'
        rw [reportOf?_resolved hk]
        simp [List.lookup_append, hl]

end Session

end ComponentSurvey
