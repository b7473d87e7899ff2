import ComponentSurvey.Proofs.Session.Isolation

/-!
A batch asked for result by result looks at the files that a whole batch looks at first, and gives
what the whole batch gives for them, wherever it is left.
-/

set_option autoImplicit false

namespace ComponentSurvey

/-- Items up to the one with which a number of fitting ones have come; all of them when there are
fewer. -/
def uptoFitting {α : Type} (fits : α → Bool) : Nat → List α → List α
  | 0, _ => []
  | _ + 1, [] => []
  | n + 1, a :: l => a :: uptoFitting fits (if fits a then n else n + 1) l

/-- These items come first, and unless they are all, the whole number of fitting ones is among them. -/
theorem uptoFitting_append {α : Type} (fits : α → Bool) (n : Nat) (l : List α) :
    ∃ rest, uptoFitting fits n l ++ rest = l ∧ (uptoFitting fits n l).countP fits ≤ n ∧
      (rest ≠ [] → (uptoFitting fits n l).countP fits = n) := by
  induction l generalizing n with
  | nil => cases n <;> exact ⟨[], rfl, by simp [uptoFitting], by simp⟩
  | cons a l ih =>
    cases n with
    | zero => exact ⟨a :: l, rfl, by simp [uptoFitting], by simp [uptoFitting]⟩
    | succ n =>
      cases h : fits a with
      | true =>
        obtain ⟨rest, hr, hle, heq⟩ := ih n
        refine ⟨rest, by simp [uptoFitting, h, hr], ?_, fun hn => ?_⟩
        · simpa [uptoFitting, h] using hle
        · simpa [uptoFitting, h] using heq hn
      | false =>
        obtain ⟨rest, hr, hle, heq⟩ := ih (n + 1)
        refine ⟨rest, by simp [uptoFitting, h, hr], ?_, fun hn => ?_⟩
        · simpa [uptoFitting, h] using hle
        · simpa [uptoFitting, h] using heq hn

namespace Session

def through (fs : FileTree) (s : Session) (n : Nat) (files : List Route) : List Route :=
  uptoFitting (fun p => (s.alone fs p.text).toOption.isSome) n files

def analyzeFiles (fs : FileTree) (files : List Route) (s : Session) : Session :=
  files.foldl (fun s p => (s.analyzeFile fs p.text).2) s

variable {fs : FileTree} {paths files : List Route} {s t u now later : Session}
  {added : List (Route × Report)} {p : Route} {o : FileOutcome}

@[simp]
theorem through_nil (fs : FileTree) (s : Session) (n : Nat) : s.through fs n [] = [] := by
  cases n <;> rfl

@[simp]
theorem through_zero (fs : FileTree) (s : Session) (files : List Route) :
    s.through fs 0 files = [] := by
  cases files <;> rfl

theorem through_ok {v : Survey} (h : s.alone fs p.text = .ok v) (n : Nat) (files : List Route) :
    s.through fs (n + 1) (p :: files) = p :: s.through fs n files := by
  simp [through, uptoFitting, h, Except.toOption]

theorem through_failed {f : Failure} (h : s.alone fs p.text = .error f) (n : Nat)
    (files : List Route) :
    s.through fs (n + 1) (p :: files) = p :: s.through fs (n + 1) files := by
  simp [through, uptoFitting, h, Except.toOption]

/-- They come first, and unless they are all the files they give the whole number of reports. -/
theorem through_append (fs : FileTree) (s : Session) (n : Nat) (files : List Route) :
    ∃ rest, s.through fs n files ++ rest = files ∧
      ((s.through fs n files).filterMap fun p => (s.alone fs p.text).toOption).length ≤ n ∧
      (rest ≠ [] →
        ((s.through fs n files).filterMap fun p => (s.alone fs p.text).toOption).length = n) := by
  simp only [List.length_filterMap_eq_countP]
  exact uptoFitting_append _ n files

theorem through_all (fs : FileTree) (s : Session) {n : Nat} (h : files.length < n) :
    s.through fs n files = files := by
  obtain ⟨rest, hr, -, heq⟩ := through_append fs s n files
  cases rest with
  | nil => rwa [List.append_nil] at hr
  | cons p rest =>
    have hle := List.length_filterMap_le (fun p : Route => (s.alone fs p.text).toOption)
      (s.through fs n files)
    have hlen := congrArg List.length hr
    rw [heq (by simp)] at hle
    rw [List.length_append] at hlen
    omega

/-- Files that are looked at after others; none are when one of the others ends the batch. -/
theorem tryFiles_append (fs : FileTree) (files rest : List Route) (s : Session)
    (hn : (s.tryFiles fs files).1.findSome? FileOutcome.fatal? = none) :
    s.tryFiles fs (files ++ rest) =
      ((s.tryFiles fs files).1 ++ ((s.tryFiles fs files).2.tryFiles fs rest).1,
        ((s.tryFiles fs files).2.tryFiles fs rest).2) := by
  induction files generalizing s with
  | nil => simp [Session.tryFiles]
  | cons p files ih =>
    cases hr : s.tryFile fs p with
    | mk o after =>
      cases hd : o.fatal? with
      | some f => simp [tryFiles_fatal hr hd, hd] at hn
      | none =>
        rw [tryFiles_more hr hd, List.findSome?_cons, hd] at hn
        rw [List.cons_append, tryFiles_more hr hd, tryFiles_more hr hd, ih after hn,
          List.cons_append]

/-- A batch that nothing ends does to the session what its files do, but for the log. -/
theorem Alike.analyzeFiles (h : Alike s t) (fs : FileTree) (files : List Route)
    (hn : (t.tryFiles fs files).1.findSome? FileOutcome.fatal? = none) :
    Alike (s.analyzeFiles fs files) (t.tryFiles fs files).2 := by
  induction files generalizing s t with
  | nil => exact h
  | cons p files ih =>
    obtain ⟨t', ht, ha⟩ := h.analyzeFile fs p.text
    have hr := tryFile_eq fs p t
    rw [ht] at hr
    cases hs : s.analyzeFile fs p.text with
    | mk result after =>
      rw [hs] at ha hr
      have hu : s.analyzeFiles fs (p :: files) = after.analyzeFiles fs files := by
        simp [Session.analyzeFiles, hs]
      cases hd : FileOutcome.fatal? ⟨p, result⟩ with
      | some f => simp [tryFiles_fatal hr hd, hd] at hn
      | none =>
        rw [tryFiles_more hr hd, List.findSome?_cons, hd] at hn
        rw [tryFiles_more hr hd, hu]
        exact ih (ha.trans (alike_noteOutcome t' ⟨p, result⟩)) hn

/-- A batch asked for result by result does what a batch of the files through which the results come
does, and it is ended by what ends that one. -/
theorem Grown.stream (h : Grown fs paths s added now) (hp : ∀ p ∈ files, p ∈ paths) (n : Nat) :
    (now.stream fs (some (n + 1)) files).2 = (now.tryFiles fs (s.through fs (n + 1) files)).2 ∧
      (now.stream fs (some (n + 1)) files).1.yields.map (·.report) =
        (now.tryFiles fs (s.through fs (n + 1) files)).1.filterMap (·.result.toOption) ∧
      (now.stream fs (some (n + 1)) files).1.raised =
        (now.tryFiles fs (s.through fs (n + 1) files)).1.findSome? FileOutcome.fatal? ∧
      ((now.stream fs (some (n + 1)) files).1.raised = none →
        (now.stream fs (some (n + 1)) files).1.failures =
          (now.tryFiles fs (s.through fs (n + 1) files)).1.filterMap fun o =>
            (failureOf? o.result).map (o.path, ·)) := by
  induction files generalizing now added n with
  | nil => simp [Session.stream, Session.tryFiles]
  | cons p files ih =>
    obtain ⟨⟨more, hm⟩, -, ho, hs⟩ := h.tryFile (hp p List.mem_cons_self)
    have hp' : ∀ q ∈ files, q ∈ paths := fun q hq => hp q (List.mem_cons_of_mem p hq)
    cases hr : now.tryFile fs p with
    | mk o after =>
      rw [hr] at hm ho hs
      obtain ⟨q, result⟩ := o
      obtain rfl : q = p := ho
      have hv := hs.value.symm
      cases result with
      | ok r =>
        have hd : FileOutcome.fatal? ⟨q, .ok r⟩ = none := rfl
        rw [through_ok hv, tryFiles_more hr hd]
        cases n with
        | zero => simp [stream_last hr, Session.tryFiles, hd, Except.toOption, failureOf?]
        | succ n =>
          have hi := ih hm hp' n
          rw [stream_more hr]
          simpa [hd, Except.toOption, failureOf?] using hi
      | error f =>
        rw [through_failed hv]
        by_cases hf : f.isExpected
        · have hd : FileOutcome.fatal? ⟨q, .error f⟩ = none := by simp [FileOutcome.fatal?, hf]
          have hi := ih hm hp' n
          rw [stream_failed hr hf, tryFiles_more hr hd]
          simpa [hd, Except.toOption, failureOf?] using hi
        · have hd : FileOutcome.fatal? ⟨q, .error f⟩ = some f := by simp [FileOutcome.fatal?, hf]
          rw [stream_fatal hr hf, tryFiles_fatal hr hd]
          simp [hd, Except.toOption]

/-- A batch without a limit is one whose limit its files do not reach. -/
theorem stream_unlimited (fs : FileTree) {n : Nat} (h : files.length ≤ n) (s : Session) :
    s.stream fs none files = s.stream fs (some (n + 1)) files := by
  induction files generalizing n s with
  | nil => rfl
  | cons p files ih =>
    cases hr : s.tryFile fs p with
    | mk o after =>
      obtain ⟨q, result⟩ := o
      rw [List.length_cons] at h
      cases result with
      | error f =>
        by_cases hf : f.isExpected
        · rw [stream_failed hr hf, stream_failed hr hf, ih (n := n) (by omega)]
        · rw [stream_fatal hr hf, stream_fatal hr hf]
      | ok r =>
        obtain ⟨m, rfl⟩ : ∃ m, n = m + 1 := ⟨n - 1, by omega⟩
        have hi := ih (n := m) (by omega) after
        rw [stream_more hr, ← hi, Session.stream, hr]
        rfl

/-- The reports of the files looked at are the first ones of the batch. -/
theorem Grown.results_through (h : Grown fs files s added now)
    (hn : files.findSome? (fs.unresolved? ·.text) = none) (n : Nat) :
    (now.tryFiles fs (s.through fs n files)).1.filterMap (·.result.toOption) =
      ((now.tryFiles fs files).1.filterMap (·.result.toOption)).take n := by
  obtain ⟨rest, hr, hle, heq⟩ := through_append fs s n files
  generalize s.through fs n files = looked at hr hle heq
  subst hr
  rw [List.findSome?_append, Option.or_eq_none_iff] at hn
  have hmem : ∀ p ∈ looked, p ∈ looked ++ rest := fun p hp => List.mem_append_left rest hp
  have ha := (h.tryFiles hmem).2
  have hlen := congrArg List.length (ha.surveys_eq hn.1)
  rw [List.length_map, Batch.results_ofOutcomes] at hlen
  rw [tryFiles_append fs looked rest now (ha.fatal_eq.trans hn.1), List.filterMap_append]
  cases rest with
  | nil =>
    simp only [Session.tryFiles, List.filterMap_nil, List.append_nil]
    exact (List.take_of_length_le (by omega)).symm
  | cons p rest =>
    exact (List.take_left' (by rw [hlen]; exact heq (by simp))).symm

variable {directory : String} {patterns : Option (List String)}

theorem iterateDirectory_refused {f : Failure} (h : s.found fs directory patterns = .error f)
    (limit : Option Nat) : s.iterateDirectory fs directory patterns limit = (.error f, s) := by
  rw [iterateDirectory, find_refused h]

theorem iterateDirectory_found (h : s.found fs directory patterns = .ok files) :
    ∃ t, Alike s t ∧ ∀ limit, s.iterateDirectory fs directory patterns limit =
      (.ok (t.stream fs limit files).1, (t.stream fs limit files).2) := by
  obtain ⟨t, hf, ha⟩ := find_found h
  refine ⟨t, ha, fun limit => ?_⟩
  rw [iterateDirectory, hf]

/-- What has been asked for of a batch when the given files have been looked at. -/
structure LooksAt (fs : FileTree) (s : Session) (looked : List Route) (t : Stream)
    (after : Session) : Prop where
  raised_eq : t.raised = looked.findSome? (fs.unresolved? ·.text)
  surveys_eq : t.raised = none →
    t.yields.map (·.report.survey) = looked.filterMap fun p => (s.alone fs p.text).toOption
  failures_eq : t.raised = none →
    t.failures = looked.filterMap fun p => (failureOf? (s.alone fs p.text)).map (p, ·)
  cache_eq : t.raised = none → after.cache = (s.analyzeFiles fs looked).cache

theorem Alike.looksAt (h : Alike s t) (fs : FileTree) (files : List Route) (k : Nat) :
    LooksAt fs s (s.through fs (k + 1) files) (t.stream fs (some (k + 1)) files).1
      (t.stream fs (some (k + 1)) files).2 := by
  have hg := h.grown fs files
  obtain ⟨hs, hy, hr, hf⟩ := hg.stream (fun p hp => hp) k
  obtain ⟨rest, ht, -⟩ := through_append fs s (k + 1) files
  generalize s.through fs (k + 1) files = looked at *
  have hmem : ∀ p ∈ looked, p ∈ files := fun p hp => ht ▸ List.mem_append_left rest hp
  have ha := (hg.tryFiles hmem).2
  have hq := hr.trans ha.fatal_eq
  refine ⟨hq, fun hn => ?_, fun hn => ?_, fun hn => ?_⟩
  · rw [← ha.surveys_eq (hq ▸ hn), Batch.results_ofOutcomes, ← hy, List.map_map]
    rfl
  · rw [hf hn, ← ha.failures_eq (hq ▸ hn), Batch.failures_ofOutcomes]
  · rw [hs]
    exact (h.analyzeFiles fs looked (hr ▸ hn)).cache_eq

/-- A batch asked for result by result is ended by what ends the whole batch, or not at all. -/
theorem Alike.stream_raised (h : Alike s t) {f : Failure}
    (hn : files.findSome? (fs.unresolved? ·.text) = some f) (k : Nat) :
    (t.stream fs (some (k + 1)) files).1.raised = none ∨
      (t.stream fs (some (k + 1)) files).1.raised = some f := by
  obtain ⟨rest, hr, -⟩ := through_append fs s (k + 1) files
  rw [(h.looksAt fs files k).raised_eq]
  rw [← hr, List.findSome?_append] at hn
  rcases Option.or_eq_some_iff.1 hn with hs | ⟨hs, -⟩
  · exact .inr hs
  · exact .inl hs

theorem Alike.stream_results (h : Alike s t)
    (hn : files.findSome? (fs.unresolved? ·.text) = none) (k : Nat) :
    (t.stream fs (some (k + 1)) files).1.raised = none ∧
      (t.stream fs (some (k + 1)) files).1.yields.map (·.report) =
        (Batch.ofOutcomes (t.tryFiles fs files).1).results.take (k + 1) := by
  have hg := h.grown fs files
  obtain ⟨rest, hr, -⟩ := through_append fs s (k + 1) files
  refine ⟨?_, ?_⟩
  · rw [← hr, List.findSome?_append, Option.or_eq_none_iff] at hn
    exact (h.looksAt fs files k).raised_eq.trans hn.1
  · rw [(hg.stream (fun p hp => hp) k).2.1, hg.results_through hn, Batch.results_ofOutcomes]

/-- A batch asked for result by result fails as the whole batch does when the search for files fails.
Left after some results, or when no file is left, it has looked at the files up to the one that gave
the last of these results; its results are the first ones of the whole batch, its failures those of
the files looked at, and the session keeps what these files leave in it. Only what ends the whole
batch ends it, once it has come that far. Without a limit it is the whole batch. -/
theorem iterateDirectory_agrees (fs : FileTree) (directory : String)
    (patterns : Option (List String)) (s : Session) :
    let eager := s.analyzeDirectory fs directory patterns 1
    let lazy := s.iterateDirectory fs directory patterns
    match s.found fs directory patterns with
    | .error f => eager = (.error f, s) ∧ ∀ limit, lazy limit = (.error f, s)
    | .ok files =>
      (∀ k, ∃ t, (lazy (some (k + 1))).1 = .ok t ∧
        LooksAt fs s (s.through fs (k + 1) files) t (lazy (some (k + 1))).2 ∧
        match eager.1 with
        | .error f => t.raised = none ∨ t.raised = some f
        | .ok b => t.raised = none ∧ t.yields.map (·.report) = b.results.take (k + 1) ∧
          b.failures = files.filterMap fun p => (failureOf? (s.alone fs p.text)).map (p, ·)) ∧
      ∃ t, (lazy none).1 = .ok t ∧
        match eager.1 with
        | .error f => t.raised = some f
        | .ok b => t.raised = none ∧ t.yields.map (·.report) = b.results ∧
          t.failures = b.failures ∧ (lazy none).2.cache = eager.2.cache := by
  intro eager lazy
  cases hd : s.found fs directory patterns with
  | error f => exact ⟨analyzeDirectory_refused hd 1, iterateDirectory_refused hd⟩
  | ok files =>
    obtain ⟨t, hat, hl⟩ := iterateDirectory_found hd
    obtain ⟨u, hau, he⟩ := analyzeDirectory_found hd
    have heager : eager = (u.tryFiles fs files).2.conclude (u.tryFiles fs files).1 :=
      he 1 (Int.le_refl 1)
    obtain ⟨v, hv, -⟩ := (hau.symm.trans hat).tryFiles fs files
    have ha := ((hau.grown fs files).tryFiles fun p hp => hp).2
    have hall := hat.looksAt fs files files.length
    rw [through_all fs s files.length.lt_succ_self, ← stream_unlimited fs (Nat.le_refl _) t] at hall
    have hc := ha.conclude_eq
    rw [← heager] at hc
    dsimp only
    cases hn : files.findSome? (fs.unresolved? ·.text) with
    | some f =>
      rw [hn] at hc
      simp only [lazy, hl, hc]
      exact ⟨fun k => ⟨_, rfl, hat.looksAt fs files k, hat.stream_raised hn k⟩, _, rfl,
        hall.raised_eq.trans hn⟩
    | none =>
      rw [hn] at hc
      simp only [lazy, hl, hc]
      have hres := hat.stream_results hn
      rw [hv] at hres
      refine ⟨fun k => ⟨_, rfl, hat.looksAt fs files k, (hres k).1, (hres k).2, ha.failures_eq hn⟩,
        _, rfl, hall.raised_eq.trans hn, ?_, ?_, ?_⟩
      · have hy := (hres files.length).2
        rw [← stream_unlimited fs (Nat.le_refl _) t] at hy
        exact hy.trans (List.take_of_length_le (Nat.le_succ_of_le (ha.length_results hn)))
      · rw [hall.failures_eq (hall.raised_eq.trans hn), ha.failures_eq hn]
      · rw [hall.cache_eq (hall.raised_eq.trans hn), heager, (conclude_session _ _).2]
        exact (hau.analyzeFiles fs files (ha.fatal_eq.trans hn)).cache_eq.symm

/-- Left after the report of its first file, a batch has not been ended by another. -/
theorem iterateDirectory_one {v : Survey}
    (h : s.found fs directory patterns = .ok (p :: files)) (hv : s.alone fs p.text = .ok v) :
    ∃ t, (s.iterateDirectory fs directory patterns (some 1)).1 = .ok t ∧ t.raised = none ∧
      t.yields.map (·.report.survey) = [v] := by
  obtain ⟨t, ha, he⟩ := iterateDirectory_found h
  have hl := ha.looksAt fs (p :: files) 0
  rw [through_ok hv, through_zero, Nat.zero_add] at hl
  have hr : (t.stream fs (some 1) (p :: files)).1.raised = none := by
    rw [hl.raised_eq, List.findSome?_cons, ← filter_failureOf?_alone fs s, hv]
    rfl
  refine ⟨_, by rw [he], hr, ?_⟩
  rw [hl.surveys_eq hr]
  simp [hv, Except.toOption]

/-- A batch can give its first result and still have none when it is done at once. -/
theorem result_before_detour :
    let s := Session.new [] none
    (∃ t, (s.iterateDirectory Detour.project "/" (some ["b.ts", "a.ts"]) (some 1)).1 = .ok t ∧
      t.raised = none ∧ t.yields.length = 1) ∧
    (s.analyzeDirectory Detour.project "/" (some ["b.ts", "a.ts"]) 1).1 =
      .error (.linkLoop Detour.sixteen.loop) := by
  intro s
  have hd : s.found Detour.project "/" (some ["b.ts", "a.ts"]) = .ok ([["b.ts"]] ++ [["a.ts"]]) :=
    Detour.found_project (by decide) (by decide) (by decide) s
  obtain ⟨v, hv⟩ := Detour.alone_b s rfl
  obtain ⟨t, ht, hr, hy⟩ := iterateDirectory_one hd hv
  refine ⟨⟨t, ht, hr, by simpa using congrArg List.length hy⟩, ?_⟩
  refine analyzeDirectory_of_unresolved hd (fun q hq => ?_) Detour.resolve_project_a 1
  rw [List.mem_singleton.1 hq]
  exact ⟨v, hv⟩

end Session

end ComponentSurvey
