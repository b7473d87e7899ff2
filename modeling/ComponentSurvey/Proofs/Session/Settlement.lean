import ComponentSurvey.Proofs.Session.Growth
import Mathlib.Data.List.Basic

/-!
What comes of the files of a batch. Every file found has one outcome, which is in value what the file
gives alone, unless the path of some file cannot be resolved: the first such path ends the batch.
-/

set_option autoImplicit false

namespace ComponentSurvey

theorem FileOutcome.fatal?_eq (o : FileOutcome) :
    o.fatal? = (failureOf? o.result).filter (!·.isExpected) := by
  obtain ⟨path, result⟩ := o
  cases result with
  | ok r => rfl
  | error f => cases h : f.isExpected <;> simp [fatal?, failureOf?, Option.filter, h]

theorem findSome?_congr {α β : Type} {f g : α → Option β} {l : List α}
    (h : ∀ a ∈ l, f a = g a) : l.findSome? f = l.findSome? g := by
  induction l with
  | nil => rfl
  | cons a l ih =>
    rw [List.findSome?_cons, List.findSome?_cons, h a List.mem_cons_self,
      ih fun b hb => h b (List.mem_cons_of_mem a hb)]

namespace Batch

theorem results_ofOutcomes (os : List FileOutcome) :
    (ofOutcomes os).results = os.filterMap (·.result.toOption) := by
  induction os with
  | nil => rfl
  | cons o os ih =>
    obtain ⟨path, result⟩ := o
    cases result <;> simpa [ofOutcomes, add, Except.toOption] using ih

theorem failures_ofOutcomes (os : List FileOutcome) :
    (ofOutcomes os).failures = os.filterMap fun o => (failureOf? o.result).map (o.path, ·) := by
  induction os with
  | nil => rfl
  | cons o os ih =>
    obtain ⟨path, result⟩ := o
    cases result <;> simpa [ofOutcomes, add, failureOf?] using ih

end Batch

namespace Session

def found (fs : FileTree) (directory : String) (patterns : Option (List String)) (s : Session) :
    Except Failure (List Route) :=
  (Discovery.find fs directory (patternsOf patterns)
    (s.excluded.getD Convention.excludedDirectories)).map (·.files)

/-- A key without a report to which one of the files leads, which does not fail. -/
def NewKey (fs : FileTree) (s : Session) (files : List Route) (k : Route) : Prop :=
  s.cache.lookup k = none ∧
    ∃ p ∈ files, fs.resolve p.text = .ok k ∧ ∃ v, s.alone fs p.text = .ok v

/-- The outcomes account for the files: each one settles its file, none is left out or comes twice,
and only a file whose path cannot be resolved ends them early. -/
structure Accounts (fs : FileTree) (paths : List Route) (s now : Session) (files : List Route)
    (os : List FileOutcome) : Prop where
  grown : ∃ added, Grown fs paths s added now
  settles : ∀ o ∈ os, Settles fs s now o.path.text o.result
  fatal_eq : os.findSome? FileOutcome.fatal? = files.findSome? (fs.unresolved? ·.text)
  paths_eq : files.findSome? (fs.unresolved? ·.text) = none → os.map (·.path) = files

variable {fs : FileTree} {paths files : List Route} {s now later : Session}
  {added : List (Route × Report)} {os : List FileOutcome}

theorem Settles.fatal?_eq {o : FileOutcome} (h : Settles fs s now o.path.text o.result) :
    o.fatal? = fs.unresolved? o.path.text := by
  have hf : failureOf? o.result = failureOf? (s.alone fs o.path.text) := by
    rw [← h.value]
    cases o.result <;> rfl
  rw [FileOutcome.fatal?_eq, hf, filter_failureOf?_alone]

theorem Grown.newKey (h : Grown fs files s added now) {k : Route} (hk : k ∈ added.map (·.1)) :
    s.NewKey fs files k := by
  obtain ⟨⟨k, r⟩, hm, rfl⟩ := List.mem_map.1 hk
  obtain ⟨p, hp, hr⟩ := h.isLedTo k r hm
  have hl := h.isNew k r hm
  refine ⟨hl, p, hp, hr, r.survey, ?_⟩
  rw [alone_resolved hr, known_of_new hl, h.isSurvey k r hm]

theorem Accounts.of_paths_eq (hg : ∃ added, Grown fs paths s added now)
    (hs : ∀ o ∈ os, Settles fs s now o.path.text o.result) (hp : os.map (·.path) = files) :
    Accounts fs paths s now files os := by
  refine ⟨hg, hs, ?_, fun _ => hp⟩
  rw [← hp, List.findSome?_map]
  refine findSome?_congr fun o ho => ?_
  rw [Function.comp_apply, (hs o ho).fatal?_eq]

theorem Accounts.congr (h : Accounts fs paths s now files os) (hw : later.weights = now.weights)
    (hc : later.cache = now.cache) : Accounts fs paths s later files os := by
  obtain ⟨added, hg⟩ := h.grown
  have hp : now.cache <+: later.cache := hc ▸ List.prefix_rfl
  exact ⟨⟨added, hg.congr hw hc⟩, fun o ho => (h.settles o ho).mono hp, h.fatal_eq, h.paths_eq⟩

section Accounts

variable (h : Accounts fs paths s now files os)
  (hn : files.findSome? (fs.unresolved? ·.text) = none)
include h hn

/-- Something read off each outcome is read off each file instead. -/
theorem Accounts.filterMap_eq {α : Type} {g : FileOutcome → Option α} {g' : Route → Option α}
    (hg : ∀ o ∈ os, g o = g' o.path) : os.filterMap g = files.filterMap g' := by
  rw [← h.paths_eq hn, List.filterMap_map]
  exact List.filterMap_congr hg

theorem Accounts.results_eq :
    (Batch.ofOutcomes os).results = files.filterMap fun p => now.reportOf? fs p.text := by
  obtain ⟨added, hg⟩ := h.grown
  rw [Batch.results_ofOutcomes]
  exact h.filterMap_eq hn fun o ho => (h.settles o ho).toOption_eq hg

theorem Accounts.surveys_eq :
    (Batch.ofOutcomes os).results.map (·.survey) =
      files.filterMap fun p => (s.alone fs p.text).toOption := by
  rw [Batch.results_ofOutcomes, List.map_filterMap]
  refine h.filterMap_eq hn fun o ho => ?_
  rw [← (h.settles o ho).value]
  cases o.result <;> rfl

theorem Accounts.length_results : (Batch.ofOutcomes os).results.length ≤ files.length := by
  have hl := congrArg List.length (h.surveys_eq hn)
  rw [List.length_map] at hl
  rw [hl]
  exact List.length_filterMap_le _ _

theorem Accounts.failures_eq :
    (Batch.ofOutcomes os).failures =
      files.filterMap fun p => (failureOf? (s.alone fs p.text)).map (p, ·) := by
  rw [Batch.failures_ofOutcomes]
  refine h.filterMap_eq hn fun o ho => ?_
  rw [← (h.settles o ho).value]
  cases o.result <;> rfl

theorem Accounts.mem_keys_iff (hg : Grown fs files s added now) (k : Route) :
    k ∈ added.map (·.1) ↔ s.NewKey fs files k := by
  constructor
  · exact hg.newKey
  · rintro ⟨hl, p, hp, hk, v, hv⟩
    obtain ⟨o, ho, rfl⟩ := List.mem_map.1 (h.paths_eq hn ▸ hp)
    have hs := h.settles o ho
    have hr := hs.value.trans hv
    cases hq : o.result with
    | error f => simp [hq, Except.map] at hr
    | ok r =>
      have hkept := hs.kept r hq
      rw [reportOf?_resolved hk, hg.lookup_eq, hl, Option.none_or] at hkept
      exact List.mem_map_of_mem (mem_of_lookup hkept)

end Accounts

theorem Accounts.conclude_eq (h : Accounts fs paths s now files os) :
    (now.conclude os).1 =
      match files.findSome? (fs.unresolved? ·.text) with
      | some f => .error f
      | none => .ok (Batch.ofOutcomes os) := by
  rw [conclude, h.fatal_eq]
  cases files.findSome? (fs.unresolved? ·.text) <;> rfl

theorem Grown.tryFile (h : Grown fs paths s added now) {p : Route} (hp : p ∈ paths) :
    (∃ more, Grown fs paths s more (now.tryFile fs p).2) ∧
      now.cache <+: (now.tryFile fs p).2.cache ∧ (now.tryFile fs p).1.path = p ∧
      Settles fs s (now.tryFile fs p).2 p.text (now.tryFile fs p).1.result := by
  have hf := h.analyzeFile hp
  cases ha : now.analyzeFile fs p.text with
  | mk result after =>
    rw [ha] at hf
    obtain ⟨⟨more, hm⟩, hc, hs⟩ := hf
    obtain ⟨hw, he⟩ := noteOutcome_session after ⟨p, result⟩
    rw [tryFile_eq, ha]
    have hp : after.cache <+: (after.noteOutcome ⟨p, result⟩).cache := he ▸ List.prefix_rfl
    exact ⟨⟨more, hm.congr hw he⟩, hc.trans hp, rfl, hs.mono hp⟩

theorem tryFiles_fatal {p : Route} {o : FileOutcome} {f : Failure}
    (hr : s.tryFile fs p = (o, later)) (ho : o.fatal? = some f) (files : List Route) :
    s.tryFiles fs (p :: files) = ([o], later) := by
  simp [Session.tryFiles, hr, ho]

theorem tryFiles_more {p : Route} {o : FileOutcome} (hr : s.tryFile fs p = (o, later))
    (ho : o.fatal? = none) (files : List Route) :
    s.tryFiles fs (p :: files) =
      (o :: (later.tryFiles fs files).1, (later.tryFiles fs files).2) := by
  simp [Session.tryFiles, hr, ho]

theorem Grown.tryFiles (h : Grown fs paths s added now) (hp : ∀ p ∈ files, p ∈ paths) :
    now.cache <+: (now.tryFiles fs files).2.cache ∧
      Accounts fs paths s (now.tryFiles fs files).2 files (now.tryFiles fs files).1 := by
  induction files generalizing now added with
  | nil => exact ⟨List.prefix_rfl, ⟨added, h⟩, by simp [Session.tryFiles], rfl, fun _ => rfl⟩
  | cons p files ih =>
    obtain ⟨⟨more, hm⟩, hc, ho, hs⟩ := h.tryFile (hp p List.mem_cons_self)
    cases hr : now.tryFile fs p with
    | mk o after =>
      rw [hr] at hm hc ho hs
      subst ho
      have hf := hs.fatal?_eq
      cases hd : o.fatal? with
      | some f =>
        rw [tryFiles_fatal hr hd]
        refine ⟨hc, ⟨more, hm⟩, fun o' ho' => ?_, ?_, fun hn => ?_⟩
        · rw [List.mem_singleton.1 ho']
          exact hs
        · simp [← hf, hd]
        · simp [← hf, hd] at hn
      | none =>
        obtain ⟨hc', ha⟩ := ih hm fun p hp' => hp p (List.mem_cons_of_mem _ hp')
        rw [tryFiles_more hr hd]
        refine ⟨hc.trans hc', ha.grown, fun o' ho' => ?_, ?_, fun hn => ?_⟩
        · rcases List.mem_cons.1 ho' with rfl | ho'
          · exact hs.mono hc'
          · exact ha.settles o' ho'
        · simpa [← hf, hd] using ha.fatal_eq
        · simp only [List.findSome?_cons, ← hf, hd] at hn
          simp [ha.paths_eq hn]

section Alike

variable {t : Session}

theorem Alike.symm (h : Alike s t) : Alike t s := by
  obtain ⟨log, rfl⟩ := h
  exact ⟨s.log, rfl⟩

theorem Alike.cache_eq (h : Alike s t) : t.cache = s.cache := by
  obtain ⟨log, rfl⟩ := h
  rfl

theorem Alike.trans {u : Session} (h : Alike s t) (h' : Alike t u) : Alike s u := by
  obtain ⟨log, rfl⟩ := h
  obtain ⟨log', rfl⟩ := h'
  exact ⟨log', rfl⟩

theorem alike_noteOutcome (s : Session) (o : FileOutcome) : Alike s (s.noteOutcome o) := by
  unfold Session.noteOutcome
  split
  · exact ⟨s.log, rfl⟩
  · split
    · exact ⟨_, rfl⟩
    · exact ⟨s.log, rfl⟩

theorem Alike.noteOutcome (h : Alike s t) (o : FileOutcome) :
    Alike (s.noteOutcome o) (t.noteOutcome o) := by
  obtain ⟨log, rfl⟩ := h
  unfold Session.noteOutcome
  cases o.result with
  | ok r => exact ⟨log, rfl⟩
  | error f =>
    by_cases he : f.isExpected
    · simp only [he, if_true]
      exact ⟨_, rfl⟩
    · simp only [he]
      exact ⟨log, rfl⟩

theorem Alike.tryFile (h : Alike s t) (fs : FileTree) (p : Route) :
    ∃ t', t.tryFile fs p = ((s.tryFile fs p).1, t') ∧ Alike (s.tryFile fs p).2 t' := by
  obtain ⟨t', ht, ha⟩ := h.analyzeFile fs p.text
  rw [tryFile_eq, tryFile_eq, ht]
  cases hr : s.analyzeFile fs p.text with
  | mk result after =>
    rw [hr] at ha
    exact ⟨_, rfl, ha.noteOutcome ⟨p, result⟩⟩

theorem Alike.tryFiles (h : Alike s t) (fs : FileTree) (files : List Route) :
    ∃ t', t.tryFiles fs files = ((s.tryFiles fs files).1, t') ∧
      Alike (s.tryFiles fs files).2 t' := by
  induction files generalizing s t with
  | nil => exact ⟨t, rfl, h⟩
  | cons p files ih =>
    obtain ⟨t₁, ht, ha⟩ := h.tryFile fs p
    cases hr : s.tryFile fs p with
    | mk o after =>
      rw [hr] at ht ha
      cases hd : o.fatal? with
      | some f =>
        rw [tryFiles_fatal ht hd, tryFiles_fatal hr hd]
        exact ⟨t₁, rfl, ha⟩
      | none =>
        obtain ⟨t₂, ht₂, h₂⟩ := ih ha
        rw [tryFiles_more ht hd, tryFiles_more hr hd, ht₂]
        exact ⟨t₂, rfl, h₂⟩

end Alike

theorem find_refused {directory : String} {patterns : Option (List String)} {f : Failure}
    (h : s.found fs directory patterns = .error f) :
    s.find fs directory (some (patternsOf patterns)) s.excluded = (.error f, s) := by
  unfold found at h
  unfold find
  cases hd : Discovery.find fs directory (patternsOf patterns)
      (s.excluded.getD Convention.excludedDirectories) with
  | error e =>
    rw [hd] at h
    cases h
    simp [hd]
  | ok d => simp [hd, Except.map] at h

theorem exists_find_of_found {directory : String} {patterns : Option (List String)}
    (h : s.found fs directory patterns = .ok files) :
    ∃ d, Discovery.find fs directory (patternsOf patterns)
      (s.excluded.getD Convention.excludedDirectories) = .ok d ∧ d.files = files := by
  unfold found at h
  cases hd : Discovery.find fs directory (patternsOf patterns)
      (s.excluded.getD Convention.excludedDirectories) with
  | error e => simp [hd, Except.map] at h
  | ok d =>
    rw [hd] at h
    exact ⟨d, rfl, Except.ok.inj h⟩

theorem find_found {directory : String} {patterns : Option (List String)}
    (h : s.found fs directory patterns = .ok files) :
    ∃ t, s.find fs directory (some (patternsOf patterns)) s.excluded = (.ok files, t) ∧
      Alike s t := by
  obtain ⟨d, hd, rfl⟩ := exists_find_of_found h
  unfold find
  simp only [Option.getD_some, hd]
  exact ⟨_, rfl, _, rfl⟩

theorem analyzeDirectory_refused {directory : String} {patterns : Option (List String)}
    {f : Failure} (h : s.found fs directory patterns = .error f) (workers : Int) :
    s.analyzeDirectory fs directory patterns workers = (.error f, s) := by
  rw [analyzeDirectory, find_refused h]

theorem analyzeDirectory_found {directory : String} {patterns : Option (List String)}
    (h : s.found fs directory patterns = .ok files) :
    ∃ t, Alike s t ∧ ∀ workers : Int, workers ≤ 1 →
      s.analyzeDirectory fs directory patterns workers =
        (t.tryFiles fs files).2.conclude (t.tryFiles fs files).1 := by
  obtain ⟨t, hf, log, rfl⟩ := find_found h
  refine ⟨Session.write { s with log } .info .analysis
    ("Analyzing " ++ toString files.length ++ " files under " ++ directory), ⟨_, rfl⟩, ?_⟩
  intro workers hw
  rw [analyzeDirectory, hf]
  simp only [Int.not_lt.2 hw, if_false]

end Session

end ComponentSurvey
