import Mathlib.Data.List.Pairwise
import ComponentSurvey.Proofs.FileTree.Direct
import ComponentSurvey.Proofs.FileTree.Selection
import ComponentSurvey.Proofs.Session.Laziness

/-!
Files that a batch reports more than once. Files are found by their paths and reported under what
their paths resolve to, so a file is reported once for each path that is found and leads to it. Only
links and `..` lead to it by a second path.
-/

set_option autoImplicit false

namespace ComponentSurvey

theorem nodup_filterMap_iff {α β : Type} {f : α → Option β} {l : List α} (hl : l.Nodup) :
    (l.filterMap f).Nodup ↔ ∀ a ∈ l, ∀ b ∈ l, a ≠ b → ∀ c, f a = some c → f b ≠ some c := by
  rw [List.Nodup, List.pairwise_filterMap]
  constructor
  · intro h a ha b hb hab c hc hc'
    have : Std.Symm fun a b => ∀ c, f a = some c → ∀ d, f b = some d → c ≠ d :=
      ⟨fun _ _ h c hc d hd he => h d hd c hc he.symm⟩
    exact h.forall ha hb hab c hc c hc' rfl
  · intro h
    refine hl.pairwise_of_forall_ne fun a ha b hb hab c hc d hd he => ?_
    exact h a ha b hb hab c hc (he ▸ hd)

namespace Session

variable {fs : FileTree} {s now : Session} {files : List Route} {p : Route} {table : Weights}
  {held : Holding} {directory : String} {patterns : Option (List String)}

def reported? (fs : FileTree) (s : Session) (p : Route) : Option String :=
  match fs.resolve p.text, s.alone fs p.text with
  | .ok k, .ok _ => some k.text
  | _, _ => none

theorem Faithful.filePath_of_alone (h : s.Faithful table held) {path : String} {k : Route}
    (hk : fs.resolve path = .ok k) {v : Survey} (hv : s.alone fs path = .ok v) :
    v.filePath = k.text := by
  rw [alone_resolved hk] at hv
  cases hl : s.cache.lookup k with
  | some r =>
    rw [known_of_lookup hl] at hv
    obtain ⟨bytes, tree, -, hr⟩ := h.isSurvey k r (mem_of_lookup hl)
    rw [← Except.ok.inj hv]
    exact Survey.filePath_of_ofSource hr
  | none =>
    rw [known_of_new hl, FileTree.survey] at hv
    split at hv
    · cases hv
    · exact Survey.filePath_of_ofSource hv

theorem Faithful.reported?_eq (h : s.Faithful table held) (fs : FileTree) (p : Route) :
    (s.alone fs p.text).toOption.map (·.filePath) = s.reported? fs p := by
  unfold reported?
  cases hk : fs.resolve p.text with
  | error f => simp [alone_refused hk, Except.toOption]
  | ok k =>
    cases hv : s.alone fs p.text with
    | error f => rfl
    | ok v => simp [Except.toOption, h.filePath_of_alone hk hv]

theorem Faithful.filePaths_eq (h : s.Faithful table held) {surveys : List Survey}
    (hs : surveys = files.filterMap fun p => (s.alone fs p.text).toOption) :
    surveys.map (·.filePath) = files.filterMap (s.reported? fs) := by
  rw [hs, List.map_filterMap]
  exact List.filterMap_congr fun p _ => h.reported?_eq fs p

theorem nodup_found (h : s.found fs directory patterns = .ok files) : files.Nodup := by
  obtain ⟨d, hd, rfl⟩ := exists_find_of_found h
  exact Discovery.nodup_files hd

/-- Files at the ends of straight paths are reported under these paths, so each at most once. -/
theorem nodup_reported (hn : files.Nodup) (hd : ∀ p ∈ files, fs.IsDirect p) :
    (files.filterMap (s.reported? fs)).Nodup := by
  have hr {p : Route} (hp : p ∈ files) {c : String} (hc : s.reported? fs p = some c) :
      p.text = c := by
    rw [reported?, FileTree.resolve_direct (hd p hp)] at hc
    split at hc
    next k _ he _ =>
      obtain rfl := Except.ok.inj he
      exact Option.some.inj hc
    · cases hc
  refine (nodup_filterMap_iff hn).2 fun p hp q hq hpq c hc hc' => hpq ?_
  exact Route.text_inj (hd p hp).isName (hd q hq).isName ((hr hp hc).trans (hr hq hc').symm)

theorem iterateDirectory_whole (hf : s.found fs directory patterns = .ok files) :
    ∃ t after, (s.iterateDirectory fs directory patterns none).1 = .ok t ∧
      LooksAt fs s files t after := by
  obtain ⟨t, hat, hl⟩ := iterateDirectory_found hf
  have h := hat.looksAt fs files files.length
  rw [through_all fs s files.length.lt_succ_self,
    ← stream_unlimited fs (Nat.le_refl _) t] at h
  exact ⟨_, _, congrArg Prod.fst (hl none), h⟩

/-- A whole batch, at once or result by result, reports files under what their paths resolve to. -/
theorem Faithful.batch_filePaths (h : s.Faithful table held)
    (hf : s.found fs directory patterns = .ok files)
    (hn : files.findSome? (fs.unresolved? ·.text) = none) (workers : Int) :
    ∃ batch t, (s.analyzeDirectory fs directory patterns workers).1 = .ok batch ∧
      (s.iterateDirectory fs directory patterns none).1 = .ok t ∧ t.raised = none ∧
      batch.results.map (·.survey.filePath) = files.filterMap (s.reported? fs) ∧
      t.yields.map (·.report.survey.filePath) = files.filterMap (s.reported? fs) := by
  obtain ⟨os, now, ha, hb⟩ := accounts_analyzeDirectory hf workers
  have hc := ha.conclude_eq
  rw [hn, ← hb] at hc
  obtain ⟨t, after, ht, hlooked⟩ := iterateDirectory_whole hf
  have hr := hlooked.raised_eq.trans hn
  refine ⟨_, t, hc, ht, hr, ?_, ?_⟩
  · rw [← h.filePaths_eq (ha.surveys_eq hn), List.map_map]
    rfl
  · rw [← h.filePaths_eq (hlooked.surveys_eq hr), List.map_map]
    rfl

end Session

namespace Bench

/-- In whatever state a session is, a batch fails as the search for its files or the first path that
cannot be resolved does. Else its results, at once or one by one, are reported under what the paths of
the files resolve to, in the order of the files. So no file is reported twice just when no two files
that are found and do not fail lead to the same path, which is so when all their paths go straight. -/
theorem results_told_apart (files : FileTree) (weights : Weights)
    (excluded : Option (List String)) (moves : List Move) (directory : String)
    (patterns : Option (List String)) (workers : Int) :
    let b := (start files weights excluded).run moves
    let fs := b.files
    let s := b.session
    let eager := (s.analyzeDirectory fs directory patterns workers).1
    let lazy := (s.iterateDirectory fs directory patterns none).1
    match s.found fs directory patterns with
    | .error f => eager = .error f ∧ lazy = .error f
    | .ok found =>
      match found.findSome? (fs.unresolved? ·.text) with
      | some f => eager = .error f ∧ ∃ t, lazy = .ok t ∧ t.raised = some f
      | none => ∃ batch t, eager = .ok batch ∧ lazy = .ok t ∧ t.raised = none ∧
        batch.results.map (·.survey.filePath) = found.filterMap (s.reported? fs) ∧
        t.yields.map (·.report.survey.filePath) = found.filterMap (s.reported? fs) ∧
        ((found.filterMap (s.reported? fs)).Nodup ↔
          ∀ p ∈ found, ∀ q ∈ found, p ≠ q →
            ∀ path, s.reported? fs p = some path → s.reported? fs q ≠ some path) ∧
        ((∀ p ∈ found, fs.IsDirect p) → (found.filterMap (s.reported? fs)).Nodup) := by
  intro b fs s eager lazy
  have h := faithful_run files weights excluded moves
  cases hf : s.found fs directory patterns with
  | error f =>
    exact ⟨congrArg Prod.fst (Session.analyzeDirectory_refused hf workers),
      congrArg Prod.fst (Session.iterateDirectory_refused hf none)⟩
  | ok found =>
    have hn := Session.nodup_found hf
    dsimp only
    cases hu : found.findSome? (fs.unresolved? ·.text) with
    | some f =>
      obtain ⟨os, now, ha, hb⟩ := Session.accounts_analyzeDirectory hf workers
      have hc := ha.conclude_eq
      rw [hu, ← hb] at hc
      obtain ⟨t, after, ht, hlooked⟩ := Session.iterateDirectory_whole hf
      exact ⟨hc, t, ht, hlooked.raised_eq.trans hu⟩
    | none =>
      obtain ⟨batch, t, hb, ht, hr, hbp, htp⟩ := h.batch_filePaths hf hu workers
      exact ⟨batch, t, hb, ht, hr, hbp, htp, nodup_filterMap_iff hn,
        Session.nodup_reported hn⟩

end Bench

namespace Session

/-- A link and the file it leads to are both found, and the file is reported for each of them. -/
theorem file_reported_twice :
    let s := Session.new [] none
    ∃ batch t, (s.analyzeDirectory twoNames "/" (some ["x.ts", "y.ts"]) 1).1 = .ok batch ∧
      (s.iterateDirectory twoNames "/" (some ["x.ts", "y.ts"]) none).1 = .ok t ∧
      t.raised = none ∧ batch.results.map (·.survey.filePath) = ["/x.ts", "/x.ts"] ∧
      t.yields.map (·.report.survey.filePath) = ["/x.ts", "/x.ts"] := by
  intro s
  have hn : filesOfTwoNames.findSome? (twoNames.unresolved? ·.text) = none := by decide +kernel
  have hr : filesOfTwoNames.filterMap (s.reported? twoNames) = ["/x.ts", "/x.ts"] := by
    decide +kernel
  have h := (Faithful.new [] none fun _ _ _ => True).batch_filePaths (found_twoNames s) hn 1
  rwa [hr] at h

end Session

end ComponentSurvey
