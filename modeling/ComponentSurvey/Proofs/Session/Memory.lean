import ComponentSurvey.Proofs.Session.Bench

/-!
What a session remembers. Every report it keeps is the survey of bytes that the file held at some
moment since the session was last told to forget, whatever was asked of it in between: batches that
are left half done, batches by several workers and changes of files included.
-/

set_option autoImplicit false

namespace ComponentSurvey

theorem Survey.filePath_of_ofSource {table : Weights} {path : String} {source : Source} {t : Tree}
    {v : Survey} (h : Survey.ofSource table path source t = .ok v) : v.filePath = path := by
  unfold ofSource at h
  cases hc : checkedTree path source t with
  | error f => simp [hc, Except.map] at h
  | ok root =>
    simp only [hc, Except.map, Except.ok.injEq] at h
    rw [← h]
    rfl

/-- What files held, by route: bytes and their tree. -/
abbrev Holding := Route → List UInt8 → Tree → Prop

def FileTree.Within (fs : FileTree) (held : Holding) : Prop :=
  ∀ k bytes tree, fs.read k = .ok (bytes, tree) → held k bytes tree

def Report.IsSurvey (table : Weights) (held : Holding) (k : Route) (r : Report) : Prop :=
  ∃ bytes tree, held k bytes tree ∧
    Survey.ofSource table k.text (Source.ofBytes bytes) tree = .ok r.survey

theorem Report.IsSurvey.mono {table : Weights} {held later : Holding} {k : Route} {r : Report}
    (h : r.IsSurvey table held k) (hl : ∀ k bytes tree, held k bytes tree → later k bytes tree) :
    r.IsSurvey table later k := by
  obtain ⟨bytes, tree, hh, hv⟩ := h
  exact ⟨bytes, tree, hl k bytes tree hh, hv⟩

namespace Session

/-- No key twice, and under each key a survey of something that the file at the key held. -/
structure Faithful (table : Weights) (held : Holding) (s : Session) : Prop where
  weights_eq : s.weights = table
  keys_nodup : (s.cache.map (·.1)).Nodup
  isSurvey : ∀ k r, (k, r) ∈ s.cache → r.IsSurvey table held k

variable {table : Weights} {held later : Holding} {fs : FileTree} {s s' : Session}

theorem Faithful.new (weights : Weights) (excluded : Option (List String)) (held : Holding) :
    (Session.new weights excluded).Faithful weights.completed held :=
  ⟨rfl, List.nodup_nil, by simp [Session.new]⟩

theorem Faithful.clear (h : s.Faithful table held) (later : Holding) :
    s.clear.Faithful table later :=
  ⟨h.weights_eq, List.nodup_nil, by simp [Session.clear]⟩

theorem Faithful.mono (h : s.Faithful table held)
    (hl : ∀ k bytes tree, held k bytes tree → later k bytes tree) : s.Faithful table later :=
  ⟨h.weights_eq, h.keys_nodup, fun k r hr => (h.isSurvey k r hr).mono hl⟩

/-- Only the table and the reports kept matter; the log and the next number do not. -/
theorem Faithful.congr (h : s.Faithful table held) (hw : s'.weights = s.weights)
    (hc : s'.cache = s.cache) : s'.Faithful table held :=
  ⟨hw.trans h.weights_eq, hc ▸ h.keys_nodup, fun k r hr => h.isSurvey k r (hc ▸ hr)⟩

/-- With no key twice, a kept report is the one found under its key. -/
theorem lookup_of_mem {cache : List (Route × Report)} (hn : (cache.map (·.1)).Nodup) {k : Route}
    {r : Report} (hr : (k, r) ∈ cache) : cache.lookup k = some r := lookup_of_nodup_keys hn hr

theorem not_mem_keys_of_lookup {cache : List (Route × Report)} {k : Route}
    (h : cache.lookup k = none) : k ∉ cache.map (·.1) := by
  intro hk
  obtain ⟨e, he, rfl⟩ := List.mem_map.1 hk
  have hne := List.lookup_eq_none_iff.1 h e he
  simp at hne

theorem nodup_keys_concat {cache : List (Route × Report)} (hn : (cache.map (·.1)).Nodup) {k : Route}
    (hl : cache.lookup k = none) (r : Report) : ((cache ++ [(k, r)]).map (·.1)).Nodup := by
  have hk := not_mem_keys_of_lookup hl
  rw [List.map_append, List.map_singleton]
  refine List.nodup_append.2 ⟨hn, by simp, fun a ha b hb hab => ?_⟩
  have he : a = k := hab.trans (List.mem_singleton.1 hb)
  exact hk (he ▸ ha)

theorem ask_session (fs : FileTree) (path : String) (s : Session) :
    (s.ask fs path).2.weights = s.weights ∧ (s.ask fs path).2.cache = s.cache := by
  unfold ask
  cases fs.resolve path with
  | error f => exact ⟨rfl, rfl⟩
  | ok k => cases hl : s.cache.lookup k <;> simp [hl, write]

theorem make_session (fs : FileTree) (k : Route) (s : Session) :
    (s.make fs k).2.weights = s.weights ∧ (s.make fs k).2.cache = s.cache := by
  unfold make
  cases fs.survey s.weights k <;> simp

theorem Faithful.isSurvey_of_make (h : s.Faithful table held) (hf : fs.Within held) {k : Route}
    {r : Report} (hr : (s.make fs k).1 = .ok r) : r.IsSurvey table held k := by
  unfold make FileTree.survey at hr
  cases hd : fs.read k with
  | error f => simp [hd] at hr
  | ok content =>
    obtain ⟨bytes, tree⟩ := content
    cases hv : Survey.ofSource s.weights k.text (Source.ofBytes bytes) tree with
    | error f => simp [hd, hv] at hr
    | ok v =>
      simp only [hd, hv, Except.ok.injEq] at hr
      subst hr
      exact ⟨bytes, tree, hf k bytes tree hd, by rw [← h.weights_eq, hv]⟩

theorem Faithful.keep (h : s.Faithful table held) {k : Route} {r : Report}
    (hr : r.IsSurvey table held k) : (s.keep k r).2.Faithful table held := by
  unfold Session.keep
  cases hl : s.cache.lookup k with
  | some earlier => exact h
  | none =>
    refine ⟨h.weights_eq, nodup_keys_concat h.keys_nodup hl r, fun k' r' hr' => ?_⟩
    simp only [List.mem_append, List.mem_singleton, Prod.mk.injEq] at hr'
    rcases hr' with hold | ⟨rfl, rfl⟩
    · exact h.isSurvey k' r' hold
    · exact hr

theorem analyzeFile_kept {path : String} {k : Route} {r : Report} (hk : fs.resolve path = .ok k)
    (hr : s.cache.lookup k = some r) : s.analyzeFile fs path = (.ok r, s) := by
  unfold Session.analyzeFile ask
  simp [hk, hr]

theorem analyzeFile_failed {path : String} {k : Route} {f : Failure}
    (hk : fs.resolve path = .ok k) (hn : s.cache.lookup k = none)
    (hf : fs.survey s.weights k = .error f) :
    s.analyzeFile fs path =
      (.error f, s.write .debug .analysis ("Analyzing " ++ k.text)) := by
  unfold Session.analyzeFile ask make
  simp [hk, hn, write, hf]

theorem analyzeFile_new {path : String} {k : Route} {v : Survey} (hk : fs.resolve path = .ok k)
    (hn : s.cache.lookup k = none) (hv : fs.survey s.weights k = .ok v) :
    s.analyzeFile fs path =
      (.ok ⟨s.nextSerial, v⟩,
        { s.write .debug .analysis ("Analyzing " ++ k.text) with
          cache := s.cache ++ [(k, ⟨s.nextSerial, v⟩)]
          nextSerial := s.nextSerial + 1 }) := by
  unfold Session.analyzeFile ask make Session.keep
  simp [hk, hn, write, hv]

theorem Faithful.analyzeFile (h : s.Faithful table held) (hf : fs.Within held) (path : String) :
    (s.analyzeFile fs path).2.Faithful table held := by
  have ha := h.congr (ask_session fs path s).1 (ask_session fs path s).2
  unfold Session.analyzeFile
  cases hq : s.ask fs path with
  | mk answer asked =>
    rw [hq] at ha
    cases answer with
    | refused f => exact ha
    | kept r => exact ha
    | unknown k =>
      have hm := ha.congr (make_session fs k asked).1 (make_session fs k asked).2
      have hr := fun r => ha.isSurvey_of_make hf (k := k) (r := r)
      cases hd : asked.make fs k with
      | mk result made =>
        rw [hd] at hm
        cases result with
        | error f => simpa [hd] using hm
        | ok r => simpa [hd] using hm.keep (hr r (by rw [hd]))

theorem noteOutcome_session (s : Session) (o : FileOutcome) :
    (s.noteOutcome o).weights = s.weights ∧ (s.noteOutcome o).cache = s.cache := by
  unfold Session.noteOutcome
  split
  · exact ⟨rfl, rfl⟩
  · split <;> exact ⟨rfl, rfl⟩

theorem Faithful.noteOutcome (h : s.Faithful table held) (o : FileOutcome) :
    (s.noteOutcome o).Faithful table held :=
  h.congr (noteOutcome_session s o).1 (noteOutcome_session s o).2

theorem Faithful.foldl_noteOutcome (h : s.Faithful table held) (os : List FileOutcome) :
    (os.foldl Session.noteOutcome s).Faithful table held := by
  induction os generalizing s with
  | nil => exact h
  | cons o os ih => exact ih (h.noteOutcome o)

theorem tryFile_eq (fs : FileTree) (path : Route) (s : Session) :
    s.tryFile fs path = (⟨path, (s.analyzeFile fs path.text).1⟩,
      (s.analyzeFile fs path.text).2.noteOutcome ⟨path, (s.analyzeFile fs path.text).1⟩) := by
  cases h : s.analyzeFile fs path.text
  simp [tryFile, h]

theorem Faithful.tryFile (h : s.Faithful table held) (hf : fs.Within held) (path : Route) :
    (s.tryFile fs path).2.Faithful table held := by
  simp only [tryFile_eq]
  exact (h.analyzeFile hf path.text).noteOutcome ⟨path, (s.analyzeFile fs path.text).1⟩

theorem Faithful.tryFiles (hf : fs.Within held) (paths : List Route) {s : Session}
    (h : s.Faithful table held) : (s.tryFiles fs paths).2.Faithful table held := by
  induction paths generalizing s with
  | nil => exact h
  | cons path paths ih =>
    have ht := h.tryFile hf path
    cases hr : s.tryFile fs path with
    | mk o after =>
      rw [hr] at ht
      simp only [Session.tryFiles, hr]
      split
      · exact ht
      · exact ih ht

theorem Faithful.stream (hf : fs.Within held) (paths : List Route) (limit : Option Nat)
    {s : Session} (h : s.Faithful table held) :
    (s.stream fs limit paths).2.Faithful table held := by
  induction paths generalizing s limit with
  | nil => simpa [Session.stream] using h
  | cons path paths ih =>
    have ht := h.tryFile hf path
    cases hr : s.tryFile fs path with
    | mk o after =>
      rw [hr] at ht
      obtain ⟨p, result⟩ := o
      cases result with
      | error f =>
        by_cases he : f.isExpected
        · rw [stream_failed hr he]
          exact ih limit ht
        · rw [stream_fatal hr he]
          exact ht
      | ok r =>
        rw [Session.stream, hr]
        obtain _ | _ | _ | n := limit
        · exact ih none ht
        · exact ht
        · exact ht
        · exact ih (some (n + 1)) ht

theorem conclude_session (os : List FileOutcome) (s : Session) :
    (s.conclude os).2.weights = s.weights ∧ (s.conclude os).2.cache = s.cache := by
  unfold conclude
  split <;> exact ⟨rfl, rfl⟩

theorem Faithful.conclude (h : s.Faithful table held) (os : List FileOutcome) :
    (s.conclude os).2.Faithful table held :=
  h.congr (conclude_session os s).1 (conclude_session os s).2

theorem find_session (fs : FileTree) (directory : String)
    (patterns excluded : Option (List String)) (s : Session) :
    (s.find fs directory patterns excluded).2.weights = s.weights ∧
      (s.find fs directory patterns excluded).2.cache = s.cache := by
  unfold Session.find
  split <;> exact ⟨rfl, rfl⟩

end Session

namespace Workshop

variable {table : Weights} {held : Holding} {w : Workshop}

structure Faithful (table : Weights) (held : Holding) (w : Workshop) : Prop where
  session : w.session.Faithful table held
  made : ∀ q ∈ w.requests, ∀ k r, q.stage = .made k r → r.IsSurvey table held k

theorem act_proceed_none {i : Nat} (h : w.requests[i]? = none) : w.act (.proceed i) = w := by
  simp [act, h]

theorem act_proceed_some {i : Nat} {q : Request} (h : w.requests[i]? = some q) :
    w.act (.proceed i) =
      { w with
        session := (q.proceed w.files w.session).2
        requests := w.requests.set i (q.proceed w.files w.session).1 } := by
  simp [act, h]

theorem files_proceed (w : Workshop) (i : Nat) : (w.act (.proceed i)).files = w.files := by
  cases hi : w.requests[i]? with
  | none => rw [act_proceed_none hi]
  | some q => rw [act_proceed_some hi]

theorem Faithful.request (h : w.Faithful table held) (hf : w.files.Within held) {q : Request}
    (hq : q ∈ w.requests) :
    (q.proceed w.files w.session).2.Faithful table held ∧
      ∀ k r, (q.proceed w.files w.session).1.stage = .made k r → r.IsSurvey table held k := by
  obtain ⟨path, stage⟩ := q
  cases stage with
  | asked =>
    have ha := Session.ask_session w.files path w.session
    have hc := h.session.congr ha.1 ha.2
    cases hr : w.session.ask w.files path with
    | mk answer asked =>
      rw [hr] at hc
      cases answer <;> simpa [Request.proceed, hr] using hc
  | unknown k =>
    have hm := Session.make_session w.files k w.session
    have hc := h.session.congr hm.1 hm.2
    have hv := fun r => h.session.isSurvey_of_make hf (k := k) (r := r)
    cases hr : w.session.make w.files k with
    | mk result made =>
      rw [hr] at hc hv
      cases result with
      | error f => simpa [Request.proceed, hr] using hc
      | ok r =>
        refine ⟨by simpa [Request.proceed, hr] using hc, fun k' r' he => ?_⟩
        simp only [Request.proceed, hr, Stage.made.injEq] at he
        obtain ⟨rfl, rfl⟩ := he
        exact hv r rfl
  | made k r => exact ⟨h.session.keep (h.made _ hq k r rfl), by simp [Request.proceed]⟩
  | done result => exact ⟨h.session, by simp [Request.proceed]⟩

theorem Faithful.proceed (h : w.Faithful table held) (hf : w.files.Within held) (i : Nat) :
    (w.act (.proceed i)).Faithful table held := by
  cases hi : w.requests[i]? with
  | none => rwa [act_proceed_none hi]
  | some q =>
    have hs := h.request hf (List.mem_of_getElem? hi)
    rw [act_proceed_some hi]
    refine ⟨hs.1, fun q' hq' k r he => ?_⟩
    rcases List.mem_or_eq_of_mem_set hq' with hold | rfl
    · exact h.made q' hold k r he
    · exact hs.2 k r he

theorem Faithful.run (hf : w.files.Within held) (h : w.Faithful table held) (order : List Nat) :
    (w.run (order.map .proceed)).Faithful table held := by
  induction order generalizing w with
  | nil => exact h
  | cons i order ih =>
    exact ih (by rw [files_proceed]; exact hf) (h.proceed hf i)

end Workshop

namespace Session

variable {table : Weights} {held : Holding} {fs : FileTree} {s : Session}

theorem Faithful.tryFilesBy (h : s.Faithful table held) (hf : fs.Within held) (order : List Nat)
    (paths : List Route) :
    (s.tryFilesBy (order.map .proceed) fs paths).2.Faithful table held := by
  have hw : (⟨fs, s, paths.map fun p => Request.new p.text⟩ : Workshop).Faithful table held := by
    refine ⟨h, fun q hq k r he => ?_⟩
    obtain ⟨p, -, rfl⟩ := List.mem_map.1 hq
    simp [Request.new] at he
  have hr := (hw.run hf order).session
  exact hr.foldl_noteOutcome _

theorem Faithful.find (h : s.Faithful table held) (fs : FileTree) (directory : String)
    (patterns excluded : Option (List String)) :
    (s.find fs directory patterns excluded).2.Faithful table held :=
  h.congr (find_session fs directory patterns excluded s).1
    (find_session fs directory patterns excluded s).2

theorem Faithful.analyzeDirectoryBy (h : s.Faithful table held) (hf : fs.Within held)
    (order : List Nat) (directory : String) (patterns : Option (List String)) :
    (s.analyzeDirectoryBy order fs directory patterns).2.Faithful table held := by
  have hd := h.find fs directory (some (patternsOf patterns)) s.excluded
  unfold Session.analyzeDirectoryBy
  cases hr : s.find fs directory (some (patternsOf patterns)) s.excluded with
  | mk found after =>
    rw [hr] at hd
    cases found with
    | error f => exact hd
    | ok paths =>
      refine Faithful.conclude (Faithful.tryFilesBy ?_ hf order paths) _
      exact hd.congr rfl rfl

theorem Faithful.analyzeDirectory (h : s.Faithful table held) (hf : fs.Within held)
    (directory : String) (patterns : Option (List String)) (workers : Int) :
    (s.analyzeDirectory fs directory patterns workers).2.Faithful table held := by
  have hd := h.find fs directory (some (patternsOf patterns)) s.excluded
  unfold Session.analyzeDirectory
  cases hr : s.find fs directory (some (patternsOf patterns)) s.excluded with
  | mk found after =>
    rw [hr] at hd
    cases found with
    | error f => exact hd
    | ok paths =>
      by_cases hw : 1 < workers
      · simp only [hw, if_true, Workshop.inTurn_eq]
        refine Faithful.conclude (Faithful.tryFilesBy ?_ hf _ paths) _
        exact hd.congr rfl rfl
      · simp only [hw, if_false]
        refine Faithful.conclude (Faithful.tryFiles hf paths ?_) _
        exact hd.congr rfl rfl

theorem Faithful.iterateDirectory (h : s.Faithful table held) (hf : fs.Within held)
    (directory : String) (patterns : Option (List String)) (limit : Option Nat) :
    (s.iterateDirectory fs directory patterns limit).2.Faithful table held := by
  have hd := h.find fs directory (some (patternsOf patterns)) s.excluded
  unfold Session.iterateDirectory
  cases hr : s.find fs directory (some (patternsOf patterns)) s.excluded with
  | mk found after =>
    rw [hr] at hd
    cases found with
    | error f => exact hd
    | ok paths => exact Faithful.stream hf paths limit hd

end Session

namespace Workspace

variable {table : Weights} {held : Holding} {w : Workspace}

theorem answer_snd {α : Type} (w : Workspace) (f : α → Answer) (r : Except Failure α × Session) :
    (w.answer f r).2 = { w with session := r.2 } := by
  obtain ⟨result, s⟩ := r
  cases result <;> rfl

theorem Faithful.step (h : w.session.Faithful table held) (hf : w.files.Within held)
    (o : Operation) : (w.step o).2.session.Faithful table held := by
  cases o with
  | write path entry => exact h
  | remove path => exact h
  | clear => exact h.clear held
  | file path => simpa [Workspace.step, answer_snd] using h.analyzeFile hf path
  | find path patterns excluded =>
    simpa [Workspace.step, answer_snd] using h.find w.files path patterns excluded
  | directory path patterns workers =>
    simpa [Workspace.step, answer_snd] using h.analyzeDirectory hf path patterns workers
  | iterate path patterns limit =>
    simpa [Workspace.step, answer_snd] using h.iterateDirectory hf path patterns limit
  | profile path patterns fresh =>
    cases fresh with
    | true =>
      simp only [Workspace.step, answer_snd, if_true]
      exact h.congr rfl rfl
    | false => simpa [Workspace.step, answer_snd] using h.analyzeDirectory hf path patterns 1

end Workspace

namespace Bench

variable {table : Weights} {held : Holding} {b : Bench} {moves : List Move}

theorem Faithful.step (h : b.session.Faithful table held) (hf : b.files.Within held) (m : Move) :
    (b.step m).session.Faithful table held := by
  cases m with
  | operation o => exact Workspace.Faithful.step h hf o
  | workers path patterns order => exact h.analyzeDirectoryBy hf order path patterns
  | begin path patterns =>
    have hd := h.find b.files path (some (Session.patternsOf patterns)) b.session.excluded
    cases hr : b.session.find b.files path (some (Session.patternsOf patterns))
        b.session.excluded with
    | mk found after =>
      rw [hr] at hd
      cases found <;> (simp only [Bench.step, hr]; exact hd)
  | next i =>
    cases hi : b.pending[i]? with
    | none => simpa [Bench.step, hi] using h
    | some paths =>
      simp only [Bench.step, hi]
      exact Session.Faithful.stream hf paths (some 1) h

/-- What files held at the moments of a run since the session was last told to forget. -/
def HeldSince (b : Bench) (moves : List Move) : Holding := fun k bytes tree =>
  ∃ before after, moves = before ++ after ∧ .operation .clear ∉ after ∧
    (b.run before).files.read k = .ok (bytes, tree)

theorem within_heldSince (b : Bench) (moves : List Move) :
    (b.run moves).files.Within (b.HeldSince moves) :=
  fun _ _ _ h => ⟨moves, [], by simp, by simp, h⟩

theorem heldSince_concat {m : Move} (hm : m ≠ .operation .clear) {k : Route} {bytes : List UInt8}
    {tree : Tree} (h : b.HeldSince moves k bytes tree) :
    b.HeldSince (moves ++ [m]) k bytes tree := by
  obtain ⟨before, after, rfl, hc, hr⟩ := h
  refine ⟨before, after ++ [m], by simp, ?_, hr⟩
  simp only [List.mem_append, List.mem_singleton, not_or]
  exact ⟨hc, fun he => hm he.symm⟩

theorem faithful_run (files : FileTree) (weights : Weights) (excluded : Option (List String))
    (moves : List Move) :
    ((start files weights excluded).run moves).session.Faithful weights.completed
      ((start files weights excluded).HeldSince moves) := by
  -- Induction on the last move: what it reads is held now, what was kept before stays held.
  induction hn : moves.length generalizing moves with
  | zero =>
    rw [List.length_eq_zero_iff.1 hn]
    exact Session.Faithful.new weights excluded _
  | succ n ih =>
    obtain ⟨earlier, m, rfl⟩ : ∃ earlier m, moves = earlier ++ [m] :=
      ⟨_, _, (List.dropLast_concat_getLast (List.ne_nil_of_length_eq_add_one hn)).symm⟩
    have h := ih earlier (by simpa using hn)
    rw [run_concat]
    by_cases hm : m = .operation .clear
    · subst hm
      exact h.clear _
    · refine (Faithful.step h (within_heldSince _ earlier) m).mono fun k bytes tree hh => ?_
      exact heldSince_concat hm hh

/-- After any run, what is remembered was surveyed since it was last cleared, and a request for a
file answers from what is remembered, or fails and remembers nothing, or remembers one report more. -/
theorem remembered_since_clear (files : FileTree) (weights : Weights)
    (excluded : Option (List String)) (moves : List Move) :
    let b := start files weights excluded
    let fs := (b.run moves).files
    let s := (b.run moves).session
    (∀ k r, (k, r) ∈ s.cache → r.survey.filePath = k.text ∧
      ∃ bytes tree, b.HeldSince moves k bytes tree ∧
        Survey.ofSource weights.completed k.text (Source.ofBytes bytes) tree = .ok r.survey) ∧
    ∀ path k, fs.resolve path = .ok k →
      (∀ r, (k, r) ∈ s.cache → s.analyzeFile fs path = (.ok r, s)) ∧
      (k ∉ s.cache.map (·.1) →
        (∀ f, fs.survey weights.completed k = .error f →
          (s.analyzeFile fs path).1 = .error f ∧ (s.analyzeFile fs path).2.cache = s.cache) ∧
        (∀ v, fs.survey weights.completed k = .ok v → ∃ r : Report, r.survey = v ∧
          (s.analyzeFile fs path).1 = .ok r ∧
          (s.analyzeFile fs path).2.cache = s.cache ++ [(k, r)])) := by
  intro b fs s
  have h := faithful_run files weights excluded moves
  refine ⟨fun k r hr => ?_, fun path k hk => ⟨fun r hr => ?_, fun hn => ?_⟩⟩
  · obtain ⟨bytes, tree, hh, hv⟩ := h.isSurvey k r hr
    exact ⟨Survey.filePath_of_ofSource hv, bytes, tree, hh, hv⟩
  · exact Session.analyzeFile_kept hk (Session.lookup_of_mem h.keys_nodup hr)
  · have hl : s.cache.lookup k = none := by
      refine List.lookup_eq_none_iff.2 fun e he => ?_
      simpa [bne_iff_ne] using fun hke : k = e.1 => hn (hke ▸ List.mem_map_of_mem he)
    refine ⟨fun f hf => ?_, fun v hv => ?_⟩
    · rw [← h.weights_eq] at hf
      simp [Session.analyzeFile_failed hk hl hf, Session.write]
    · rw [← h.weights_eq] at hv
      exact ⟨⟨s.nextSerial, v⟩, rfl, by simp [Session.analyzeFile_new hk hl hv]⟩

end Bench

end ComponentSurvey
