import ComponentSurvey.Proofs.Session.Isolation
import ComponentSurvey.Proofs.Session.Rereading

/-!
What is remembered cannot be told from the answers while no file changes. A session that forgets
before it looks at a file gives the same answers, over runs in which batches are left half done,
taken up again and done by several workers. The two are compared move by move.
-/

set_option autoImplicit false

namespace ComponentSurvey

namespace Session

variable {fs : FileTree} {table : Weights} {excluded : Option (List String)} {s t : Session}
  {files : List Route} {order : List Nat}

theorem Reads.write (h : s.Reads fs table excluded) (level : LogLevel) (origin : LogOrigin)
    (message : String) : (s.write level origin message).Reads fs table excluded :=
  ⟨h.faithful.congr rfl rfl, h.excluded_eq⟩

theorem Reads.alike (h : s.Reads fs table excluded) (ha : Alike s t) :
    t.Reads fs table excluded := by
  obtain ⟨log, rfl⟩ := ha
  exact ⟨h.faithful.congr rfl rfl, h.excluded_eq⟩

theorem found_congr (h : s.excluded = t.excluded) (fs : FileTree) (directory : String)
    (patterns : Option (List String)) :
    s.found fs directory patterns = t.found fs directory patterns := by
  rw [found, found, h]

theorem Reads.find (hs : s.Reads fs table excluded) (ht : t.Reads fs table excluded)
    (directory : String) (patterns exclusions : Option (List String)) :
    Match (Except.map id) fs table excluded (s.find fs directory patterns exclusions)
      (t.find fs directory patterns exclusions) := by
  unfold Session.find
  split
  · exact ⟨rfl, hs, ht⟩
  · exact ⟨rfl, hs.write _ _ _, ht.write _ _ _⟩

theorem Match.conclude {a b : List FileOutcome × Session}
    (h : Match (List.map FileOutcome.told) fs table excluded a b) :
    Match (Except.map Batch.told) fs table excluded (a.2.conclude a.1) (b.2.conclude b.1) := by
  have hf : a.1.findSome? FileOutcome.fatal? = b.1.findSome? FileOutcome.fatal? := by
    rw [FileOutcome.findSome?_fatal?, FileOutcome.findSome?_fatal?, h.view_eq]
  have hb : (Batch.ofOutcomes a.1).told = (Batch.ofOutcomes b.1).told := by
    rw [Batch.told_ofOutcomes, Batch.told_ofOutcomes, h.view_eq]
  unfold Session.conclude
  rw [hf]
  cases b.1.findSome? FileOutcome.fatal? with
  | some f => exact ⟨rfl, h.left, h.right⟩
  | none => exact ⟨congrArg Except.ok hb, h.left.write _ _ _, h.right.write _ _ _⟩

variable {directory : String} {patterns : Option (List String)}

theorem analyzeDirectory_eq_batchOf (s : Session) (workers : Int) :
    s.analyzeDirectory fs directory patterns workers =
      s.batchOf (fun paths s =>
        if 1 < workers then s.tryFilesBy (Workshop.inTurn paths.length) fs paths
        else s.tryFiles fs paths) fs directory patterns := rfl

theorem analyzeDirectoryBy_eq_batchOf (s : Session) (order : List Nat) :
    s.analyzeDirectoryBy order fs directory patterns =
      s.batchOf (tryFilesBy (order.map .proceed) fs) fs directory patterns := rfl

/-- Batches tell the same when looking at the files that are found tells the same. -/
theorem Reads.batchOf {look look' : List Route → Session → List FileOutcome × Session}
    (hs : s.Reads fs table excluded) (ht : t.Reads fs table excluded)
    (hl : ∀ files s' t', s.found fs directory patterns = .ok files →
      s'.Reads fs table excluded → t'.Reads fs table excluded →
      Match (List.map FileOutcome.told) fs table excluded (look files s') (look' files t')) :
    Match (Except.map Batch.told) fs table excluded (s.batchOf look fs directory patterns)
      (t.batchOf look' fs directory patterns) := by
  have he := found_congr (hs.excluded_eq.trans ht.excluded_eq.symm) fs directory patterns
  cases hf : s.found fs directory patterns with
  | error f =>
    rw [Session.batchOf, Session.batchOf, find_refused hf, find_refused (he ▸ hf)]
    exact ⟨rfl, hs, ht⟩
  | ok files =>
    obtain ⟨s', hs', has⟩ := find_found hf
    obtain ⟨t', ht', hat⟩ := find_found (he ▸ hf)
    have begins {u : Session} (hu : u.Reads fs table excluded) := hu.write .info .analysis
      ("Analyzing " ++ toString files.length ++ " files under " ++ directory)
    have hm := (hl files _ _ hf (begins (hs.alike has)) (begins (ht.alike hat))).conclude
    rw [Session.batchOf, Session.batchOf, hs', ht']
    exact hm

theorem Reads.analyzeDirectoryByAnew (hs : s.Reads fs table excluded)
    (ht : t.Reads fs table excluded)
    (hc : ∀ files, s.found fs directory patterns = .ok files →
      ∀ i < files.length, 3 ≤ order.count i) :
    Match (Except.map Batch.told) fs table excluded
      (s.analyzeDirectoryBy order fs directory patterns)
      (t.analyzeDirectoryByAnew order fs directory patterns) := by
  rw [analyzeDirectoryBy_eq_batchOf]
  exact hs.batchOf ht fun files _ _ hf hs' ht' => hs'.tryFilesByAnew ht' (hc files hf)

theorem Reads.analyzeDirectoryAnew (hs : s.Reads fs table excluded)
    (ht : t.Reads fs table excluded) (workers : Int) :
    Match (Except.map Batch.told) fs table excluded
      (s.analyzeDirectory fs directory patterns workers)
      (t.analyzeDirectoryAnew fs directory patterns workers) := by
  rw [analyzeDirectory_eq_batchOf]
  refine hs.batchOf ht fun files s' t' _ hs' ht' => ?_
  by_cases hw : 1 < workers
  · simp only [hw, if_true, Workshop.inTurn_eq]
    exact hs'.tryFilesByAnew ht' fun i hi => by simp [Workshop.count_turns, hi]
  · simp only [hw, if_false]
    exact hs'.tryFilesAnew files ht'

theorem Reads.iterateDirectoryAnew (hs : s.Reads fs table excluded)
    (ht : t.Reads fs table excluded) (limit : Option Nat) :
    Match (Except.map Stream.told) fs table excluded
      (s.iterateDirectory fs directory patterns limit)
      (t.iterateDirectoryAnew fs directory patterns limit) := by
  have he := found_congr (hs.excluded_eq.trans ht.excluded_eq.symm) fs directory patterns
  cases hf : s.found fs directory patterns with
  | error f =>
    rw [iterateDirectory, Session.iterateDirectoryAnew, find_refused hf, find_refused (he ▸ hf)]
    exact ⟨rfl, hs, ht⟩
  | ok files =>
    obtain ⟨s', hs', has⟩ := find_found hf
    obtain ⟨t', ht', hat⟩ := find_found (he ▸ hf)
    have hm := (hs.alike has).streamAnew files (ht.alike hat) limit
    rw [iterateDirectory, Session.iterateDirectoryAnew, hs', ht']
    exact ⟨congrArg Except.ok hm.view_eq, hm.left, hm.right⟩

theorem Reads.fresh (s : Session) (fs : FileTree) :
    s.fresh.Reads fs (Weights.completed []) none :=
  ⟨(Faithful.new [] none _).congr rfl rfl, rfl⟩

theorem Reads.inFreshSessionAnew (hs : s.Reads fs table excluded)
    (ht : t.Reads fs table excluded) :
    Match (Except.map Batch.told) fs table excluded (s.inFreshSession fs directory patterns)
      (t.inFreshSessionAnew fs directory patterns) := by
  have hm : Match (Except.map Batch.told) fs (Weights.completed []) none
      (s.fresh.analyzeDirectory fs directory patterns 1)
      (t.fresh.analyzeDirectoryAnew fs directory patterns 1) :=
    (Reads.fresh s fs).analyzeDirectoryAnew (Reads.fresh t fs) 1
  exact ⟨hm.view_eq, ⟨hs.faithful.congr rfl rfl, hs.excluded_eq⟩,
    ⟨ht.faithful.congr rfl rfl, ht.excluded_eq⟩⟩

end Session

def Operation.isQuery : Operation → Bool
  | .write .. | .remove .. => false
  | _ => true

def Move.isQuery : Move → Bool
  | .operation o => o.isQuery
  | _ => true

namespace Workspace

variable {fs : FileTree} {table : Weights} {excluded : Option (List String)} {w w' : Workspace}
  {o : Operation}

theorem files_step (ho : o.isQuery) (w : Workspace) : (w.step o).2.files = w.files := by
  cases o with
  | write path entry => cases ho
  | remove path => cases ho
  | clear => rfl
  | _ => simp only [Workspace.step, answer_snd]

theorem files_stepAnew (ho : o.isQuery) (w : Workspace) : (w.stepAnew o).2.files = w.files := by
  cases o with
  | write path entry => cases ho
  | remove path => cases ho
  | clear => rfl
  | _ => simp only [Workspace.stepAnew, Workspace.step, answer_snd]

def answered (r : Answer × Workspace) : Answer × Session := (r.1, r.2.session)

theorem match_answer {α β : Type} {view : α → β} {f : α → Answer}
    {r r' : Except Failure α × Session}
    (hf : ∀ x y, view x = view y → (f x).content = (f y).content)
    (h : Session.Match (Except.map view) fs table excluded r r') :
    Session.Match Answer.content fs table excluded (answered (w.answer f r))
      (answered (w'.answer f r')) := by
  obtain ⟨result, s⟩ := r
  obtain ⟨result', s'⟩ := r'
  refine ⟨?_, by simpa [answered, answer_snd] using h.left,
    by simpa [answered, answer_snd] using h.right⟩
  have hv := h.view_eq
  cases result with
  | error e =>
    cases result' with
    | error e' => rw [Except.error.inj hv]; rfl
    | ok y => cases hv
  | ok x =>
    cases result' with
    | error e' => cases hv
    | ok y => exact hf x y (Except.ok.inj hv)

theorem content_report (w : Workspace) (r : Except Failure Report × Session) :
    (w.answer .report r).1.content = .ofFile (r.1.map (·.survey)) := by
  obtain ⟨result, s⟩ := r
  cases result <;> rfl

theorem content_batch {b c : Batch} (h : b.told = c.told) :
    (Answer.batch b).content = (Answer.batch c).content := by
  obtain ⟨hs, hf⟩ := Prod.mk.inj h
  rw [Answer.content, Answer.content, hs, hf]

theorem content_profile {b c : Batch} (h : b.told = c.told) :
    (Answer.profile b).content = (Answer.profile c).content := by
  -- The counts are read off the surveys.
  have hc (b : Batch) : (Answer.profile b).content =
      .profile b.told.1.length (b.told.1.flatMap (·.components)).length
        (b.told.1.flatMap (·.functions)).length b.told.1 b.told.2 := by
    simp [Answer.content, Batch.told, Batch.surveys, Batch.componentCount, Batch.functionCount,
      List.flatMap_map]
  rw [hc, hc, h]

theorem content_ofStream {t u : Stream} (h : t.told = u.told) :
    (Answer.ofStream t).content = (Answer.ofStream u).content := by
  obtain ⟨hs, hr⟩ := Prod.mk.inj h
  obtain ⟨hf, hr⟩ := Prod.mk.inj hr
  unfold Answer.ofStream
  rw [hr]
  cases u.raised with
  | some f => rfl
  | none => rw [Answer.content, Answer.content, hs, hf, hr]

theorem match_step (hw : w.files = fs) (hw' : w'.files = fs)
    (hs : w.session.Reads fs table excluded) (ht : w'.session.Reads fs table excluded)
    (ho : o.isQuery) :
    Session.Match Answer.content fs table excluded (answered (w.step o))
      (answered (w'.stepAnew o)) := by
  subst hw
  cases o with
  | write path entry => cases ho
  | remove path => cases ho
  | clear => exact ⟨rfl, hs.clear, ht.clear⟩
  | file path =>
    simp only [Workspace.step, Workspace.stepAnew, hw']
    exact match_answer (fun _ _ => congrArg Answer.Content.survey) (hs.analyzeFileAnew ht path)
  | find path patterns excluded' =>
    simp only [Workspace.step, Workspace.stepAnew, hw']
    exact match_answer (fun _ _ => congrArg Answer.Content.files)
      (hs.find ht path patterns excluded')
  | directory path patterns workers =>
    simp only [Workspace.step, Workspace.stepAnew, hw']
    exact match_answer (fun _ _ => content_batch) (hs.analyzeDirectoryAnew ht workers)
  | iterate path patterns limit =>
    simp only [Workspace.step, Workspace.stepAnew, hw']
    exact match_answer (fun _ _ => content_ofStream) (hs.iterateDirectoryAnew ht limit)
  | profile path patterns fresh =>
    simp only [Workspace.step, Workspace.stepAnew, hw']
    cases fresh with
    | true => exact match_answer (fun _ _ => content_profile) (hs.inFreshSessionAnew ht)
    | false => exact match_answer (fun _ _ => content_profile) (hs.analyzeDirectoryAnew ht 1)

end Workspace

def Move.EnoughTurns (fs : FileTree) (s : Session) : Move → Prop
  | .workers path patterns order =>
    ∀ files, s.found fs path patterns = .ok files → ∀ i < files.length, 3 ≤ order.count i
  | _ => True

theorem Move.EnoughTurns.congr {fs : FileTree} {s t : Session} {m : Move}
    (h : m.EnoughTurns fs s) (he : s.excluded = t.excluded) : m.EnoughTurns fs t := by
  cases m with
  | workers path patterns order =>
    intro files hf
    exact h files ((Session.found_congr he fs path patterns).trans hf)
  | _ => trivial

theorem Stream.left_congr {t u : Stream} (h : t.told = u.told) (paths : List Route) :
    t.left paths = u.left paths := by
  obtain ⟨hs, hr⟩ := Prod.mk.inj h
  obtain ⟨hf, hr⟩ := Prod.mk.inj hr
  have hn := congrArg List.length hs
  rw [surveys, surveys, List.length_map, List.length_map] at hn
  rw [left, left, hr, hf, hn]

namespace Bench

variable {fs : FileTree} {table : Weights} {excluded : Option (List String)} {b c : Bench}
  {m : Move}

/-- Two benches with the same files and the same batches begun, whose sessions both read the
files. -/
structure Match (fs : FileTree) (table : Weights) (excluded : Option (List String)) (b c : Bench) :
    Prop where
  files_eq : b.files = fs
  files_eq' : c.files = fs
  pending_eq : b.pending = c.pending
  left : b.session.Reads fs table excluded
  right : c.session.Reads fs table excluded

theorem Match.withSession (h : Match fs table excluded b c) {s t : Session}
    (hs : s.Reads fs table excluded) (ht : t.Reads fs table excluded) :
    Match fs table excluded (b.withSession s) (c.withSession t) :=
  ⟨h.files_eq, h.files_eq', h.pending_eq, hs, ht⟩

theorem Match.next (h : Match fs table excluded b c) (i : Nat) :
    (b.reply (.next i)).content = (c.serveAnew (.next i)).1.content ∧
      Match fs table excluded (b.step (.next i)) (c.serveAnew (.next i)).2 := by
  cases hi : b.pending[i]? with
  | none =>
    have hi' : c.pending[i]? = none := h.pending_eq ▸ hi
    simp only [reply, step, serveAnew, hi, hi']
    exact ⟨trivial, h⟩
  | some paths =>
    have hi' : c.pending[i]? = some paths := h.pending_eq ▸ hi
    have hm := h.left.streamAnew paths h.right (some 1)
    simp only [reply, step, serveAnew, hi, hi', h.files_eq, h.files_eq']
    obtain ⟨hs, hr⟩ := Prod.mk.inj hm.view_eq
    obtain ⟨hf, hr⟩ := Prod.mk.inj hr
    refine ⟨by simp only [Answer.content, hs, hf, hr], h.files_eq, h.files_eq', ?_, hm.left,
      hm.right⟩
    rw [h.pending_eq, Stream.left_congr hm.view_eq]

theorem Match.begin (h : Match fs table excluded b c) (path : String)
    (patterns : Option (List String)) :
    (b.reply (.begin path patterns)).content = (c.serveAnew (.begin path patterns)).1.content ∧
      Match fs table excluded (b.step (.begin path patterns))
        (c.serveAnew (.begin path patterns)).2 := by
  have he : b.session.excluded = c.session.excluded :=
    h.left.excluded_eq.trans h.right.excluded_eq.symm
  have he := Session.found_congr he fs path patterns
  simp only [serveAnew, reply, step, h.files_eq, h.files_eq']
  cases hf : b.session.found fs path patterns with
  | error f =>
    simp only [Session.find_refused hf, Session.find_refused (he ▸ hf)]
    exact ⟨rfl, h.withSession h.left h.right⟩
  | ok files =>
    obtain ⟨s, hs, has⟩ := Session.find_found hf
    obtain ⟨t, ht, hat⟩ := Session.find_found (he ▸ hf)
    simp only [hs, ht, h.pending_eq]
    exact ⟨rfl, h.files_eq, h.files_eq', rfl, h.left.alike has, h.right.alike hat⟩

/-- One move: the same is answered, and what is there to go on with is the same. -/
theorem Match.serve (h : Match fs table excluded b c) (hm : m.isQuery)
    (ht : m.EnoughTurns fs b.session) :
    (b.reply m).content = (c.serveAnew m).1.content ∧
      Match fs table excluded (b.step m) (c.serveAnew m).2 := by
  cases m with
  | operation o =>
    have ha := Workspace.match_step h.files_eq h.files_eq' h.left h.right hm
    exact ⟨ha.view_eq, (Workspace.files_step hm b.workspace).trans h.files_eq,
      (Workspace.files_stepAnew hm c.workspace).trans h.files_eq', h.pending_eq, ha.left,
      ha.right⟩
  | workers path patterns order =>
    have hd := h.left.analyzeDirectoryByAnew h.right ht
    simp only [reply, serveAnew, step, h.files_eq, h.files_eq']
    refine ⟨(Workspace.match_answer (fun _ _ => Workspace.content_batch) hd).view_eq, ?_⟩
    rw [Workspace.answer_snd]
    exact h.withSession hd.left hd.right
  | begin path patterns => exact h.begin path patterns
  | next i => exact h.next i

/-- A whole run: the same answers in the same order, and in the end the same to go on with. -/
theorem Match.run {moves : List Move} (h : Match fs table excluded b c)
    (hm : ∀ m ∈ moves, m.isQuery) (ht : ∀ m ∈ moves, m.EnoughTurns fs b.session) :
    (b.answers moves).map Answer.content = (c.answersAnew moves).map Answer.content ∧
      ∃ d, Match fs table excluded (b.run moves) d := by
  -- Each move starts from what the moves before it left on the two benches.
  induction moves generalizing b c with
  | nil => exact ⟨rfl, c, h⟩
  | cons m moves ih =>
    obtain ⟨hm₁, hm₂⟩ := List.forall_mem_cons.1 hm
    obtain ⟨ht₁, ht₂⟩ := List.forall_mem_cons.1 ht
    obtain ⟨ha, hs⟩ := h.serve hm₁ ht₁
    have he : b.session.excluded = (b.step m).session.excluded :=
      h.left.excluded_eq.trans hs.left.excluded_eq.symm
    obtain ⟨hrest, hend⟩ := ih hs hm₂ fun m' hm' => (ht₂ m' hm').congr he
    refine ⟨?_, hend⟩
    rw [Bench.answers, Bench.answersAnew, List.map_cons, List.map_cons, ha, hrest]

theorem Match.start (files : FileTree) (weights : Weights) (excluded : Option (List String)) :
    Match files weights.completed excluded (start files weights excluded)
      (start files weights excluded) :=
  have h : (Session.new weights excluded).Reads files weights.completed excluded :=
    ⟨.new weights excluded _, rfl⟩
  ⟨rfl, rfl, rfl, h, h⟩

theorem Match.content_file (h : Match fs table excluded b c) (path : String) :
    (b.reply (.operation (.file path))).content = .ofFile (fs.surveyAt table path) := by
  have hv := (h.left.analyzeFile path).1
  have hf : b.workspace.files = fs := h.files_eq
  simp only [reply, Workspace.step, hf]
  rw [Workspace.content_report, ← hv]
  rfl

/-- Whatever is asked while no file changes, the answers say the same as those of a session that
forgets before it looks at a file, in whichever order workers take their steps. A file that is asked
for is answered with what the files give, a survey or a failure, and so is every other path that
leads to it. -/
theorem answers_without_memory (files : FileTree) (weights : Weights)
    (excluded : Option (List String)) (moves : List Move) (hm : ∀ m ∈ moves, m.isQuery)
    (ht : ∀ m ∈ moves, m.EnoughTurns files (Session.new weights excluded)) :
    let b := start files weights excluded
    let asked path := ((b.run moves).reply (.operation (.file path))).content
    (b.answers moves).map Answer.content = (b.answersAnew moves).map Answer.content ∧
      (∀ path, asked path = .ofFile (files.surveyAt weights.completed path)) ∧
      ∀ path path', files.resolve path = files.resolve path' → asked path = asked path' := by
  intro b asked
  obtain ⟨ha, d, hd⟩ := (Match.start files weights excluded).run hm ht
  refine ⟨ha, hd.content_file, fun path path' hp => ?_⟩
  rw [show asked path = _ from hd.content_file path,
    show asked path' = _ from hd.content_file path', FileTree.surveyAt, FileTree.surveyAt, hp]

/-- A file under two names is asked for, left to two workers, asked for result by result, forgotten
in between and profiled. -/
theorem answers_without_memory_of_two_names :
    let s := Session.new [] none
    let patterns := some ["x.ts", "y.ts"]
    let moves : List Move := [.operation (.file "x.ts"), .workers "/" patterns [0, 1, 0, 1, 0, 1],
      .begin "/" patterns, .next 0, .operation .clear, .operation (.file "z.ts"), .next 0,
      .operation (.profile "/" patterns false)]
    (∀ m ∈ moves, m.isQuery) ∧ (∀ m ∈ moves, m.EnoughTurns Session.twoNames s) ∧
      let b := start Session.twoNames [] none
      let asked path := ((b.run moves).reply (.operation (.file path))).content
      (b.answers moves).map Answer.content = (b.answersAnew moves).map Answer.content ∧
        asked "x.ts" = asked "y.ts" := by
  intro s patterns moves
  have hm : ∀ m ∈ moves, m.isQuery := by decide
  have ht : ∀ m ∈ moves, m.EnoughTurns Session.twoNames s := by
    simp only [moves, List.forall_mem_cons, Move.EnoughTurns, List.not_mem_nil, false_imp_iff,
      implies_true, and_true, true_and]
    intro files hf
    rw [Session.found_twoNames s, Except.ok.injEq] at hf
    subst hf
    decide
  have h := answers_without_memory Session.twoNames [] none moves hm ht
  exact ⟨hm, ht, h.1, h.2.2 "x.ts" "y.ts" (by decide +kernel)⟩

end Bench

end ComponentSurvey
