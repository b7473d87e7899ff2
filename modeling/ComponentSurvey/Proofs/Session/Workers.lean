import ComponentSurvey.Proofs.Session.Settlement

/-!
Batches by several workers. Whatever the order of their steps, a request that has come to its end has
answered with what its file gives alone, and with the report that is kept, even when two workers have
surveyed one file at the same time.
-/

set_option autoImplicit false

namespace ComponentSurvey

namespace Request

def stepsLeft (q : Request) : Nat :=
  match q.stage with
  | .asked => 3
  | .unknown _ => 2
  | .made _ _ => 1
  | .done _ => 0

/-- What is right about a request in each of its stages; `s` is the session in which the batch began
and `now` the present one. -/
def Sound (fs : FileTree) (s now : Session) (q : Request) : Prop :=
  match q.stage with
  | .asked => True
  | .unknown k => fs.resolve q.path = .ok k ∧ s.cache.lookup k = none
  | .made k r => fs.resolve q.path = .ok k ∧ fs.survey s.weights k = .ok r.survey
  | .done result => s.Settles fs now q.path result

variable {fs : FileTree} {paths : List Route} {s now later : Session}
  {added : List (Route × Report)} {q : Request}

theorem proceed_made (fs : FileTree) (path : String) (k : Route) (r : Report) (s : Session) :
    Request.proceed fs ⟨path, .made k r⟩ s =
      (⟨path, .done (.ok (s.keep k r).1)⟩, (s.keep k r).2) := rfl

theorem path_proceed (fs : FileTree) (q : Request) (s : Session) :
    (q.proceed fs s).1.path = q.path := by
  unfold proceed
  split
  · split <;> rfl
  · split <;> rfl
  · rfl
  · rfl

theorem stepsLeft_proceed (fs : FileTree) (q : Request) (s : Session) :
    (q.proceed fs s).1.stepsLeft ≤ q.stepsLeft - 1 := by
  obtain ⟨path, stage⟩ := q
  cases stage with
  | asked =>
    cases h : s.ask fs path with
    | mk answer asked => cases answer <;> simp [proceed, stepsLeft, h]
  | unknown k =>
    cases h : s.make fs k with
    | mk result made => cases result <;> simp [proceed, stepsLeft, h]
  | made k r => simp [proceed, stepsLeft]
  | done result => simp [proceed, stepsLeft]

theorem isSome_result?_iff (q : Request) : q.result?.isSome ↔ q.stepsLeft = 0 := by
  obtain ⟨path, stage⟩ := q
  cases stage <;> simp [result?, stepsLeft]

theorem Sound.mono (h : q.Sound fs s now) (hc : now.cache <+: later.cache) :
    q.Sound fs s later := by
  obtain ⟨path, stage⟩ := q
  cases stage with
  | done result => exact Session.Settles.mono h hc
  | _ => exact h

theorem Sound.settles (h : q.Sound fs s now) {result : Except Failure Report}
    (hr : q.result? = some result) : s.Settles fs now q.path result := by
  obtain ⟨path, stage⟩ := q
  cases stage with
  | done answer =>
    cases hr
    exact h
  | _ => cases hr

theorem Sound.proceed (h : q.Sound fs s now) (hg : s.Grown fs paths added now)
    (hp : ∃ p ∈ paths, p.text = q.path) :
    (∃ more, s.Grown fs paths more (q.proceed fs now).2) ∧
      now.cache <+: (q.proceed fs now).2.cache ∧
      (q.proceed fs now).1.Sound fs s (q.proceed fs now).2 := by
  obtain ⟨path, stage⟩ := q
  obtain ⟨p, hm, rfl⟩ := hp
  have ha := hg.alone_eq p.text
  cases stage with
  | asked =>
    cases hk : fs.resolve p.text with
    | error f =>
      simp only [Request.proceed, Session.ask_refused hk]
      exact ⟨⟨added, hg⟩, List.prefix_rfl, (Session.alone_refused hk).symm, by simp⟩
    | ok k =>
      cases hl : now.cache.lookup k with
      | some r =>
        simp only [Request.proceed, Session.ask_kept hk hl]
        refine ⟨⟨added, hg⟩, List.prefix_rfl, ?_, fun r' hr' => ?_⟩
        · rw [← ha, Session.alone_resolved hk, Session.known_of_lookup hl]
          rfl
        · cases hr'
          rw [Session.reportOf?_resolved hk, hl]
      | none =>
        have hs := hg.lookup_eq k
        rw [hl, eq_comm, Option.or_eq_none_iff] at hs
        simp only [Request.proceed, Session.ask_unknown hk hl]
        exact ⟨⟨added, hg.congr rfl rfl⟩, List.prefix_rfl, hk, hs.1⟩
  | unknown k =>
    obtain ⟨hk, hl⟩ := h
    cases hv : fs.survey s.weights k with
    | error f =>
      simp only [Request.proceed, Session.make_failed (hg.weights_eq ▸ hv)]
      refine ⟨⟨added, hg⟩, List.prefix_rfl, ?_, by simp⟩
      rw [Session.alone_resolved hk, Session.known_of_new hl, hv]
      rfl
    | ok v =>
      simp only [Request.proceed, Session.make_new (hg.weights_eq ▸ hv)]
      exact ⟨⟨added, hg.congr rfl rfl⟩, List.prefix_rfl, hk, hv⟩
  | made k r =>
    obtain ⟨hk, hv⟩ : fs.resolve p.text = .ok k ∧ fs.survey s.weights k = .ok r.survey := h
    obtain ⟨more, hmore⟩ := hg.keep hv ⟨p, hm, hk⟩
    have hl := Session.lookup_keep now k r
    rw [proceed_made]
    refine ⟨⟨more, hmore⟩, Session.cache_prefix_keep now k r, ?_, fun r' hr' => ?_⟩
    · rw [Session.alone_resolved hk, ← hmore.known_eq, Session.known_of_lookup hl]
      rfl
    · cases hr'
      rw [Session.reportOf?_resolved hk]
      exact hl
  | done result => exact ⟨⟨added, hg⟩, List.prefix_rfl, h⟩

end Request

namespace Workshop

def opened (fs : FileTree) (s : Session) (paths : List Route) : Workshop :=
  ⟨fs, s, paths.map fun p => Request.new p.text⟩

/-- A workshop at work on a batch that was opened in the session `s`. -/
structure Serves (fs : FileTree) (paths : List Route) (s : Session) (w : Workshop) : Prop where
  files_eq : w.files = fs
  grown : ∃ added, s.Grown fs paths added w.session
  paths_eq : w.requests.map (·.path) = paths.map (·.text)
  sound : ∀ q ∈ w.requests, q.Sound fs s w.session

variable {fs : FileTree} {paths : List Route} {s : Session} {w : Workshop}

theorem Serves.opened {t : Session} {added : List (Route × Report)}
    (hg : s.Grown fs paths added t) : (opened fs t paths).Serves fs paths s := by
  refine ⟨rfl, ⟨added, hg⟩, ?_, fun q hq => ?_⟩
  · simp [Workshop.opened, Request.new]
  · obtain ⟨p, -, rfl⟩ := List.mem_map.1 hq
    trivial

theorem paths_proceed (w : Workshop) (i : Nat) :
    (w.act (.proceed i)).requests.map (·.path) = w.requests.map (·.path) := by
  cases hi : w.requests[i]? with
  | none => rw [act_proceed_none hi]
  | some q =>
    rw [act_proceed_some hi, List.map_set, Request.path_proceed]
    refine List.ext_getElem? fun j => ?_
    rw [List.getElem?_set]
    split
    · subst j
      obtain ⟨hl, rfl⟩ := List.getElem?_eq_some_iff.1 hi
      simp [hl]
    · rfl

theorem Serves.proceed (h : w.Serves fs paths s) (i : Nat) :
    (w.act (.proceed i)).Serves fs paths s := by
  have hp := (paths_proceed w i).trans h.paths_eq
  have hf := (files_proceed w i).trans h.files_eq
  cases hi : w.requests[i]? with
  | none => rwa [act_proceed_none hi]
  | some q =>
    have hq := List.mem_of_getElem? hi
    obtain ⟨added, hg⟩ := h.grown
    have hpath : ∃ p ∈ paths, p.text = q.path :=
      List.mem_map.1 (h.paths_eq ▸ List.mem_map_of_mem hq)
    obtain ⟨hg', hc, hs⟩ := (h.sound q hq).proceed hg hpath
    rw [act_proceed_some hi] at hp hf ⊢
    rw [h.files_eq] at hp hf ⊢
    refine ⟨hf, hg', hp, fun q' hq' => ?_⟩
    rcases List.mem_or_eq_of_mem_set hq' with hold | rfl
    · exact (h.sound q' hold).mono hc
    · exact hs

theorem Serves.run (h : w.Serves fs paths s) (order : List Nat) :
    (w.run (order.map .proceed)).Serves fs paths s := by
  induction order generalizing w with
  | nil => exact h
  | cons i order ih => exact ih (h.proceed i)

def Finished (w : Workshop) : Prop := ∀ q ∈ w.requests, q.result?.isSome

def outcomes (paths : List Route) (w : Workshop) : List FileOutcome :=
  (paths.zip w.requests).filterMap fun (p, q) => Session.outcomeOf? p q

theorem paths_zip_requests {paths : List Route} {qs : List Request}
    (hp : qs.map (·.path) = paths.map (·.text)) (hd : ∀ q ∈ qs, q.result?.isSome) :
    ((paths.zip qs).filterMap fun (p, q) => Session.outcomeOf? p q).map (·.path) = paths := by
  induction paths generalizing qs with
  | nil => rfl
  | cons p paths ih =>
    cases qs with
    | nil => simp at hp
    | cons q qs =>
      rw [List.map_cons, List.map_cons, List.cons.injEq] at hp
      obtain ⟨result, hr⟩ := Option.isSome_iff_exists.1 (hd q List.mem_cons_self)
      have ht := ih hp.2 fun q' hq' => hd q' (List.mem_cons_of_mem q hq')
      simpa [Session.outcomeOf?, hr] using ht

theorem request_of_mem_zip {paths : List Route} {qs : List Request}
    (hp : qs.map (·.path) = paths.map (·.text)) {p : Route} {q : Request}
    (hm : (p, q) ∈ paths.zip qs) : q ∈ qs ∧ q.path = p.text := by
  obtain ⟨i, hi, he⟩ := List.mem_iff_getElem.1 hm
  rw [List.getElem_zip, Prod.mk.injEq] at he
  obtain ⟨rfl, rfl⟩ := he
  have hg := List.getElem_of_eq hp (i := i) (by simp at hi ⊢; omega)
  exact ⟨List.getElem_mem _, by simpa using hg⟩

theorem Serves.accounts (h : w.Serves fs paths s) (hd : w.Finished) :
    s.Accounts fs paths w.session paths (w.outcomes paths) := by
  refine .of_paths_eq h.grown (fun o ho => ?_) (paths_zip_requests h.paths_eq hd)
  obtain ⟨⟨p, q⟩, hm, hq⟩ := List.mem_filterMap.1 ho
  obtain ⟨hmem, hpath⟩ := request_of_mem_zip h.paths_eq hm
  obtain ⟨result, hr, rfl⟩ := Option.map_eq_some_iff.1 hq
  have hs := (h.sound q hmem).settles hr
  rwa [hpath] at hs

theorem stepsLeft_act (w : Workshop) (i j : Nat) {q : Request} (hj : w.requests[j]? = some q) :
    ∃ q', (w.act (.proceed i)).requests[j]? = some q' ∧
      q'.stepsLeft ≤ q.stepsLeft - if i = j then 1 else 0 := by
  cases hi : w.requests[i]? with
  | none =>
    have hne : i ≠ j := fun he => by simp [he, hj] at hi
    rw [act_proceed_none hi]
    exact ⟨q, hj, by simp [hne]⟩
  | some q₀ =>
    rw [act_proceed_some hi, List.getElem?_set]
    by_cases he : i = j
    · subst he
      obtain rfl : q₀ = q := Option.some.inj (hi.symm.trans hj)
      have hl := (List.getElem?_eq_some_iff.1 hi).1
      exact ⟨(q₀.proceed w.files w.session).1, by simp [hl], by
        simpa using Request.stepsLeft_proceed w.files q₀ w.session⟩
    · exact ⟨q, by simp [he, hj], by simp [he]⟩

/-- Turns that are given to one request at a time: no request comes or goes, and the one whose turn it
is has a step less to take. -/
structure Advances (turn : Workshop → Nat → Workshop) : Prop where
  length_eq : ∀ w i, (turn w i).requests.length = w.requests.length
  stepsLeft : ∀ w i j (q : Request), w.requests[j]? = some q →
    ∃ q', (turn w i).requests[j]? = some q' ∧
      q'.stepsLeft ≤ q.stepsLeft - if i = j then 1 else 0

theorem advances_act : Advances fun w i => w.act (.proceed i) where
  length_eq w i := by simpa using congrArg List.length (paths_proceed w i)
  stepsLeft w i j q hj := stepsLeft_act w i j hj

section Advances

variable {turn : Workshop → Nat → Workshop} (h : Advances turn)
include h

/-- A request has no step left when it has been its turn often enough. -/
theorem Advances.stepsLeft_foldl (w : Workshop) (order : List Nat) (j : Nat) {q : Request}
    (hj : w.requests[j]? = some q) :
    ∃ q', (order.foldl turn w).requests[j]? = some q' ∧
      q'.stepsLeft ≤ q.stepsLeft - order.count j := by
  induction order generalizing w q with
  | nil => exact ⟨q, hj, by simp⟩
  | cons i order ih =>
    obtain ⟨q₁, hq₁, hl₁⟩ := h.stepsLeft w i j q hj
    obtain ⟨q₂, hq₂, hl₂⟩ := ih (turn w i) hq₁
    refine ⟨q₂, hq₂, ?_⟩
    rw [List.count_cons]
    by_cases he : i = j
    · rw [if_pos he] at hl₁
      rw [if_pos (beq_iff_eq.2 he)]
      omega
    · rw [if_neg he] at hl₁
      rw [if_neg (by simpa using he)]
      omega

theorem Advances.length_foldl (w : Workshop) (order : List Nat) :
    (order.foldl turn w).requests.length = w.requests.length := by
  induction order generalizing w with
  | nil => rfl
  | cons i order ih => exact (ih (turn w i)).trans (h.length_eq w i)

theorem Advances.finished {order : List Nat}
    (hc : ∀ j < w.requests.length, 3 ≤ order.count j) : (order.foldl turn w).Finished := by
  intro q hq
  obtain ⟨j, hj, rfl⟩ := List.mem_iff_getElem.1 hq
  rw [h.length_foldl] at hj
  obtain ⟨q', hq', hl⟩ := h.stepsLeft_foldl w order j (List.getElem?_eq_getElem hj)
  have hm : w.requests[j].stepsLeft ≤ 3 := by
    unfold Request.stepsLeft
    split <;> omega
  have hn := hc j hj
  rw [Request.isSome_result?_iff]
  have he := (List.getElem?_eq_some_iff.1 hq').2
  rw [he]
  omega

end Advances

theorem finished_run {order : List Nat} (h : ∀ j < w.requests.length, 3 ≤ order.count j) :
    (w.run (order.map .proceed)).Finished := by
  rw [run, List.foldl_map]
  exact advances_act.finished h

theorem count_turns (count j : Nat) : (turns count).count j = if j < count then 3 else 0 := by
  unfold turns
  induction count with
  | zero => rfl
  | succ n ih =>
    rw [List.range_succ, List.flatMap_append, List.count_append, ih]
    simp only [List.flatMap_cons, List.flatMap_nil, List.append_nil, List.count_replicate,
      beq_iff_eq]
    grind

structure Alike (v w : Workshop) : Prop where
  files_eq : v.files = w.files
  requests_eq : v.requests = w.requests
  session : v.session.Alike w.session

theorem proceed_alike {s t : Session} (h : s.Alike t) (fs : FileTree) (q : Request) :
    (q.proceed fs s).1 = (q.proceed fs t).1 ∧ (q.proceed fs s).2.Alike (q.proceed fs t).2 := by
  obtain ⟨path, stage⟩ := q
  cases stage with
  | asked =>
    obtain ⟨t', ht, ha⟩ := h.ask fs path
    simp only [Request.proceed, ht]
    cases hr : s.ask fs path with
    | mk answer asked =>
      rw [hr] at ha
      cases answer <;> exact ⟨rfl, ha⟩
  | unknown k =>
    obtain ⟨t', ht, ha⟩ := h.make fs k
    simp only [Request.proceed, ht]
    cases hr : s.make fs k with
    | mk result made =>
      rw [hr] at ha
      cases result <;> exact ⟨rfl, ha⟩
  | made k r =>
    obtain ⟨t', ht, ha⟩ := h.keep k r
    rw [Request.proceed_made, Request.proceed_made, ht]
    exact ⟨rfl, ha⟩
  | done result => exact ⟨rfl, h⟩

theorem Alike.act {v w : Workshop} (h : v.Alike w) (i : Nat) :
    (v.act (.proceed i)).Alike (w.act (.proceed i)) := by
  cases hi : w.requests[i]? with
  | none => rwa [act_proceed_none hi, act_proceed_none (h.requests_eq ▸ hi)]
  | some q =>
    obtain ⟨hq, hs⟩ := proceed_alike h.session w.files q
    rw [act_proceed_some hi, act_proceed_some (h.requests_eq ▸ hi), h.files_eq, h.requests_eq]
    exact ⟨rfl, by rw [hq], hs⟩

theorem Alike.run {v w : Workshop} (h : v.Alike w) (order : List Nat) :
    (v.run (order.map .proceed)).Alike (w.run (order.map .proceed)) := by
  induction order generalizing v w with
  | nil => exact h
  | cons i order ih => exact ih (h.act i)

end Workshop

namespace Session

def Finishes (order : List Nat) (fs : FileTree) (paths : List Route) (s : Session) : Prop :=
  ((Workshop.opened fs s paths).run (order.map .proceed)).Finished

variable {fs : FileTree} {paths files : List Route} {s t now : Session}
  {added : List (Route × Report)} {os : List FileOutcome} {order : List Nat}

theorem Finishes.of_count (h : ∀ i < paths.length, 3 ≤ order.count i) :
    s.Finishes order fs paths :=
  Workshop.finished_run (by simpa [Workshop.opened] using h)

theorem Alike.finishes (h : Alike s t) (hf : s.Finishes order fs paths) :
    t.Finishes order fs paths := by
  have hw : (Workshop.opened fs s paths).Alike (Workshop.opened fs t paths) := ⟨rfl, rfl, h⟩
  intro q hq
  exact hf q ((hw.run order).requests_eq ▸ hq)

theorem foldl_noteOutcome_session (s : Session) (os : List FileOutcome) :
    (os.foldl Session.noteOutcome s).weights = s.weights ∧
      (os.foldl Session.noteOutcome s).cache = s.cache := by
  induction os generalizing s with
  | nil => exact ⟨rfl, rfl⟩
  | cons o os ih =>
    have hn := noteOutcome_session s o
    exact ⟨(ih _).1.trans hn.1, (ih _).2.trans hn.2⟩

theorem Grown.tryFilesBy (h : Grown fs files s added t) (hd : t.Finishes order fs files) :
    Accounts fs files s (t.tryFilesBy (order.map .proceed) fs files).2 files
      (t.tryFilesBy (order.map .proceed) fs files).1 := by
  have ha := ((Workshop.Serves.opened h).run order).accounts hd
  have hn := foldl_noteOutcome_session
    ((Workshop.opened fs t files).run (order.map .proceed)).session
    (((Workshop.opened fs t files).run (order.map .proceed)).outcomes files)
  exact ha.congr hn.1 hn.2

theorem Grown.lookup_tryFilesBy (h : Grown fs files s added t) (hd : t.Finishes order fs files)
    {p : Route} (hp : p ∈ files) {k : Route} (hk : fs.resolve p.text = .ok k) {v : Survey}
    (hv : s.alone fs p.text = .ok v) :
    ∃ r, (t.tryFilesBy (order.map .proceed) fs files).2.cache.lookup k = some r := by
  have hw := (Workshop.Serves.opened h).run order
  have hall : (t.tryFilesBy (order.map .proceed) fs files).1.map (·.path) = files :=
    Workshop.paths_zip_requests hw.paths_eq hd
  obtain ⟨o, ho, rfl⟩ := List.mem_map.1 (hall ▸ hp)
  have hs := (h.tryFilesBy hd).settles o ho
  have hr := hs.value.trans hv
  cases hq : o.result with
  | error f => simp [hq, Except.map] at hr
  | ok r => exact ⟨r, by rw [← reportOf?_resolved hk, hs.kept r hq]⟩

end Session

end ComponentSurvey
