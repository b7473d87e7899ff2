import ComponentSurvey.Proofs.Session.Workers

/-!
Forgetting while requests are under way. A request that is made after the session was told to forget
is answered with a survey made since then, or with one that another request had in hand at that moment:
a request that has surveyed its file keeps the report whatever was forgotten meanwhile.
-/

set_option autoImplicit false

namespace ComponentSurvey

namespace Request

/-- What is right about a request in each of its stages, for the keys that its path may lead to and the
reports that a key may have. -/
def Obeys (leads : String → Route → Prop) (allowed : Route → Report → Prop) (q : Request) : Prop :=
  match q.stage with
  | .asked => True
  | .unknown k => leads q.path k
  | .made k r => leads q.path k ∧ allowed k r
  | .done (.ok r) => ∃ k, leads q.path k ∧ allowed k r
  | .done (.error _) => True

variable {leads : String → Route → Prop} {allowed : Route → Report → Prop} {q : Request} {r : Report}

theorem Obeys.result (h : q.Obeys leads allowed) (hr : q.result? = some (.ok r)) :
    ∃ k, leads q.path k ∧ allowed k r := by
  obtain ⟨path, stage⟩ := q
  cases stage with
  | done result =>
    cases hr
    exact h
  | _ => cases hr

end Request

namespace Session

/-- Every report kept is allowed under its key, and the numbers of new reports begin at `first`. -/
structure Keeps (table : Weights) (first : Nat) (allowed : Route → Report → Prop) (s : Session) :
    Prop where
  weights_eq : s.weights = table
  first_le : first ≤ s.nextSerial
  kept : ∀ k r, (k, r) ∈ s.cache → allowed k r

variable {table : Weights} {first : Nat} {allowed : Route → Report → Prop} {s : Session} {k : Route}
  {r : Report}

theorem Keeps.lookup (h : s.Keeps table first allowed) (hl : s.cache.lookup k = some r) :
    allowed k r := h.kept k r (mem_of_lookup hl)

theorem Keeps.keep (h : s.Keeps table first allowed) (hr : allowed k r) :
    (s.keep k r).2.Keeps table first allowed ∧ allowed k (s.keep k r).1 := by
  cases hl : s.cache.lookup k with
  | some earlier =>
    rw [keep_kept hl]
    exact ⟨h, h.lookup hl⟩
  | none =>
    rw [keep_new hl]
    refine ⟨⟨h.weights_eq, h.first_le, fun k' r' hr' => ?_⟩, hr⟩
    simp only [List.mem_append, List.mem_singleton, Prod.mk.injEq] at hr'
    rcases hr' with hold | ⟨rfl, rfl⟩
    · exact h.kept k' r' hold
    · exact hr

end Session

structure FileTree.Admits (table : Weights) (first : Nat) (leads : String → Route → Prop)
    (allowed : Route → Report → Prop) (fs : FileTree) : Prop where
  leads : ∀ path k, fs.resolve path = .ok k → leads path k
  survey : ∀ k v n, fs.survey table k = .ok v → first ≤ n → allowed k ⟨n, v⟩

theorem Request.Obeys.proceed {table : Weights} {first : Nat} {leads : String → Route → Prop}
    {allowed : Route → Report → Prop} {fs : FileTree} {s : Session} {q : Request}
    (hs : s.Keeps table first allowed) (hf : fs.Admits table first leads allowed)
    (hm : ∀ k r, q.stage = .made k r → allowed k r) :
    (q.proceed fs s).2.Keeps table first allowed ∧
      (∀ k r, (q.proceed fs s).1.stage = .made k r → allowed k r) ∧
      (q.Obeys leads allowed → (q.proceed fs s).1.Obeys leads allowed) := by
  obtain ⟨path, stage⟩ := q
  cases stage with
  | asked =>
    cases hk : fs.resolve path with
    | error f =>
      simp only [Request.proceed, Session.ask_refused hk]
      exact ⟨hs, by simp, fun _ => trivial⟩
    | ok k =>
      cases hl : s.cache.lookup k with
      | some r =>
        simp only [Request.proceed, Session.ask_kept hk hl]
        exact ⟨hs, by simp, fun _ => ⟨k, hf.leads path k hk, hs.lookup hl⟩⟩
      | none =>
        simp only [Request.proceed, Session.ask_unknown hk hl]
        exact ⟨⟨hs.weights_eq, hs.first_le, hs.kept⟩, by simp, fun _ => hf.leads path k hk⟩
  | unknown k =>
    cases hv : fs.survey s.weights k with
    | error f =>
      simp only [Request.proceed, Session.make_failed hv]
      exact ⟨hs, by simp, fun _ => trivial⟩
    | ok v =>
      have ha : allowed k ⟨s.nextSerial, v⟩ := hf.survey k v _ (hs.weights_eq ▸ hv) hs.first_le
      simp only [Request.proceed, Session.make_new hv]
      refine ⟨⟨hs.weights_eq, Nat.le_succ_of_le hs.first_le, hs.kept⟩, fun k' r' he => ?_,
        fun hq => ⟨hq, ha⟩⟩
      obtain ⟨rfl, rfl⟩ := Stage.made.inj he
      exact ha
  | made k r =>
    obtain ⟨hs', hr'⟩ := hs.keep (hm k r rfl)
    rw [Request.proceed_made]
    exact ⟨hs', by simp, fun hq => ⟨k, hq.1, hr'⟩⟩
  | done result => exact ⟨hs, by simp [Request.proceed], id⟩

namespace Workshop

def HeldDuring (w : Workshop) (actions : List Action) : Holding := fun k bytes tree =>
  ∃ done, done <+: actions ∧ (w.run done).files.read k = .ok (bytes, tree)

def LedTo (w : Workshop) (actions : List Action) (path : String) (k : Route) : Prop :=
  ∃ done, done <+: actions ∧ (w.run done).files.resolve path = .ok k

/-- Some request has surveyed its file and has not kept the report yet. -/
def InHand (w : Workshop) (k : Route) (r : Report) : Prop := ∃ q ∈ w.requests, q.stage = .made k r

variable {table : Weights} {first count : Nat} {leads : String → Route → Prop}
  {allowed : Route → Report → Prop} {w : Workshop}

structure Obeys (table : Weights) (first count : Nat) (leads : String → Route → Prop)
    (allowed : Route → Report → Prop) (w : Workshop) : Prop where
  session : w.session.Keeps table first allowed
  inHand : ∀ k r, w.InHand k r → allowed k r
  later : ∀ i q, count ≤ i → w.requests[i]? = some q → q.Obeys leads allowed

theorem Obeys.proceed (h : w.Obeys table first count leads allowed)
    (hf : w.files.Admits table first leads allowed) (i : Nat) :
    (w.act (.proceed i)).Obeys table first count leads allowed := by
  cases hi : w.requests[i]? with
  | none => rwa [act_proceed_none hi]
  | some q =>
    obtain ⟨hs, hm, hq⟩ := Request.Obeys.proceed h.session hf
      fun k r he => h.inHand k r ⟨q, List.mem_of_getElem? hi, he⟩
    rw [act_proceed_some hi]
    refine ⟨hs, fun k r ⟨q', hq', he⟩ => ?_, fun j q' hj hq' => ?_⟩
    · rcases List.mem_or_eq_of_mem_set hq' with hold | rfl
      · exact h.inHand k r ⟨q', hold, he⟩
      · exact hm k r he
    · rw [List.getElem?_set] at hq'
      split at hq'
      next hij =>
        subst hij
        obtain ⟨-, he⟩ := Option.ite_none_right_eq_some.1 hq'
        exact Option.some.inj he ▸ hq (h.later i q hj hi)
      · exact h.later j q' hj hq'

theorem Obeys.act (h : w.Obeys table first count leads allowed)
    (hf : w.files.Admits table first leads allowed) (a : Action) :
    (w.act a).Obeys table first count leads allowed := by
  cases a with
  | proceed i => exact h.proceed hf i
  | request path =>
    refine ⟨h.session, fun k r ⟨q, hq, he⟩ => ?_, fun i q hi hq => ?_⟩
    · rcases List.mem_append.1 hq with hold | hnew
      · exact h.inHand k r ⟨q, hold, he⟩
      · rw [List.mem_singleton.1 hnew] at he
        cases he
    · rw [Workshop.act, List.getElem?_append] at hq
      split at hq
      · exact h.later i q hi hq
      · obtain rfl := List.mem_singleton.1 (List.mem_of_getElem? hq)
        trivial
  | clear =>
    refine ⟨⟨h.session.weights_eq, h.session.first_le, fun k r hr => ?_⟩, h.inHand, h.later⟩
    cases hr
  | change files => exact ⟨h.session, h.inHand, h.later⟩

theorem Obeys.run {actions : List Action} (h : w.Obeys table first count leads allowed)
    (hf : ∀ done, done <+: actions → (w.run done).files.Admits table first leads allowed) :
    (w.run actions).Obeys table first count leads allowed := by
  induction actions generalizing w with
  | nil => exact h
  | cons a actions ih =>
    refine ih (h.act (hf [] List.nil_prefix) a) fun done hd => ?_
    exact hf (a :: done) (List.cons_prefix_cons.2 ⟨rfl, hd⟩)

theorem admits_during (w : Workshop) (table : Weights) (first : Nat) (actions : List Action)
    {done : List Action} (hd : done <+: actions) :
    (w.run done).files.Admits table first (w.LedTo actions)
      fun k r => r.IsSurvey table (w.HeldDuring actions) k ∧ first ≤ r.serial := by
  refine ⟨fun path k hk => ⟨done, hd, hk⟩, fun k v n hv hn => ⟨?_, hn⟩⟩
  unfold FileTree.survey at hv
  split at hv
  · cases hv
  next bytes tree hr => exact ⟨bytes, tree, ⟨done, hd, hr⟩, hv⟩

theorem run_nil (w : Workshop) : w.run [] = w := rfl

theorem run_cons (w : Workshop) (a : Action) (actions : List Action) :
    w.run (a :: actions) = (w.act a).run actions := rfl

theorem run_concat (w : Workshop) (actions : List Action) (a : Action) :
    w.run (actions ++ [a]) = (w.run actions).act a := List.foldl_concat ..

theorem files_run {actions : List Action} (h : ∀ files, .change files ∉ actions) (w : Workshop) :
    (w.run actions).files = w.files := by
  induction actions generalizing w with
  | nil => rfl
  | cons a actions ih =>
    refine (ih (fun files hf => h files (List.mem_cons_of_mem a hf)) (w.act a)).trans ?_
    cases a with
    | proceed i => exact files_proceed w i
    | change files => exact absurd List.mem_cons_self (h files)
    | _ => rfl

theorem getElem?_act_proceed {i : Nat} {q : Request} (h : w.requests[i]? = some q) :
    (w.act (.proceed i)).requests[i]? = some (q.proceed w.files w.session).1 := by
  rw [act_proceed_some h, List.getElem?_set_self (List.getElem?_eq_some_iff.1 h).1]

theorem getElem?_act_request (w : Workshop) (path : String) :
    (w.act (.request path)).requests[w.requests.length]? = some (Request.new path) :=
  List.getElem?_concat_length

/-- Two steps of a request for a file that is not remembered: it has a survey of the file in hand. -/
theorem surveyed {path : String} {k : Route} {v : Survey} (hk : w.files.resolve path = .ok k)
    (hl : w.session.cache.lookup k = none) (hv : w.files.survey w.session.weights k = .ok v) :
    let n := w.requests.length
    w.run [.request path, .proceed n, .proceed n] =
      { w with
        session := { w.session.write .debug .analysis ("Analyzing " ++ k.text) with
          nextSerial := w.session.nextSerial + 1 }
        requests := w.requests ++ [⟨path, .made k ⟨w.session.nextSerial, v⟩⟩] } := by
  intro n
  have h₁ : (w.act (.request path)).act (.proceed n) =
      { w with
        session := w.session.write .debug .analysis ("Analyzing " ++ k.text)
        requests := w.requests ++ [⟨path, .unknown k⟩] } := by
    rw [act_proceed_some (getElem?_act_request w path)]
    simp [Workshop.act, Request.new, Request.proceed, Session.ask_unknown hk hl]
  have hm : (w.session.write .debug .analysis ("Analyzing " ++ k.text)).make w.files k =
      (.ok ⟨w.session.nextSerial, v⟩, _) := Session.make_new hv
  rw [run_cons, run_cons, h₁, run_cons, run_nil, act_proceed_some List.getElem?_concat_length]
  simp only [Request.proceed, hm]
  simp [n, Session.write]

theorem served {path : String} {k : Route} {v : Survey} (hk : w.files.resolve path = .ok k)
    (hl : w.session.cache.lookup k = none) (hv : w.files.survey w.session.weights k = .ok v) :
    let n := w.requests.length
    w.run [.request path, .proceed n, .proceed n, .proceed n] =
      { w with
        session := { w.session.write .debug .analysis ("Analyzing " ++ k.text) with
          cache := w.session.cache ++ [(k, ⟨w.session.nextSerial, v⟩)]
          nextSerial := w.session.nextSerial + 1 }
        requests := w.requests ++ [⟨path, .done (.ok ⟨w.session.nextSerial, v⟩)⟩] } := by
  intro n
  have hc := run_concat w [.request path, .proceed n, .proceed n] (.proceed n)
  rw [surveyed hk hl hv, act_proceed_some List.getElem?_concat_length, Request.proceed_made] at hc
  refine hc.trans ?_
  simp [n, Session.write, Session.keep, hl]

theorem exists_of_isSome {e : Except Failure Survey} (h : e.toOption.isSome) : ∃ v, e = .ok v := by
  cases e with
  | error f => cases h
  | ok v => exact ⟨v, rfl⟩

def emptyFile : FileTree where
  children := [("a.ts", .file [] (.node ⟨"program", true, false, ⟨0, 0⟩, []⟩ []))]
  current := []

def blankLine : FileTree where
  children := [("a.ts", .file [10] (.node ⟨"program", true, false, ⟨1, 1⟩, []⟩ []))]
  current := []

/-- A request made after the session was told to forget is answered with a survey of what its file held
since then, made since then, or with a report that some request had in hand at that moment. -/
theorem answer_after_clear (w : Workshop) (after : List Action) {i : Nat} {q : Request} {r : Report}
    (hi : w.requests.length ≤ i) (hq : ((w.act .clear).run after).requests[i]? = some q)
    (hr : q.result? = some (.ok r)) :
    ∃ k, (w.act .clear).LedTo after q.path k ∧
      (r.IsSurvey w.session.weights ((w.act .clear).HeldDuring after) k ∧
          w.session.nextSerial ≤ r.serial ∨
        w.InHand k r) := by
  let allowed (k : Route) (r : Report) : Prop :=
    r.IsSurvey w.session.weights ((w.act .clear).HeldDuring after) k ∧
      w.session.nextSerial ≤ r.serial ∨ w.InHand k r
  -- Nothing is kept when the run begins, and no request after the clear has been made yet.
  have hw : (w.act .clear).Obeys w.session.weights w.session.nextSerial w.requests.length
      ((w.act .clear).LedTo after) allowed := by
    refine ⟨⟨rfl, Nat.le_refl _, fun k r hk => by cases hk⟩, fun k r hk => .inr hk, ?_⟩
    intro j q' hj hq'
    rw [List.getElem?_eq_none (show (w.act .clear).requests.length ≤ j from hj)] at hq'
    cases hq'
  refine ((hw.run fun done hd => ?_).later i q hi hq).result hr
  have ha := admits_during (w.act .clear) w.session.weights w.session.nextSerial after hd
  exact ⟨ha.leads, fun k v n hv hn => .inl (ha.survey k v n hv hn)⟩

/-- In the usual order: a file is surveyed and changes, the session is told to forget, and the next
request is answered with a survey of what the file holds since. -/
theorem answer_after_clear_of_changed :
    let start : Workshop := ⟨emptyFile, Session.new [] none, []⟩
    let w := start.run [.request "a.ts", .proceed 0, .proceed 0, .proceed 0, .change blankLine]
    let after := [.request "a.ts", .proceed 1, .proceed 1, .proceed 1]
    ∃ r, ((w.act .clear).run after).requests[1]? = some ⟨"a.ts", .done (.ok r)⟩ ∧
      ∃ k, (w.act .clear).LedTo after "a.ts" k ∧
        r.IsSurvey w.session.weights ((w.act .clear).HeldDuring after) k ∧
        w.session.nextSerial ≤ r.serial := by
  intro start w after
  obtain ⟨v, hv⟩ := exists_of_isSome (e := emptyFile.survey start.session.weights ["a.ts"])
    (by decide +kernel)
  obtain ⟨v', hv'⟩ := exists_of_isSome (e := blankLine.survey start.session.weights ["a.ts"])
    (by decide +kernel)
  have hk : blankLine.resolve "a.ts" = .ok ["a.ts"] := by decide +kernel
  have h₁ : start.run [.request "a.ts", .proceed 0, .proceed 0, .proceed 0] = _ :=
    served (by decide +kernel) rfl hv
  have hw : w = (start.run [.request "a.ts", .proceed 0, .proceed 0, .proceed 0]).act
      (.change blankLine) :=
    run_concat start [.request "a.ts", .proceed 0, .proceed 0, .proceed 0] (.change blankLine)
  rw [h₁] at hw
  clear_value w
  have hr : w.requests = [⟨"a.ts", .done (.ok ⟨0, v⟩)⟩] := by rw [hw]; rfl
  have h₂ := served (w := w.act .clear) (by rw [hw]; exact hk) rfl (by rw [hw]; exact hv')
  have hn : (w.act .clear).requests.length = 1 := by rw [hw]; rfl
  rw [hn] at h₂
  have hq : ((w.act .clear).run after).requests[1]? = some ⟨"a.ts", .done (.ok ⟨1, v'⟩)⟩ := by
    rw [h₂, hw]
    rfl
  obtain ⟨k, hl, ha⟩ := answer_after_clear w after (Nat.le_of_eq hn) hq rfl
  refine ⟨⟨1, v'⟩, hq, k, hl, ha.resolve_right fun ⟨q, hm, he⟩ => ?_⟩
  rw [hr] at hm
  rw [List.mem_singleton.1 hm] at he
  cases he

/-- What a request has in hand when the session is told to forget can still be answered to a later
request, for a path that leads to the same file. -/
theorem answered_from_hand {i : Nat} {path path' : String} {k : Route} {r : Report}
    (hi : w.requests[i]? = some ⟨path, .made k r⟩) (hk : w.files.resolve path' = .ok k) :
    let n := w.requests.length
    ((w.act .clear).run [.proceed i, .request path', .proceed n]).requests[n]? =
      some ⟨path', .done (.ok r)⟩ := by
  intro n
  have h₁ : (w.act .clear).act (.proceed i) =
      { w with
        session := { w.session with cache := [(k, r)] }
        requests := w.requests.set i ⟨path, .done (.ok r)⟩ } :=
    act_proceed_some (w := w.act .clear) hi
  have hn : n = ((w.act .clear).act (.proceed i)).requests.length := by rw [h₁]; simp [n]
  rw [run_cons, run_cons, run_cons, run_nil, hn,
    getElem?_act_proceed (getElem?_act_request _ path'), h₁]
  simp [Workshop.act, Request.new, Request.proceed, Session.ask, hk]

/-- A request has surveyed a file that changes then, the session is told to forget, and the request
keeps its report: a request that is made after all this is answered with a survey of what the file held
before. -/
theorem overtaken {path : String} {k : Route} {v : Survey} {changed : FileTree}
    (hk : w.files.resolve path = .ok k) (hl : w.session.cache.lookup k = none)
    (hv : w.files.survey w.session.weights k = .ok v) (hk' : changed.resolve path = .ok k)
    (hne : changed.survey w.session.weights k ≠ .ok v) :
    let n := w.requests.length
    let cleared := w.run [.request path, .proceed n, .proceed n, .change changed, .clear]
    let after := [.proceed n, .request path, .proceed (n + 1)]
    (cleared.run after).requests[n + 1]? =
        some ⟨path, .done (.ok ⟨w.session.nextSerial, v⟩)⟩ ∧
      ∀ k', cleared.LedTo after path k' →
        ¬ Report.IsSurvey w.session.weights (cleared.HeldDuring after) k'
          ⟨w.session.nextSerial, v⟩ := by
  intro n cleared after
  obtain ⟨inHand, hx⟩ : ∃ x, x = (w.run [.request path, .proceed n, .proceed n]).act
      (.change changed) := ⟨_, rfl⟩
  have hw : cleared = inHand.act .clear := by rw [hx]; rfl
  rw [surveyed hk hl hv] at hx
  have hi : inHand.requests[n]? = some ⟨path, .made k ⟨w.session.nextSerial, v⟩⟩ := by
    rw [hx]
    exact List.getElem?_concat_length
  have hn : inHand.requests.length = n + 1 := by rw [hx]; simp [Workshop.act, n]
  have hc : inHand.files = changed := by rw [hx]; rfl
  clear_value cleared
  refine ⟨?_, ?_⟩
  · have h := answered_from_hand hi (hc ▸ hk')
    rwa [hn, ← hw] at h
  · rintro k' ⟨done, hd, hr⟩ ⟨bytes, tree, ⟨done', hd', hb⟩, hs⟩
    have hf {d : List Action} (h : d <+: after) : (cleared.run d).files = changed := by
      refine (files_run (fun files hm => ?_) cleared).trans (hw ▸ hc)
      have := h.subset hm
      simp [after] at this
    rw [hf hd, hk', Except.ok.injEq] at hr
    subst hr
    rw [hf hd'] at hb
    refine hne ?_
    rw [FileTree.survey, hb]
    exact hs

/-- Clearing does not reach the survey of the empty file that a request has in hand, and the request made
last is answered with it, though the file has held a line break ever since. -/
theorem clear_overtaken :
    let start : Workshop := ⟨emptyFile, Session.new [] none, []⟩
    let cleared := start.run [.request "a.ts", .proceed 0, .proceed 0, .change blankLine, .clear]
    let after := [.proceed 0, .request "a.ts", .proceed 1]
    ∃ r, (cleared.run after).requests[1]? = some ⟨"a.ts", .done (.ok r)⟩ ∧
      ∀ k, cleared.LedTo after "a.ts" k →
        ¬ Report.IsSurvey start.session.weights (cleared.HeldDuring after) k r := by
  intro start
  have hne : emptyFile.survey start.session.weights ["a.ts"] ≠
      blankLine.survey start.session.weights ["a.ts"] := by decide +kernel
  obtain ⟨v, hv⟩ := exists_of_isSome (e := emptyFile.survey start.session.weights ["a.ts"])
    (by decide +kernel)
  exact ⟨_, overtaken (w := start) (by decide +kernel) rfl hv (by decide +kernel)
    fun he => hne (hv.trans he.symm)⟩

end Workshop

end ComponentSurvey
