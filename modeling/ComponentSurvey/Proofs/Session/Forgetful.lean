import ComponentSurvey.Proofs.Session.Workers

/-!
Sessions that forget everything before they look at a file, in batches too, and what answers say
whichever reports they are made of.
-/

set_option autoImplicit false

namespace ComponentSurvey

/-- What an answer says, whichever reports say it: surveys instead of reports, and the counts of a
batch that was profiled. -/
inductive Answer.Content where
  | done
  | failed (f : Failure)
  | survey (v : Survey)
  | files (paths : List Route)
  | batch (surveys : List Survey) (failures : List (Route × Failure))
  | stream (surveys : List Survey) (failures : List (Route × Failure)) (raised : Option Failure)
  | profile (files components functions : Nat) (surveys : List Survey)
      (failures : List (Route × Failure))

def Batch.surveys (b : Batch) : List Survey := b.results.map (·.survey)

def Batch.told (b : Batch) : List Survey × List (Route × Failure) := (b.surveys, b.failures)

def Stream.surveys (t : Stream) : List Survey := t.yields.map (·.report.survey)

def Stream.told (t : Stream) : List Survey × List (Route × Failure) × Option Failure :=
  (t.surveys, t.failures, t.raised)

def Answer.content : Answer → Answer.Content
  | .done => .done
  | .failed f => .failed f
  | .report r => .survey r.survey
  | .files paths => .files paths
  | .batch b => .batch b.surveys b.failures
  | .stream t => .stream t.surveys t.failures t.raised
  | .profile b =>
    .profile b.results.length b.componentCount b.functionCount b.surveys b.failures

def Answer.Content.ofFile : Except Failure Survey → Answer.Content
  | .ok v => .survey v
  | .error f => .failed f

def FileOutcome.told (o : FileOutcome) : Route × Except Failure Survey :=
  (o.path, o.result.map (·.survey))

theorem FileOutcome.fatal?_told (o : FileOutcome) :
    o.fatal? = (failureOf? o.told.2).filter (!·.isExpected) := by
  rw [fatal?_eq, told]
  cases o.result <;> rfl

theorem FileOutcome.fatal?_congr {o o' : FileOutcome} (h : o.told = o'.told) :
    o.fatal? = o'.fatal? := by
  rw [fatal?_told, fatal?_told, h]

theorem FileOutcome.findSome?_fatal? (os : List FileOutcome) :
    os.findSome? fatal? =
      (os.map told).findSome? fun x => (failureOf? x.2).filter (!·.isExpected) := by
  rw [List.findSome?_map]
  exact congrArg (List.findSome? · os) (funext fatal?_told)

theorem Batch.told_ofOutcomes (os : List FileOutcome) :
    (ofOutcomes os).told = ((os.map FileOutcome.told).filterMap (·.2.toOption),
      (os.map FileOutcome.told).filterMap fun x => (failureOf? x.2).map (x.1, ·)) := by
  rw [told, surveys, results_ofOutcomes, failures_ofOutcomes, List.map_filterMap,
    List.filterMap_map, List.filterMap_map]
  refine Prod.ext (List.filterMap_congr fun o _ => ?_) (List.filterMap_congr fun o _ => ?_)
  · cases h : o.result <;> simp [FileOutcome.told, h, Except.map, Except.toOption]
  · cases h : o.result <;> simp [FileOutcome.told, h, Except.map, failureOf?]

namespace Workshop

/-- Next step of a request. Before its first one the session forgets. -/
def actAnew (w : Workshop) (i : Nat) : Workshop :=
  match w.requests[i]? with
  | some ⟨_, .asked⟩ => (w.act .clear).act (.proceed i)
  | _ => w.act (.proceed i)

def runAnew (w : Workshop) (order : List Nat) : Workshop := order.foldl actAnew w

end Workshop

namespace Session

def tryFilesAnew (fs : FileTree) : List Route → Session → List FileOutcome × Session
  | [], s => ([], s)
  | path :: paths, s =>
    let (o, s) := s.clear.tryFile fs path
    if o.fatal?.isSome then ([o], s)
    else
      let (os, s) := tryFilesAnew fs paths s
      (o :: os, s)

def tryFilesByAnew (order : List Nat) (fs : FileTree) (paths : List Route) (s : Session) :
    List FileOutcome × Session :=
  let w := (Workshop.opened fs s paths).runAnew order
  (w.outcomes paths, (w.outcomes paths).foldl noteOutcome w.session)

def streamAnew (fs : FileTree) : Option Nat → List Route → Session → Stream × Session
  | _, [], s => (⟨[], [], none⟩, s)
  | limit, path :: paths, s =>
    streamFrom limit path (fun limit s => streamAnew fs limit paths s) (s.clear.tryFile fs path)

def batchOf (look : List Route → Session → List FileOutcome × Session) (fs : FileTree)
    (directory : String) (patterns : Option (List String)) (s : Session) :
    Except Failure Batch × Session :=
  match s.find fs directory (some (patternsOf patterns)) s.excluded with
  | (.error f, s) => (.error f, s)
  | (.ok paths, s) =>
    let s := s.write .info .analysis
      ("Analyzing " ++ toString paths.length ++ " files under " ++ directory)
    let (os, s) := look paths s
    s.conclude os

def analyzeDirectoryByAnew (order : List Nat) (fs : FileTree) (directory : String)
    (patterns : Option (List String)) (s : Session) : Except Failure Batch × Session :=
  s.batchOf (tryFilesByAnew order fs) fs directory patterns

def analyzeDirectoryAnew (fs : FileTree) (directory : String) (patterns : Option (List String))
    (workers : Int) (s : Session) : Except Failure Batch × Session :=
  s.batchOf (fun paths s =>
    if 1 < workers then s.tryFilesByAnew (Workshop.turns paths.length) fs paths
    else s.tryFilesAnew fs paths) fs directory patterns

def iterateDirectoryAnew (fs : FileTree) (directory : String) (patterns : Option (List String))
    (limit : Option Nat) (s : Session) : Except Failure Stream × Session :=
  match s.find fs directory (some (patternsOf patterns)) s.excluded with
  | (.error f, s) => (.error f, s)
  | (.ok paths, s) =>
    let (t, s) := s.streamAnew fs limit paths
    (.ok t, s)

def fresh (s : Session) : Session :=
  { Session.new [] none with nextSerial := s.nextSerial, log := s.log }

def inFreshSessionAnew (fs : FileTree) (directory : String) (patterns : Option (List String))
    (s : Session) : Except Failure Batch × Session :=
  let (b, fresh) := s.fresh.analyzeDirectoryAnew fs directory patterns 1
  (b, { s with nextSerial := fresh.nextSerial, log := fresh.log })

end Session

def Workspace.stepAnew (w : Workspace) : Operation → Answer × Workspace
  | .file path => w.answer .report (w.session.clear.analyzeFile w.files path)
  | .directory path patterns workers =>
    w.answer .batch (w.session.analyzeDirectoryAnew w.files path patterns workers)
  | .iterate path patterns limit =>
    w.answer .ofStream (w.session.iterateDirectoryAnew w.files path patterns limit)
  | .profile path patterns fresh =>
    w.answer .profile
      (if fresh then w.session.inFreshSessionAnew w.files path patterns
        else w.session.analyzeDirectoryAnew w.files path patterns 1)
  | o => w.step o

namespace Bench

def reply (b : Bench) : Move → Answer
  | .operation o => (b.workspace.step o).1
  | .workers path patterns order =>
    (b.workspace.answer .batch (b.session.analyzeDirectoryBy order b.files path patterns)).1
  | .begin path patterns =>
    (b.workspace.answer .files
      (b.session.find b.files path (some (Session.patternsOf patterns)) b.session.excluded)).1
  | .next i =>
    match b.pending[i]? with
    | none => .done
    | some paths => .stream (b.session.stream b.files (some 1) paths).1

def answers : Bench → List Move → List Answer
  | _, [] => []
  | b, m :: moves => b.reply m :: (b.step m).answers moves

/-- A move on a bench whose session forgets before it looks at a file. -/
def serveAnew (b : Bench) : Move → Answer × Bench
  | .operation o =>
    let (a, w) := b.workspace.stepAnew o
    (a, { b with workspace := w })
  | .workers path patterns order =>
    let (a, w) := b.workspace.answer .batch
      (b.session.analyzeDirectoryByAnew order b.files path patterns)
    (a, { b with workspace := w })
  | .begin path patterns => (b.reply (.begin path patterns), b.step (.begin path patterns))
  | .next i =>
    match b.pending[i]? with
    | none => (.done, b)
    | some paths =>
      let (t, s) := b.session.streamAnew b.files (some 1) paths
      (.stream t, { b.withSession s with pending := b.pending.set i (t.left paths) })

def answersAnew : Bench → List Move → List Answer
  | _, [] => []
  | b, m :: moves => (b.serveAnew m).1 :: (b.serveAnew m).2.answersAnew moves

end Bench

end ComponentSurvey
