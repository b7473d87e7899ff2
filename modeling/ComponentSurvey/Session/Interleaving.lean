import ComponentSurvey.Session

/-!
Several workers on one session. A worker's request goes through the three steps of a survey one at a
time; between two of its steps others may do theirs, the session may be told to forget, and files
may change. Asking and keeping are single steps.
-/

set_option autoImplicit false

namespace ComponentSurvey

inductive Stage where
  | asked
  | unknown (key : Route)
  | made (key : Route) (report : Report)
  | done (result : Except Failure Report)
  deriving Repr

structure Request where
  path : String
  stage : Stage
  deriving Repr

/-- Files, session and requests under way. -/
structure Workshop where
  files : FileTree
  session : Session
  requests : List Request
  deriving Repr

inductive Action where
  /-- The request with this number takes its next step. -/
  | proceed (i : Nat)
  | request (path : String)
  | clear
  /-- Files are written or removed. -/
  | change (files : FileTree)
  deriving Repr

namespace Request

def new (path : String) : Request := ⟨path, .asked⟩

def result? (r : Request) : Option (Except Failure Report) :=
  match r.stage with
  | .done result => some result
  | _ => none

def proceed (fs : FileTree) (r : Request) (s : Session) : Request × Session :=
  match r.stage with
  | .asked =>
    match s.ask fs r.path with
    | (.refused f, s) => ({ r with stage := .done (.error f) }, s)
    | (.kept report, s) => ({ r with stage := .done (.ok report) }, s)
    | (.unknown key, s) => ({ r with stage := .unknown key }, s)
  | .unknown key =>
    match s.make fs key with
    | (.error f, s) => ({ r with stage := .done (.error f) }, s)
    | (.ok report, s) => ({ r with stage := .made key report }, s)
  | .made key report =>
    let (report, s) := s.keep key report
    ({ r with stage := .done (.ok report) }, s)
  | .done _ => (r, s)

end Request

namespace Workshop

def act (w : Workshop) : Action → Workshop
  | .proceed i =>
    match w.requests[i]? with
    | none => w
    | some r =>
      let (r, s) := r.proceed w.files w.session
      { w with session := s, requests := w.requests.set i r }
  | .request path => { w with requests := w.requests ++ [Request.new path] }
  | .clear => { w with session := w.session.clear }
  | .change files => { w with files }

def run (w : Workshop) (actions : List Action) : Workshop := actions.foldl act w

/-- Requests served in turn, each to its end. -/
def inTurn (count : Nat) : List Action :=
  (List.range count).flatMap fun i => List.replicate 3 (.proceed i)

end Workshop

end ComponentSurvey
