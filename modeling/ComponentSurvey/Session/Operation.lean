import ComponentSurvey.FileTree.Change
import ComponentSurvey.Session.Batch

/-!
Sessions over changing files, one operation after another.
-/

set_option autoImplicit false

namespace ComponentSurvey

structure Workspace where
  files : FileTree
  session : Session
  deriving Repr

inductive Operation where
  | write (path : String) (entry : Entry)
  | remove (path : String)
  | clear
  | file (path : String)
  | find (path : String) (patterns excluded : Option (List String))
  | directory (path : String) (patterns : Option (List String)) (workers : Int)
  | iterate (path : String) (patterns : Option (List String)) (limit : Option Nat)
  /-- A batch with counts of what it found, in this session or in a fresh one. -/
  | profile (path : String) (patterns : Option (List String)) (fresh : Bool)
  deriving Repr

inductive Answer where
  | done
  | failed (f : Failure)
  | report (r : Report)
  | files (paths : List Route)
  | batch (b : Batch)
  | stream (t : Stream)
  | profile (b : Batch)
  deriving Repr

/-- A batch asked for result by result fails when a failure ends it. -/
def Answer.ofStream (t : Stream) : Answer :=
  match t.raised with
  | some f => .failed f
  | none => .stream t

namespace Session

/-- A batch in a session that has made no reports yet. Numbers of reports and the log go on. -/
def inFreshSession (fs : FileTree) (directory : String) (patterns : Option (List String))
    (s : Session) : Except Failure Batch × Session :=
  let fresh := { Session.new [] none with nextSerial := s.nextSerial, log := s.log }
  let (b, fresh) := fresh.analyzeDirectory fs directory patterns 1
  (b, { s with nextSerial := fresh.nextSerial, log := fresh.log })

end Session

namespace Workspace

def answer {α : Type} (w : Workspace) (f : α → Answer) (r : Except Failure α × Session) :
    Answer × Workspace :=
  match r with
  | (.ok x, s) => (f x, { w with session := s })
  | (.error e, s) => (.failed e, { w with session := s })

def step (w : Workspace) : Operation → Answer × Workspace
  | .write path entry => (.done, { w with files := w.files.write path entry })
  | .remove path => (.done, { w with files := w.files.remove path })
  | .clear => (.done, { w with session := w.session.clear })
  | .file path => w.answer .report (w.session.analyzeFile w.files path)
  | .find path patterns excluded =>
    w.answer .files (w.session.find w.files path patterns excluded)
  | .directory path patterns workers =>
    w.answer .batch (w.session.analyzeDirectory w.files path patterns workers)
  | .iterate path patterns limit =>
    w.answer .ofStream (w.session.iterateDirectory w.files path patterns limit)
  | .profile path patterns fresh =>
    w.answer .profile
      (if fresh then w.session.inFreshSession w.files path patterns
        else w.session.analyzeDirectory w.files path patterns 1)

def run : Workspace → List Operation → List Answer × Workspace
  | w, [] => ([], w)
  | w, o :: os =>
    let (a, w) := w.step o
    let (as, w) := run w os
    (a :: as, w)

end Workspace

end ComponentSurvey
