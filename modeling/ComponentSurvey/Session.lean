import ComponentSurvey.Analysis
import ComponentSurvey.Discovery

/-!
Sessions. A session remembers the survey of each file under the file's resolved route until it is
told to forget them. A survey is made in three steps: the session is asked, the file is read and
surveyed, and the survey is kept unless another one has been kept meanwhile.
-/

set_option autoImplicit false

namespace ComponentSurvey

inductive LogLevel where
  | debug
  | info
  | error
  deriving DecidableEq, Repr

inductive LogOrigin where
  | analysis
  | discovery
  deriving DecidableEq, Repr

structure LogLine where
  level : LogLevel
  origin : LogOrigin
  message : String
  deriving DecidableEq, Repr

/-- A survey with the number it got when it was made. Two reports with one number are one object. -/
structure Report where
  serial : Nat
  survey : Survey
  deriving DecidableEq, Repr

/-- The table of weights, the directories to leave out (the usual ones when none are given), the
reports kept, the number of the next report, and the log. -/
structure Session where
  weights : Weights
  excluded : Option (List String)
  cache : List (Route × Report)
  nextSerial : Nat
  log : List LogLine
  deriving DecidableEq, Repr

def FileTree.survey (fs : FileTree) (table : Weights) (key : Route) : Except Failure Survey :=
  match fs.read key with
  | .error f => .error f
  | .ok (bytes, tree) => Survey.ofSource table key.text (Source.ofBytes bytes) tree

namespace Session

def new (weights : Weights) (excluded : Option (List String)) : Session :=
  ⟨weights.completed, excluded, [], 0, []⟩

def write (s : Session) (level : LogLevel) (origin : LogOrigin) (message : String) : Session :=
  { s with log := s.log ++ [⟨level, origin, message⟩] }

def clear (s : Session) : Session := { s with cache := [] }

inductive Remembered where
  | refused (failure : Failure)
  | kept (report : Report)
  | unknown (key : Route)
  deriving DecidableEq, Repr

def ask (fs : FileTree) (path : String) (s : Session) : Remembered × Session :=
  match fs.resolve path with
  | .error f => (.refused f, s)
  | .ok key =>
    match s.cache.lookup key with
    | some report => (.kept report, s)
    | none => (.unknown key, s.write .debug .analysis ("Analyzing " ++ key.text))

def make (fs : FileTree) (key : Route) (s : Session) : Except Failure Report × Session :=
  match fs.survey s.weights key with
  | .error f => (.error f, s)
  | .ok survey => (.ok ⟨s.nextSerial, survey⟩, { s with nextSerial := s.nextSerial + 1 })

/-- Keeps a report; one that is there already stays and is the answer. -/
def keep (key : Route) (report : Report) (s : Session) : Report × Session :=
  match s.cache.lookup key with
  | some earlier => (earlier, s)
  | none => (report, { s with cache := s.cache ++ [(key, report)] })

def analyzeFile (fs : FileTree) (path : String) (s : Session) : Except Failure Report × Session :=
  match s.ask fs path with
  | (.refused f, s) => (.error f, s)
  | (.kept report, s) => (.ok report, s)
  | (.unknown key, s) =>
    match s.make fs key with
    | (.error f, s) => (.error f, s)
    | (.ok report, s) =>
      let (report, s) := s.keep key report
      (.ok report, s)

end Session

end ComponentSurvey
