import ComponentSurvey.Session.Interleaving

/-!
Batches: all files found under a directory. A file that fails is reported and left out; it affects
no other. A failure that is not to be expected of a file ends the whole batch. A batch can be done at
once, by several workers, or file by file as results are asked for.
-/

set_option autoImplicit false

namespace ComponentSurvey

structure FileOutcome where
  path : Route
  result : Except Failure Report
  deriving Repr

/-- The failure of a file that ends its batch: one that is not to be expected of a file. -/
def FileOutcome.fatal? (o : FileOutcome) : Option Failure :=
  match o.result with
  | .ok _ => none
  | .error f => if f.isExpected then none else some f

structure Batch where
  results : List Report
  failures : List (Route × Failure)
  deriving DecidableEq, Repr

namespace Batch

def empty : Batch := ⟨[], []⟩

def add (o : FileOutcome) (b : Batch) : Batch :=
  match o.result with
  | .ok report => { b with results := report :: b.results }
  | .error f => { b with failures := (o.path, f) :: b.failures }

def ofOutcomes (os : List FileOutcome) : Batch := os.foldr add empty

end Batch

/-- A report asked for one at a time, with the number of reports the session then keeps. -/
structure Yield where
  report : Report
  cacheSize : Nat
  deriving DecidableEq, Repr

/-- What has been asked for of a batch so far, and the failure that ended it if one did. -/
structure Stream where
  yields : List Yield
  failures : List (Route × Failure)
  raised : Option Failure
  deriving DecidableEq, Repr

namespace Session

def writeFailure (path : Route) (f : Failure) (s : Session) : Session :=
  s.write .error .analysis ("Error analyzing " ++ path.text ++ ": " ++ f.message)

def noteOutcome (s : Session) (o : FileOutcome) : Session :=
  match o.result with
  | .ok _ => s
  | .error f => if f.isExpected then s.writeFailure o.path f else s

def tryFile (fs : FileTree) (path : Route) (s : Session) : FileOutcome × Session :=
  match s.analyzeFile fs path.text with
  | (result, s) => (⟨path, result⟩, s.noteOutcome ⟨path, result⟩)

def tryFiles (fs : FileTree) : List Route → Session → List FileOutcome × Session
  | [], s => ([], s)
  | path :: paths, s =>
    let (o, s) := s.tryFile fs path
    if o.fatal?.isSome then ([o], s)
    else
      let (os, s) := tryFiles fs paths s
      (o :: os, s)

def outcomeOf? (path : Route) (r : Request) : Option FileOutcome :=
  r.result?.map (⟨path, ·⟩)

def tryFilesBy (schedule : List Action) (fs : FileTree) (paths : List Route) (s : Session) :
    List FileOutcome × Session :=
  let w : Workshop := ⟨fs, s, paths.map fun p => Request.new p.text⟩
  let w := w.run schedule
  let os := (paths.zip w.requests).filterMap fun (p, r) => outcomeOf? p r
  (os, os.foldl noteOutcome w.session)

def patternsOf (patterns : Option (List String)) : List String :=
  match patterns with
  | none | some [] => Convention.sourcePatterns
  | some ps => ps

def find (fs : FileTree) (directory : String) (patterns excluded : Option (List String))
    (s : Session) : Except Failure (List Route) × Session :=
  match Discovery.find fs directory (patterns.getD Convention.sourcePatterns)
      (excluded.getD Convention.excludedDirectories) with
  | .error f => (.error f, s)
  | .ok d =>
    (.ok d.files, s.write .debug .discovery
      ("Found " ++ toString d.files.length ++ " files under " ++ d.root.text))

def conclude (os : List FileOutcome) (s : Session) : Except Failure Batch × Session :=
  match os.findSome? FileOutcome.fatal? with
  | some f => (.error f, s)
  | none =>
    let b := Batch.ofOutcomes os
    (.ok b, s.write .info .analysis
      ("Analyzed " ++ toString b.results.length ++ " files (" ++ toString b.failures.length ++
        " errors)"))

def analyzeDirectory (fs : FileTree) (directory : String) (patterns : Option (List String))
    (workers : Int) (s : Session) : Except Failure Batch × Session :=
  match s.find fs directory (some (patternsOf patterns)) s.excluded with
  | (.error f, s) => (.error f, s)
  | (.ok paths, s) =>
    let s := s.write .info .analysis
      ("Analyzing " ++ toString paths.length ++ " files under " ++ directory)
    let (os, s) :=
      if 1 < workers then s.tryFilesBy (Workshop.inTurn paths.length) fs paths
      else s.tryFiles fs paths
    s.conclude os

/-- Adds what became of one file to what the files after it give, unless its report is the last one
that is asked for or its failure ends the batch. -/
def streamFrom (limit : Option Nat) (path : Route) (rest : Option Nat → Session → Stream × Session) :
    FileOutcome × Session → Stream × Session
  | (⟨_, .error f⟩, s) =>
    if f.isExpected then
      let (t, s) := rest limit s
      ({ t with failures := (path, f) :: t.failures }, s)
    else (⟨[], [], some f⟩, s)
  | (⟨_, .ok report⟩, s) =>
    let yield := ⟨report, s.cache.length⟩
    match limit with
    | some 0 | some 1 => (⟨[yield], [], none⟩, s)
    | _ =>
      let (t, s) := rest (limit.map (· - 1)) s
      ({ t with yields := yield :: t.yields }, s)

def stream (fs : FileTree) : Option Nat → List Route → Session → Stream × Session
  | _, [], s => (⟨[], [], none⟩, s)
  | limit, path :: paths, s =>
    streamFrom limit path (fun limit s => stream fs limit paths s) (s.tryFile fs path)

def iterateDirectory (fs : FileTree) (directory : String) (patterns : Option (List String))
    (limit : Option Nat) (s : Session) : Except Failure Stream × Session :=
  match s.find fs directory (some (patternsOf patterns)) s.excluded with
  | (.error f, s) => (.error f, s)
  | (.ok paths, s) =>
    let (t, s) := s.stream fs limit paths
    (.ok t, s)

end Session

namespace Batch

def componentCount (b : Batch) : Nat := (b.results.flatMap (·.survey.components)).length

def functionCount (b : Batch) : Nat := (b.results.flatMap (·.survey.functions)).length

end Batch

end ComponentSurvey
