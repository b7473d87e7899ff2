import ComponentSurvey.Session.Operation

/-!
Sessions whose batches are taken in pieces. A batch can be left after any result and taken up again
after other operations; a batch by several workers can take their steps in any order.
-/

set_option autoImplicit false

namespace ComponentSurvey

/-- A workspace, and the batches begun in it, each with the files that it has not yet looked at. -/
structure Bench where
  workspace : Workspace
  pending : List (List Route)

inductive Move where
  | operation (o : Operation)
  /-- A batch by several workers; the numbers say whose request takes the next step. -/
  | workers (path : String) (patterns : Option (List String)) (order : List Nat)
  /-- Finds the files of a batch, and looks at none of them. -/
  | begin (path : String) (patterns : Option (List String))
  /-- Goes on with a batch until one more result has come, or no file is left. -/
  | next (i : Nat)

namespace Session

def analyzeDirectoryBy (order : List Nat) (fs : FileTree) (directory : String)
    (patterns : Option (List String)) (s : Session) : Except Failure Batch × Session :=
  match s.find fs directory (some (patternsOf patterns)) s.excluded with
  | (.error f, s) => (.error f, s)
  | (.ok paths, s) =>
    let s := s.write .info .analysis
      ("Analyzing " ++ toString paths.length ++ " files under " ++ directory)
    let (os, s) := s.tryFilesBy (order.map .proceed) fs paths
    s.conclude os

end Session

namespace Workshop

def turns (count : Nat) : List Nat := (List.range count).flatMap (List.replicate 3)

theorem inTurn_eq (count : Nat) : inTurn count = (turns count).map .proceed := by
  simp [inTurn, turns, List.map_flatMap]

end Workshop

namespace Stream

/-- Files that can still be looked at. A batch that a failure ended has none. -/
def left (t : Stream) (paths : List Route) : List Route :=
  if t.raised.isSome then [] else paths.drop (t.yields.length + t.failures.length)

end Stream

namespace Bench

def start (files : FileTree) (weights : Weights) (excluded : Option (List String)) : Bench :=
  ⟨⟨files, .new weights excluded⟩, []⟩

def files (b : Bench) : FileTree := b.workspace.files

def session (b : Bench) : Session := b.workspace.session

def withSession (b : Bench) (s : Session) : Bench := { b with workspace.session := s }

def step (b : Bench) : Move → Bench
  | .operation o => { b with workspace := (b.workspace.step o).2 }
  | .workers path patterns order =>
    b.withSession (b.session.analyzeDirectoryBy order b.files path patterns).2
  | .begin path patterns =>
    match b.session.find b.files path (some (Session.patternsOf patterns)) b.session.excluded with
    | (.error _, s) => b.withSession s
    | (.ok paths, s) => { b.withSession s with pending := b.pending ++ [paths] }
  | .next i =>
    match b.pending[i]? with
    | none => b
    | some paths =>
      let (t, s) := b.session.stream b.files (some 1) paths
      { b.withSession s with pending := b.pending.set i (t.left paths) }

def run (b : Bench) (moves : List Move) : Bench := moves.foldl step b

theorem run_concat (b : Bench) (moves : List Move) (m : Move) :
    b.run (moves ++ [m]) = (b.run moves).step m := by
  simp [run]

end Bench

namespace Session

theorem stream_failed {fs : FileTree} {path p : Route} {s after : Session} {f : Failure}
    (h : s.tryFile fs path = (⟨p, .error f⟩, after)) (hf : f.isExpected) (limit : Option Nat)
    (paths : List Route) :
    s.stream fs limit (path :: paths) =
      ({ (after.stream fs limit paths).1 with
          failures := (path, f) :: (after.stream fs limit paths).1.failures },
        (after.stream fs limit paths).2) := by
  simp [stream, h, streamFrom, hf]

theorem stream_fatal {fs : FileTree} {path p : Route} {s after : Session} {f : Failure}
    (h : s.tryFile fs path = (⟨p, .error f⟩, after)) (hf : ¬ f.isExpected) (limit : Option Nat)
    (paths : List Route) :
    s.stream fs limit (path :: paths) = (⟨[], [], some f⟩, after) := by
  simp [stream, h, streamFrom, hf]

theorem stream_last {fs : FileTree} {path p : Route} {s after : Session} {r : Report}
    (h : s.tryFile fs path = (⟨p, .ok r⟩, after)) (paths : List Route) :
    s.stream fs (some 1) (path :: paths) = (⟨[⟨r, after.cache.length⟩], [], none⟩, after) := by
  rw [stream, h]
  rfl

theorem stream_more {fs : FileTree} {path p : Route} {s after : Session} {r : Report}
    (h : s.tryFile fs path = (⟨p, .ok r⟩, after)) (n : Nat) (paths : List Route) :
    s.stream fs (some (n + 2)) (path :: paths) =
      ({ (after.stream fs (some (n + 1)) paths).1 with
          yields := ⟨r, after.cache.length⟩ :: (after.stream fs (some (n + 1)) paths).1.yields },
        (after.stream fs (some (n + 1)) paths).2) := by
  rw [stream, h]
  rfl

end Session

end ComponentSurvey
