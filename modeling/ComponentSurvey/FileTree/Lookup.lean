import ComponentSurvey.Failure
import ComponentSurvey.FileTree

/-!
Following paths. A path is followed part by part from one directory to the next, through links, and
fails where something is missing or stands in the way.
-/

set_option autoImplicit false

namespace ComponentSurvey

/-- A place in a file tree: what stands there, and the directories above it, nearest first, each with
the name that was taken in it. -/
structure Spot where
  entry : Entry
  above : List (String × Entry)
  deriving Repr

namespace Spot

def route (s : Spot) : Route := (s.above.map (·.1)).reverse

def parent (s : Spot) : Spot :=
  match s.above with
  | [] => s
  | (_, directory) :: above => ⟨directory, above⟩

def enter (s : Spot) (name : String) (e : Entry) : Spot := ⟨e, (name, s.entry) :: s.above⟩

def at? : Spot → Route → Option Spot
  | s, [] => some s
  | s, name :: r => (s.entry.child? name).bind fun e => at? (s.enter name e) r

end Spot

namespace FileTree

def longestName : Nat := 255

def longestPath : Nat := 4095

def mostLinks : Nat := 40

def topSpot (fs : FileTree) : Spot := ⟨fs.top, []⟩

inductive Progress where
  | arrived (s : Spot)
  | failed (fault : Fault)
  | linked (directory : Spot) (target : String) (rest : List String)
  deriving Repr

def advance : Spot → List String → Progress
  | s, [] => .arrived s
  | s, part :: rest =>
    match s.entry with
    | .directory children =>
      if part == "." then advance s rest
      else if part == ".." then advance s.parent rest
      else if longestName < part.utf8ByteSize then .failed .nameTooLong
      else match children.lookup part with
        | none => .failed .missing
        | some (.link target) => .linked s target rest
        | some e => advance (s.enter part e) rest
    | _ => .failed .notDirectory

/-- Parts of a path as it is followed: a slash at the end asks for a directory. -/
def followedParts (path : String) : List String :=
  let pieces := (Path.pieces path).filter (· != "")
  if Path.hasFinalSlash path then pieces ++ ["."] else pieces

def startFrom (fs : FileTree) (directory : Spot) (path : String) : Spot :=
  if Path.isAbsolute path then fs.topSpot else directory

structure Arrival where
  spot : Spot
  links : Nat
  deriving Repr

def follow (fs : FileTree) : Nat → Spot → List String → Except Fault Arrival
  | links, s, parts =>
    match advance s parts with
    | .arrived s => .ok ⟨s, links⟩
    | .failed fault => .error fault
    | .linked directory target rest =>
      match links with
      | 0 => .error .tooManyLinks
      | links + 1 =>
        follow fs links (fs.startFrom directory target) (followedParts target ++ rest)

def currentSpot (fs : FileTree) : Except Fault Spot :=
  match fs.topSpot.at? fs.current with
  | some s => .ok s
  | none => .error .missing

def admitted (path : String) : Except Fault Unit :=
  if path == "" then .error .missing
  else if longestPath < path.utf8ByteSize then .error .nameTooLong
  else .ok ()

def locate (fs : FileTree) (path : String) : Except Fault Entry :=
  match admitted path, fs.currentSpot with
  | .error fault, _ => .error fault
  | .ok _, .error fault => .error fault
  | .ok _, .ok current =>
    match fs.follow mostLinks (fs.startFrom current path) (followedParts path) with
    | .error fault => .error fault
    | .ok arrival => .ok arrival.spot.entry

def locateRoute (fs : FileTree) (r : Route) : Except Fault Entry :=
  match admitted r.text with
  | .error fault => .error fault
  | .ok _ =>
    match fs.follow mostLinks fs.topSpot (r.filter (· != "")) with
    | .error fault => .error fault
    | .ok arrival => .ok arrival.spot.entry

/-- Whether an entry of a kind is found. What is merely not there is no failure. -/
def found (p : Entry → Bool) : Except Fault Entry → Except Fault Bool
  | .ok e => .ok (p e)
  | .error .nameTooLong => .error .nameTooLong
  | .error _ => .ok false

/-- Asks for an entry of a kind at a route; failures name the route. Nothing stands at a route with a
null character. -/
def test (fs : FileTree) (p : Entry → Bool) (r : Route) : Except Failure Bool :=
  if r.any Path.hasNull then .ok false
  else match found p (fs.locateRoute r) with
    | .ok b => .ok b
    | .error fault => .error (.system fault r.text)

def read (fs : FileTree) (r : Route) : Except Failure (List UInt8 × Tree) :=
  match fs.locateRoute r with
  | .ok (.file bytes tree) => .ok (bytes, tree)
  | .ok _ => .error (.unreadable r.text Fault.isDirectory.text)
  | .error .missing => .error (.system .missing r.text)
  | .error fault => .error (.unreadable r.text fault.text)

end FileTree

end ComponentSurvey
