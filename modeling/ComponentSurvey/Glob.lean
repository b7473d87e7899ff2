import ComponentSurvey.FileTree.Lookup
import ComponentSurvey.Wildcard

/-!
Path patterns: wildcards part by part, and `**` for any number of directories. Main operation: the
paths under a directory that a pattern selects.
-/

set_option autoImplicit false

namespace ComponentSurvey

inductive GlobPart where
  /-- The directory itself and all below it. -/
  | recursive
  /-- One name, which may be `..`. -/
  | name (n : String)
  | wild (ws : List Wildcard)
  deriving DecidableEq, Repr

/-- A path pattern. A slash at its end restricts it to directories. -/
structure Glob where
  parts : List GlobPart
  directoriesOnly : Bool
  deriving DecidableEq, Repr

namespace Glob

def hasWildcard (part : String) : Bool :=
  part.toList.any fun c => c == '*' || c == '?' || c == '['

def doublesStar : List Char → Bool
  | '*' :: '*' :: _ => true
  | _ :: cs => doublesStar cs
  | [] => false

def partOfString (part : String) : Except Failure GlobPart :=
  if part == "**" then .ok .recursive
  else if doublesStar part.toList then .error .misplacedRecursion
  else if hasWildcard part then .ok (.wild (Wildcard.ofString part))
  else .ok (.name part)

def ofString (pattern : String) : Except Failure Glob :=
  match (Path.parts pattern).mapM partOfString with
  | .ok [] => .error (.emptyPattern (Path.hasFinalSlash pattern))
  | .ok parts => .ok ⟨parts, Path.hasFinalSlash pattern⟩
  | .error f => .error f

def filterTested {α : Type} (p : α → Except Failure Bool) : List α → Except Failure (List α)
  | [] => .ok []
  | x :: xs =>
    match p x, filterTested p xs with
    | .ok true, .ok ys => .ok (x :: ys)
    | .ok false, .ok ys => .ok ys
    | .error f, _ => .error f
    | .ok _, .error f => .error f

def flatMapTested {α β : Type} (f : α → Except Failure (List β)) : List α → Except Failure (List β)
  | [] => .ok []
  | x :: xs =>
    match f x, flatMapTested f xs with
    | .ok ys, .ok zs => .ok (ys ++ zs)
    | .error e, _ => .error e
    | .ok _, .error e => .error e

def scan (fs : FileTree) (r : Route) : Except Failure (List (String × Entry)) :=
  match fs.locateRoute r with
  | .ok (.directory children) => .ok children
  | .ok _ => .error (.system .notDirectory r.text)
  | .error fault => .error (.system fault r.text)

def leadsToDirectory (fs : FileTree) (r : Route) : Entry → Except Failure Bool
  | .file .. => .ok false
  | .directory _ => .ok true
  | .link _ => fs.test Entry.isDirectory r

mutual
/-- A directory at a route and all directories below it, up to a failure if there is one. Links are
followed only to see that they can be. -/
def startsFrom (fs : FileTree) (r : Route) : Entry → List (Except Failure Route)
  | .file .. => []
  | .link _ =>
    match fs.test Entry.isDirectory r with
    | .ok _ => []
    | .error f => [.error f]
  | .directory children =>
    .ok r ::
      if FileTree.longestPath < r.text.utf8ByteSize then [.error (.system .nameTooLong r.text)]
      else startsInside fs r children
def startsInside (fs : FileTree) (r : Route) : List (String × Entry) → List (Except Failure Route)
  | [] => []
  | (name, e) :: rest => startsFrom fs (r ++ [name]) e ++ startsInside fs r rest
end

def starts (fs : FileTree) (r : Route) : List (Except Failure Route) :=
  match scan fs r with
  | .ok children => startsFrom fs r (.directory children)
  | .error f => [.ok r, .error f]

/-- Paths that the parts select from a directory on. `last` tells whether the selected paths
themselves have to be directories; all paths before the last part have to, and what is tested for it
is tested before its name. -/
def selectFrom (fs : FileTree) (last : Bool) : List GlobPart → Route → Except Failure (List Route)
  | [], r => .ok [r]
  | .recursive :: ps, r =>
    flatMapTested (fun
      | .ok start => selectFrom fs last ps start
      | .error f => .error f) (starts fs r)
  | .name n :: ps, r =>
    let kind := if ps.isEmpty && !last then fun _ => true else Entry.isDirectory
    match fs.test kind (r ++ [n]) with
    | .error f => .error f
    | .ok true => selectFrom fs last ps (r ++ [n])
    | .ok false => .ok []
  | .wild ws :: ps, r =>
    match scan fs r with
    | .error f => .error f
    | .ok children =>
      flatMapTested (fun (name, e) =>
        let next := r ++ [name]
        match if ps.isEmpty && !last then .ok true else leadsToDirectory fs next e with
        | .error f => .error f
        | .ok fits =>
          if fits && Wildcard.matchesName ws name then selectFrom fs last ps next
          else .ok []) children

def select (fs : FileTree) (g : Glob) (root : Route) : Except Failure (List Route) :=
  selectFrom fs g.directoriesOnly g.parts root

end Glob

end ComponentSurvey
