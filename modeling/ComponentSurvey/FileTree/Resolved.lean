import ComponentSurvey.FileTree.Lookup

/-!
Resolving paths. A path is resolved by replacing its links one after the other and taking back a part
for every `..`; it need not exist. A link that is met while it is being replaced is a loop, and the
path is left as it is from there on.
-/

set_option autoImplicit false

namespace ComponentSurvey

/-- A path without links: absolute, or from the current directory with `..` in front only. -/
structure LinkFree where
  isAbsolute : Bool
  /-- Innermost part first. -/
  reversed : List String
  deriving DecidableEq, Repr

namespace LinkFree

def top : LinkFree := ⟨true, []⟩

def here : LinkFree := ⟨false, []⟩

def text (p : LinkFree) : String :=
  let body := String.intercalate "/" p.reversed.reverse
  if p.isAbsolute then "/" ++ body else body

def enter (p : LinkFree) (part : String) : LinkFree := { p with reversed := part :: p.reversed }

def parent (p : LinkFree) : LinkFree :=
  match p.reversed with
  | [] => if p.isAbsolute then p else p.enter ".."
  | part :: above => if part == ".." then p.enter ".." else { p with reversed := above }

def route (current : Route) (p : LinkFree) : Route :=
  (p.reversed.foldr (fun part above => if part == ".." then above.drop 1 else part :: above)
    (if p.isAbsolute then [] else current.reverse)).reverse

end LinkFree

namespace FileTree

/-- What stands for each link met, by the link's own path; nothing yet while it is being replaced. -/
abbrev Replaced := List (String × Option LinkFree)

inductive Resolution where
  | free (p : LinkFree)
  | looped (path : String)
  deriving Repr

def linkTarget? (fs : FileTree) (p : LinkFree) : Option String :=
  match fs.entry? (p.route fs.current) with
  | some (.link target) => if p.text.utf8ByteSize ≤ longestPath then some target else none
  | _ => none

def startOf (directory : LinkFree) (path : String) : LinkFree :=
  if Path.isAbsolute path then .top else directory

/-- Goes on through the pieces of a path. `intoLink` replaces a link by its target's resolution. -/
def resolvePieces (fs : FileTree)
    (intoLink : Replaced → LinkFree → String → Except Failure (Resolution × Replaced)) :
    Replaced → LinkFree → List String → Except Failure (Resolution × Replaced)
  | replaced, p, [] => .ok (.free p, replaced)
  | replaced, p, piece :: rest =>
    if !Path.isMeaningful piece then resolvePieces fs intoLink replaced p rest
    else if piece == ".." then resolvePieces fs intoLink replaced p.parent rest
    else if Path.hasNull piece then .error .nullCharacter
    else
      let next := p.enter piece
      match fs.linkTarget? next with
      | none => resolvePieces fs intoLink replaced next rest
      | some target =>
        let unresolved := String.intercalate "/" rest
        match replaced.lookup next.text with
        | some (some known) => resolvePieces fs intoLink replaced known rest
        | some none => .ok (.looped (Path.join next.text unresolved), replaced)
        | none =>
          match intoLink ((next.text, none) :: replaced) p target with
          | .error f => .error f
          | .ok (.looped path, replaced) => .ok (.looped (Path.join path unresolved), replaced)
          | .ok (.free p, replaced) =>
            resolvePieces fs intoLink ((next.text, some p) :: replaced) p rest

/-- Links nested deeper than this are taken for a loop. -/
def deepestLink : Nat := 1000

def resolveFrom (fs : FileTree) :
    Nat → Replaced → LinkFree → String → Except Failure (Resolution × Replaced)
  | 0, replaced, directory, path => .ok (.looped (Path.join directory.text path), replaced)
  | depth + 1, replaced, directory, path =>
    fs.resolvePieces (resolveFrom fs depth) replaced (startOf directory path) (Path.pieces path)

def normalized (parts : List String) : List String :=
  (parts.foldl (fun above part => if part == ".." then above.drop 1 else part :: above) []).reverse

def routeOf (current : Route) (path : String) : Route :=
  let r := normalized ((if Path.isAbsolute path then [] else current) ++ Path.parts path)
  if Path.leadingSlashes path == "//" then "" :: r else r

/-- Absolute route of a path, its links replaced. The path need not exist; a loop is refused unless
the path does not go through it after all. -/
def resolve (fs : FileTree) (path : String) : Except Failure Route :=
  match fs.resolveFrom deepestLink [] .here (Path.display path) with
  | .error f => .error f
  | .ok (resolution, _) =>
    let r := routeOf fs.current (match resolution with
      | .free p => p.text
      | .looped path => path)
    if r.any Path.hasNull then .error .nullCharacter
    else match fs.locateRoute r with
    | .error .tooManyLinks => .error (.linkLoop r.text)
    | _ => .ok r

end FileTree

end ComponentSurvey
