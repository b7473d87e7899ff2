import ComponentSurvey.FileTree.Resolved

/-!
Changing a file tree by path. Directories on the way are made when they are missing; writing to a
link writes what it leads to, removing a link removes the link.
-/

set_option autoImplicit false

namespace ComponentSurvey.FileTree

def around (path : String) : String :=
  Path.leadingSlashes path ++ String.intercalate "/" (Path.parts path).dropLast

def placeOf (fs : FileTree) (path : String) : Except Failure Route :=
  match (Path.parts path).getLast? with
  | none | some ".." => fs.resolve path
  | some name => (fs.resolve (around path)).map (· ++ [name])

/-- Puts an entry at a path. A directory that is there stays, with all that is in it; at a path that
no entry can have, nothing changes. -/
def write (fs : FileTree) (path : String) (e : Entry) : FileTree :=
  match if e.isFile then fs.resolve path else fs.placeOf path with
  | .error _ => fs
  | .ok r => if (fs.entry? r).any Entry.isDirectory then fs else fs.put r e

def remove (fs : FileTree) (path : String) : FileTree :=
  match fs.placeOf path with
  | .error _ => fs
  | .ok r => fs.erase r

/-- Route of the file that is written when a path is opened for writing, going through a number of
links at the end of the path. A slash at the end names a directory in any case. -/
def openedRoute (fs : FileTree) : Nat → Nat → Spot → String → Except Fault Route
  | 0, _, _, _ => .error .tooManyLinks
  | steps + 1, links, directory, path =>
    let pieces := (Path.pieces path).filter (· != "")
    match fs.follow links (fs.startFrom directory path) pieces.dropLast, pieces.getLast? with
    | .error fault, _ => .error fault
    | .ok _, none => .error .isDirectory
    | .ok ⟨⟨.directory children, above⟩, links⟩, some name =>
      if !Path.isMeaningful name || name == ".." || Path.hasFinalSlash path then
        .error .isDirectory
      else if longestName < name.utf8ByteSize then .error .nameTooLong
      else
        let here : Spot := ⟨.directory children, above⟩
        match children.lookup name with
        | some (.directory _) => .error .isDirectory
        | some (.link target) =>
          match links with
          | 0 => .error .tooManyLinks
          | links + 1 => openedRoute fs steps links here target
        | _ => .ok (here.route ++ [name])
    | .ok _, some _ => .error .notDirectory

def writableRoute (fs : FileTree) (path : String) : Except Failure Route :=
  if Path.hasNull path then .error .nullCharacter
  else
    let route : Except Fault Route := match admitted path, fs.currentSpot with
      | .error fault, _ => .error fault
      | .ok _, .error fault => .error fault
      | .ok _, .ok current => fs.openedRoute (mostLinks + 1) mostLinks current path
    match route with
    | .ok r => .ok r
    | .error fault => .error (.system fault path)

end ComponentSurvey.FileTree
