import ComponentSurvey.Convention
import ComponentSurvey.FileTree.Resolved
import ComponentSurvey.Glob

/-!
Discovery of source files under a directory: pattern by pattern, each pattern's files in the order
of their parts, no file twice, nothing inside excluded directories.
-/

set_option autoImplicit false

namespace ComponentSurvey

def Route.le (a b : Route) : Bool := !decide (b < a)

structure Discovery where
  root : Route
  files : List Route
  deriving DecidableEq, Repr

namespace Discovery

def isRelativePattern (pattern : String) : Bool := pattern != "" && !Path.isAbsolute pattern

def directoryParts (root path : Route) : List String := (path.drop root.length).dropLast

def isExcluded (excluded : List String) (root path : Route) : Bool :=
  (directoryParts root path).any excluded.contains

def matched (fs : FileTree) (excluded : List String) (root : Route) (pattern : String) :
    Except Failure (List Route) := do
  let glob ← Glob.ofString pattern
  let paths ← glob.select fs root
  Glob.filterTested (fs.test Entry.isFile)
    ((paths.mergeSort Route.le).filter (!isExcluded excluded root ·))

/-- Finds files. Patterns are checked before the directory is looked at. -/
def find (fs : FileTree) (directory : String) (patterns excluded : List String) :
    Except Failure Discovery :=
  match patterns.find? (!isRelativePattern ·) with
  | some pattern => .error (.invalidPattern pattern)
  | none => do
    let root ← fs.resolve directory
    if ← fs.test Entry.isDirectory root then
      let found ← Glob.flatMapTested (matched fs excluded root) patterns
      return ⟨root, found.eraseDups⟩
    else .error (.notADirectory directory)

end Discovery

end ComponentSurvey
