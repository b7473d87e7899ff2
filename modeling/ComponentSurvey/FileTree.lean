import ComponentSurvey.Path
import ComponentSurvey.Tree
import ComponentSurvey.Text.Utf8

/-!
File trees as values. A directory lists what stands in it by name; links are entries of their own.
Main operations: look up an absolute route, put an entry in place, take it away.
-/

set_option autoImplicit false

namespace ComponentSurvey

/-- Absolute path as its parts. An empty part in front of them is a second slash at the beginning,
which is kept in some paths and names the same place. -/
abbrev Route := List String

def Route.text : Route → String
  | "" :: parts => "//" ++ String.intercalate "/" parts
  | parts => "/" ++ String.intercalate "/" parts

inductive Entry where
  /-- A file with its bytes, and the syntax tree that the grammar of its suffix gives them. -/
  | file (bytes : List UInt8) (tree : Tree)
  /-- A directory with its entries by name, no name twice. -/
  | directory (children : List (String × Entry))
  | link (target : String)
  deriving Repr, Inhabited

namespace Entry

def isDirectory : Entry → Bool
  | .directory _ => true
  | _ => false

def isFile : Entry → Bool
  | .file .. => true
  | _ => false

def children : Entry → List (String × Entry)
  | .directory children => children
  | _ => []

def child? (e : Entry) (name : String) : Option Entry := e.children.lookup name

def at? : Entry → Route → Option Entry
  | e, [] => some e
  | e, name :: r => (e.child? name).bind (at? · r)

def putChild (name : String) (e : Entry) : List (String × Entry) → List (String × Entry)
  | [] => [(name, e)]
  | (n, old) :: rest => if n == name then (name, e) :: rest else (n, old) :: putChild name e rest

theorem lookup_putChild (name other : String) (e : Entry) (children : List (String × Entry)) :
    (putChild name e children).lookup other =
      if other == name then some e else children.lookup other := by
  induction children with
  | nil =>
    by_cases h : other == name <;> simp [putChild, List.lookup_cons, h]
  | cons c rest ih =>
    obtain ⟨n, old⟩ := c
    by_cases hn : n = name
    · subst hn
      by_cases h : other == n <;> simp [putChild, List.lookup_cons, h]
    · by_cases h : other = n
      · subst h
        simp [putChild, hn]
      · simp [putChild, List.lookup_cons, hn, beq_eq_false_iff_ne.2 h, ih]

/-- Puts an entry at a route. Directories on the way are made; a file or a link on the way stays, and
nothing is put below it. -/
def putAt (new : Entry) : Route → Entry → Entry
  | [], _ => new
  | name :: r, .directory children =>
    .directory (putChild name (putAt new r ((children.lookup name).getD (.directory []))) children)
  | _ :: _, e => e

def eraseAt : Route → Entry → Entry
  | [name], .directory children => .directory (children.filter (·.1 != name))
  | name :: r, .directory children =>
    match children.lookup name with
    | some e => .directory (putChild name (eraseAt r e) children)
    | none => .directory children
  | _, e => e

mutual
def filesFrom (r : Route) : Entry → List (Route × List UInt8)
  | .file bytes _ => [(r, bytes)]
  | .directory children => filesInside r children
  | .link _ => []
def filesInside (r : Route) : List (String × Entry) → List (Route × List UInt8)
  | [] => []
  | (name, e) :: rest => filesFrom (r ++ [name]) e ++ filesInside r rest
end

end Entry

/-- Entries of the top directory, and the directory against which relative paths are read. -/
structure FileTree where
  children : List (String × Entry)
  current : Route
  deriving Repr

namespace FileTree

def top (fs : FileTree) : Entry := .directory fs.children

def entry? (fs : FileTree) (r : Route) : Option Entry := fs.top.at? r

def put (fs : FileTree) (r : Route) (e : Entry) : FileTree :=
  if r.isEmpty then fs else { fs with children := (Entry.putAt e r fs.top).children }

def erase (fs : FileTree) (r : Route) : FileTree :=
  { fs with children := (Entry.eraseAt r fs.top).children }

def files (fs : FileTree) : List (Route × List UInt8) := Entry.filesFrom [] fs.top

end FileTree

end ComponentSurvey
