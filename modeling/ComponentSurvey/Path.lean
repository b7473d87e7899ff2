/-!
Names of files. A path is split at slashes; empty parts and `.` mean nothing.
-/

set_option autoImplicit false

namespace ComponentSurvey

namespace Text

def pieces (separator : Char) : List Char → List (List Char)
  | [] => [[]]
  | c :: cs =>
    if c == separator then [] :: pieces separator cs
    else match pieces separator cs with
      | [] => [[c]]
      | p :: ps => (c :: p) :: ps

theorem pieces_ne_nil (separator : Char) (cs : List Char) : pieces separator cs ≠ [] := by
  cases cs with
  | nil => simp [pieces]
  | cons c cs =>
    simp only [pieces]
    split
    · simp
    · split <;> simp

end Text

namespace Path

def pieces (path : String) : List String :=
  (Text.pieces '/' path.toList).map String.ofList

def isMeaningful (part : String) : Bool := part != "" && part != "."

def parts (path : String) : List String := (pieces path).filter isMeaningful

def isAbsolute (path : String) : Bool := path.toList.head? == some '/'

def hasNull (text : String) : Bool := text.toList.contains '\x00'

/-- Slashes at the beginning: exactly two of them stay two, more are one. -/
def leadingSlashes (path : String) : String :=
  match path.toList with
  | '/' :: '/' :: '/' :: _ => "/"
  | '/' :: '/' :: _ => "//"
  | '/' :: _ => "/"
  | _ => ""

def hasFinalSlash (path : String) : Bool := path.toList.getLast? == some '/'

/-- A path without the parts that mean nothing; `.` when none is left. -/
def display (path : String) : String :=
  let shown := leadingSlashes path ++ String.intercalate "/" (parts path)
  if shown == "" then "." else shown

/-- Second path put behind the first one, which it replaces if it is absolute. -/
def join (path rest : String) : String :=
  if isAbsolute rest then rest
  else if path == "" || hasFinalSlash path then path ++ rest
  else path ++ "/" ++ rest

def name (path : String) : String := (parts path).getLast?.getD ""

/-- From the last dot of a name, unless that dot is its first or its last character. -/
def suffixOfName (name : String) : String :=
  let cs := name.toList
  let tail := (cs.reverse.takeWhile (· != '.')).reverse
  let before := cs.length - tail.length - 1
  if tail.isEmpty || cs.length ≤ tail.length || before == 0 then ""
  else String.ofList ('.' :: tail)

def suffix (path : String) : String := suffixOfName (name path)

end Path

end ComponentSurvey
