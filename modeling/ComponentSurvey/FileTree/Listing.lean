import ComponentSurvey.FileTree.Change
import ComponentSurvey.Json
import ComponentSurvey.Json.Reader
import ComponentSurvey.Tree.Flat

/-!
File trees listed in a document. Each item has a path, and is a directory, a link with its target,
or a file with its text (or its bytes in hexadecimal) and its syntax tree as a flat list.
-/

set_option autoImplicit false

namespace ComponentSurvey.Listing

def string? (j : Json) (key : String) : Option String :=
  match j.get? key with
  | some (.string s) => some s
  | _ => none

def items (j : Json) (key : String) : List Json :=
  match j.get? key with
  | some (.array xs) => xs
  | _ => []

def natural? : Json → Option Nat
  | .number (.whole n) => some n.toNat
  | _ => none

def hexBytes : List Char → List UInt8
  | a :: b :: r =>
    UInt8.ofNat (16 * (Json.hexValue? a).getD 0 + (Json.hexValue? b).getD 0) :: hexBytes r
  | _ => []

def bytesOf (j : Json) : List UInt8 :=
  match string? j "source", string? j "source_hex" with
  | some s, _ => Utf8.encode s
  | none, some h => hexBytes h.toList
  | none, none => []

def fieldNames (s : String) : List String :=
  if s == "" then [] else (Text.pieces ',' s.toList).map String.ofList

/-- A node as its type, its flags (one for named, two for missing), its span, its fields and the
number of its children. -/
def flatNode? : Json → Option (Label × Nat)
  | .array [.string type, flags, start, stop, .string fields, count] => do
    let flags ← natural? flags
    let label : Label := {
      type
      named := flags % 2 == 1
      missing := flags / 2 % 2 == 1
      span := ⟨← natural? start, ← natural? stop⟩
      fields := fieldNames fields }
    return (label, ← natural? count)
  | _ => none

def bareProgram (length : Nat) : Tree :=
  .node ⟨"program", true, false, ⟨0, length⟩, []⟩ []

def treeOf (j : Json) : Tree :=
  match j.get? "tree" with
  | some (.array xs) =>
    ((xs.mapM flatNode?).bind Tree.ofFlat?).getD (bareProgram (bytesOf j).length)
  | _ => bareProgram (bytesOf j).length

def entryOf (j : Json) : Entry :=
  match j.get? "dir", string? j "link" with
  | some (.bool true), _ => .directory []
  | _, some target => .link target
  | _, none => .file (bytesOf j) (treeOf j)

def fileTree (current : Route) (items : List (String × Entry)) : FileTree :=
  items.foldl (fun fs (path, e) => fs.write path e)
    ((FileTree.mk [] current).put current (.directory []))

def ofJson (current : Route) (j : Json) : FileTree :=
  match j with
  | .array js => fileTree current (js.map fun j => ((string? j "path").getD "", entryOf j))
  | _ => fileTree current []

end ComponentSurvey.Listing
