import ComponentSurvey.CommandLine
import ComponentSurvey.FileTree.Listing

/-!
The program. Standard input lists the files with their syntax trees; documents go to standard
output, everything else to the console, and files that a command writes are written.
-/

set_option autoImplicit false

namespace ComponentSurvey.Main

open CommandLine

partial def readAll (input : IO.FS.Stream) (text : String) : IO String := do
  let line ← input.getLine
  if line.isEmpty then return text else readAll input (text ++ line)

def showTable (t : Table) : IO Unit := do
  IO.eprintln t.title
  for row in t.columns :: t.rows do
    IO.eprintln (String.intercalate "  " row)

def showPrinted : Printed → IO Unit
  | .logLevel _ => return
  | .line s => IO.eprintln s
  | .table t => showTable t

def changedFiles (before after : FileTree) : List (Route × List UInt8) :=
  after.files.filter fun (r, bytes) =>
    match before.entry? r with
    | some (.file old _) => bytes != old
    | _ => true

def finish (before : FileTree) (o : Outcome) : IO UInt32 := do
  for (r, bytes) in changedFiles before o.files do
    IO.FS.writeFile r.text (Utf8.decode bytes)
  IO.print o.stdout
  o.printed.forM showPrinted
  if let some f := o.raised then IO.eprintln f.message
  return o.exit.toUInt32

end ComponentSurvey.Main

def main (args : List String) : IO UInt32 := do
  let text ← ComponentSurvey.Main.readAll (← IO.getStdin) ""
  let current ← IO.currentDir
  let files := ComponentSurvey.Listing.ofJson (ComponentSurvey.Path.parts current.toString)
    ((ComponentSurvey.Json.parse? text).getD .null)
  match ComponentSurvey.CommandLine.run files args with
  | .exit code => return code.toUInt32
  | .outcome o => ComponentSurvey.Main.finish files o
