import ComponentSurvey.CommandLine.Arguments
import ComponentSurvey.Json.Shown
import ComponentSurvey.Json.Written
import ComponentSurvey.Record.Document
import ComponentSurvey.Session.Operation

/-!
The command line: `analyze` writes the surveys of a file or a directory as a document, `patterns`
lists the design patterns found.
-/

set_option autoImplicit false

namespace ComponentSurvey.CommandLine

structure Table where
  title : String
  columns : List String
  rows : List (List String)
  rowStyles : List (Option String)
  deriving DecidableEq, Repr

inductive Printed where
  /-- Least level of log lines that are shown. -/
  | logLevel (level : Nat)
  | line (text : String)
  | table (t : Table)
  deriving DecidableEq, Repr

/-- Result of a command: its exit code, its output, the files as it leaves them, and a failure that
it did not handle. -/
structure Outcome where
  exit : Nat
  stdout : String
  printed : List Printed
  files : FileTree
  raised : Option Failure
  deriving Repr

def debugLevel : Nat := 10

def infoLevel : Nat := 20

def warningLevel : Nat := 30

structure Findings where
  surveys : List Survey
  failures : List (Route × Failure)
  printed : List Printed
  files : FileTree
  deriving Repr

def isFile (fs : FileTree) (path : String) : Except Failure Bool :=
  match FileTree.found Entry.isFile (fs.locate (Path.display path)) with
  | .ok b => .ok b
  | .error fault => .error (.system fault (Path.display path))

def Findings.ofBatch (fs : FileTree) (b : Batch) : Findings :=
  ⟨b.results.map (·.survey), b.failures, [], fs⟩

/-- Writes what was measured while a batch ran, and says so. An empty name writes nothing. The
measurements themselves are left open. -/
def saveProfile (name : String) (f : Findings) : Except Failure Findings :=
  let line := "Profiled " ++ toString f.surveys.length ++ " files in <time>, saved to " ++ name
  let f := { f with printed := f.printed ++ [.line line] }
  if name == "" then .ok f
  else match f.files.writableRoute name with
    | .error e => .error e
    | .ok r => .ok { f with files := f.files.put r (.file [] (.node default [])) }

def findings (fs : FileTree) (path : String) (patterns excluded : List String) (workers : Int)
    (profile : Option String) : Except Failure Findings := do
  let s := Session.new [] (if excluded.isEmpty then none else some excluded)
  if ← isFile fs path then
    let report ← (s.analyzeFile fs path).1
    return ⟨[report.survey], [], [], fs⟩
  else
    let b ← (s.analyzeDirectory fs path (some patterns) workers).1
    match profile with
    | none => return .ofBatch fs b
    | some name => saveProfile name (.ofBatch fs b)

def summaryRows (f : Findings) : List (List String) :=
  let count {α : Type} (g : Survey → List α) : String :=
    toString (f.surveys.flatMap g).length
  [["Files", toString f.surveys.length],
    ["Components", count (·.components)],
    ["Functions", count (·.functions)],
    ["Hooks", count (·.hooks)],
    ["Hook violations", count fun s => s.hooks.filter fun h => h.violations.any (!·.isEmpty)],
    ["Patterns", count (·.patterns)],
    ["Failures", toString f.failures.length]]

def summary (f : Findings) : Table where
  title := "Analysis Summary"
  columns := ["Metric", "Value"]
  rows := summaryRows f
  rowStyles := List.replicate 6 none ++ [if f.failures.isEmpty then none else some "red"]

def failureLine (path : Route) (f : Failure) : Printed :=
  .line ("[red]✗[/red] " ++ path.text ++ ": " ++ f.message)

def payload (surveys : List Survey) : String :=
  (Json.array (surveys.map Survey.toJson)).written (some 2)

def failed (fs : FileTree) (printed : List Printed) (f : Failure) : Outcome :=
  if f.isExpected then
    ⟨1, "", printed ++ [.line ("[red]Error:[/red] " ++ f.message)], fs, none⟩
  else ⟨1, "", printed, fs, some f⟩

def reported (f : Findings) (stdout : String) (printed : List Printed) (files : FileTree) :
    Outcome :=
  ⟨0, stdout, printed ++ .table (summary f) :: f.failures.map fun (path, e) => failureLine path e,
    files, none⟩

def delivered (f : Findings) (output : Option String) (printed : List Printed) : Outcome :=
  let text := payload f.surveys
  match output.filter (· != "") with
  | none => reported f (text ++ "\n") printed f.files
  | some name =>
    match f.files.writableRoute name with
    | .error e => ⟨1, "", printed, f.files, some e⟩
    | .ok r =>
      let bytes := Utf8.encode text
      reported f "" (printed ++ [.line ("Output: " ++ name)])
        (f.files.put r (.file bytes (.node default [])))

def analyze (fs : FileTree) (o : AnalyzeOptions) : Outcome :=
  let level := [Printed.logLevel (if o.verbose then debugLevel else infoLevel)]
  match findings fs o.path o.patterns o.excluded o.workers o.profile with
  | .error e => failed fs level e
  | .ok f => delivered f o.output (level ++ f.printed)

def confidenceText : Json → String
  | .number n => n.oneDecimal
  | j => j.shown

def patternRow (s : Survey) (p : Pattern) : List String :=
  [Path.name s.filePath, p.type, p.name, confidenceText p.confidence, toString p.location.line]

def patternTable (surveys : List Survey) : Table :=
  let rows := surveys.flatMap fun s => s.patterns.map (patternRow s)
  { title := "Detected Patterns"
    columns := ["File", "Pattern", "Name", "Confidence", "Line"]
    rows
    rowStyles := rows.map fun _ => none }

def patterns (fs : FileTree) (path : String) : Outcome :=
  let level := [Printed.logLevel warningLevel]
  match findings fs path [] [] 1 none with
  | .error e => failed fs level e
  | .ok f => ⟨0, "", level ++ [.table (patternTable f.surveys)], fs, none⟩

def pathExists (fs : FileTree) (path : String) : Bool := (fs.locate path).isOk

inductive Ending where
  | exit (code : Nat)
  | outcome (o : Outcome)
  deriving Repr

def runCommand (fs : FileTree) : Command → Outcome
  | .analyze o => analyze fs o
  | .patterns path => patterns fs path

def brokenPath (fs : FileTree) : Ending := .outcome ⟨1, "", [], fs, some .nullCharacter⟩

/-- Help succeeds; wrong usage, a path that does not exist included, has an exit code of its own. -/
def run (fs : FileTree) (args : List String) : Ending :=
  match Request.parse args with
  | .help => .exit 0
  | .misuse => .exit 2
  | .surplus path => if Path.hasNull path then brokenPath fs else .exit 2
  | .run c =>
    if Path.hasNull c.path then brokenPath fs
    else if pathExists fs c.path then .outcome (runCommand fs c)
    else .exit 2

end ComponentSurvey.CommandLine
