import ComponentSurvey.Text.Digit

/-!
Arguments of the command line. Options may stand before and after the path, a value may stand in the
same argument or in the next one, short options may be joined, and `--` ends the options.
-/

set_option autoImplicit false

namespace ComponentSurvey.CommandLine

inductive Flag where
  | output
  | pattern
  | exclude
  | workers
  | profile
  | verbose
  | help
  deriving DecidableEq, Repr

namespace Flag

def takesValue : Flag → Bool
  | .verbose | .help => false
  | _ => true

def ofLong? : String → Option Flag
  | "--output" => some .output
  | "--pattern" => some .pattern
  | "--exclude" => some .exclude
  | "--workers" => some .workers
  | "--profile" => some .profile
  | "--verbose" => some .verbose
  | "--help" => some .help
  | _ => none

def ofShort? : Char → Option Flag
  | 'o' => some .output
  | 'p' => some .pattern
  | 'w' => some .workers
  | 'v' => some .verbose
  | _ => none

end Flag

structure Options where
  long? : String → Option Flag
  short? : Char → Option Flag

def Options.analyze : Options := ⟨Flag.ofLong?, Flag.ofShort?⟩

def Options.helpOnly : Options :=
  ⟨fun s => if s == "--help" then some .help else none, fun _ => none⟩

abbrev Given := List (Flag × String)

structure Expanded where
  given : Given
  pending : Option Flag
  deriving Repr

/-- Letters of an argument such as `-vo`. The first one with a value takes the rest as value. -/
def expandShort (o : Options) : List Char → Option Expanded
  | [] => some ⟨[], none⟩
  | c :: cs =>
    match o.short? c with
    | none => none
    | some f =>
      if !f.takesValue then (expandShort o cs).map fun e => { e with given := (f, "") :: e.given }
      else if cs.isEmpty then some ⟨[], some f⟩
      else some ⟨[(f, String.ofList cs)], none⟩

def expandLong (f : Flag) : Option String → Option Expanded
  | some value => if f.takesValue then some ⟨[(f, value)], none⟩ else none
  | none => if f.takesValue then some ⟨[], some f⟩ else some ⟨[(f, "")], none⟩

def splitValue (arg : String) : String × Option String :=
  let cs := arg.toList
  match cs.dropWhile (· != '=') with
  | _ :: value => (String.ofList (cs.takeWhile (· != '=')), some (String.ofList value))
  | [] => (arg, none)

def expand (o : Options) (arg : String) : Option Expanded :=
  let (name, value) := splitValue arg
  match o.long? name with
  | some f => expandLong f value
  | none =>
    match arg.toList with
    | '-' :: '-' :: _ => none
    | _ :: cs => expandShort o cs
    | [] => none

def isOption (arg : String) : Bool :=
  match arg.toList with
  | '-' :: _ :: _ => true
  | _ => false

structure Sorted where
  given : Given
  rest : List String
  deriving Repr

def sortArguments (o : Options) : List String → Option Sorted
  | [] => some ⟨[], []⟩
  | arg :: args =>
    if arg == "--" then some ⟨[], args⟩
    else if isOption arg then
      match expand o arg, args with
      | none, _ => none
      | some ⟨given, none⟩, args =>
        (sortArguments o args).map fun s => { s with given := given ++ s.given }
      | some ⟨_, some _⟩, [] => none
      | some ⟨given, some f⟩, value :: args =>
        (sortArguments o args).map fun s => { s with given := given ++ (f, value) :: s.given }
    else (sortArguments o args).map fun s => { s with rest := arg :: s.rest }

namespace Given

def all (g : Given) (f : Flag) : List String := (g.filter (·.1 == f)).map (·.2)

/-- Of an option given several times the last one counts. -/
def last? (g : Given) (f : Flag) : Option String := (g.all f).getLast?

def has (g : Given) (f : Flag) : Bool := g.any (·.1 == f)

end Given

structure AnalyzeOptions where
  path : String
  output : Option String
  patterns : List String
  excluded : List String
  workers : Int
  profile : Option String
  verbose : Bool
  deriving DecidableEq, Repr

inductive Command where
  | analyze (o : AnalyzeOptions)
  | patterns (path : String)
  deriving DecidableEq, Repr

def Command.path : Command → String
  | .analyze o => o.path
  | .patterns path => path

inductive Request where
  | help
  | misuse
  /-- More than one path. The first one is looked at before this is refused. -/
  | surplus (path : String)
  | run (c : Command)
  deriving DecidableEq, Repr

def withPath (s : Sorted) (f : String → Option Command) : Request :=
  if s.given.has .help then .help
  else match s.rest with
    | [] => .misuse
    | path :: more =>
      match f path with
      | some c => if more.isEmpty then .run c else .surplus path
      | none => .misuse

def workersOf (g : Given) : Option Int :=
  match g.all .workers with
  | [] => some 1
  | ws => (ws.getLast?.bind Text.integer?)

def analyzeCommand (g : Given) (path : String) : Option Command :=
  (workersOf g).map fun workers => .analyze {
    path
    output := g.last? .output
    patterns := g.all .pattern
    excluded := g.all .exclude
    workers
    profile := g.last? .profile
    verbose := g.has .verbose }

def requestOf (name : String) (args : List String) : Request :=
  if name == "analyze" then
    match sortArguments .analyze args with
    | none => .misuse
    | some s => withPath s (analyzeCommand s.given)
  else if name == "patterns" then
    match sortArguments .helpOnly args with
    | none => .misuse
    | some s => withPath s fun path => some (.patterns path)
  else .misuse

/-- Reads all arguments. Before the name of a command only a plea for help or the version stands,
which is answered once all of them are read. -/
def Request.ofArguments : Bool → List String → Request
  | asked, [] => if asked then .help else .misuse
  | asked, arg :: args =>
    if arg == "--" then
      if asked then .help
      else match args with
        | [] => .misuse
        | name :: args => requestOf name args
    else if isOption arg then
      if arg == "--help" || arg == "--version" then ofArguments true args else .misuse
    else if asked then .help
    else requestOf arg args

def Request.parse (args : List String) : Request := .ofArguments false args

end ComponentSurvey.CommandLine
