import ComponentSurvey.Json
import ComponentSurvey.Source

/-!
What a survey reports. Records hold plain values only, so they outlive the tree they were read from.
-/

set_option autoImplicit false

namespace ComponentSurvey

structure Parameter where
  name : String
  type : Option String := none
  optional : Bool := false
  defaultValue : Option String := none
  deriving DecidableEq, Repr

structure Component where
  name : String
  kind : String
  location : Location
  props : Option String := none
  hooks : List String := []
  stateVariables : List String := []
  effects : List String := []
  complexity : Int := 1
  deriving DecidableEq, Repr

structure Callable where
  name : String
  kind : String
  location : Location
  parameters : List Parameter := []
  returnType : Option String := none
  isAsync : Bool := false
  isGenerator : Bool := false
  complexity : Int := 1
  callsTo : List String := []
  deriving DecidableEq, Repr

/-- A call of a hook. No violations and an empty list of them are two different records. -/
structure Hook where
  name : String
  location : Location
  component : String := "Unknown"
  dependencies : List String := []
  violations : Option (List String) := none
  deriving DecidableEq, Repr

structure ImportedName where
  name : String
  localName : Option String := none
  isTypeOnly : Bool := false
  deriving DecidableEq, Repr

structure Import where
  source : String
  kind : String
  location : Location
  specifiers : List ImportedName := []
  deriving DecidableEq, Repr

/-- An exported name; its kind is `named`, `default` or `namespace`, what it exports a `value`,
`type` or `interface`. -/
structure Export where
  name : String
  kind : String
  location : Location
  exportKind : String := "value"
  deriving DecidableEq, Repr

structure Property where
  name : String
  type : Option String := none
  optional : Bool := false
  isReadonly : Bool := false
  deriving DecidableEq, Repr

structure Interface where
  name : String
  location : Location
  properties : List Property := []
  bases : List String := []
  deriving DecidableEq, Repr

structure TypeAlias where
  name : String
  type : String
  location : Location
  deriving DecidableEq, Repr

structure Dependency where
  source : String
  target : String
  kind : String := "import"
  deriving DecidableEq, Repr

structure Metrics where
  cyclomatic : Int := 1
  cognitive : Int := 0
  linesOfCode : Int := 0
  nestingDepth : Int := 0
  parameterCount : Int := 0
  deriving DecidableEq, Repr

/-- A design pattern that the source seems to follow. Its confidence is whatever value the table of
weights gives its type, and is written as it is. -/
structure Pattern where
  type : String
  name : String
  confidence : Json
  location : Location
  evidence : List String := []
  deriving DecidableEq, Repr

structure Survey where
  filePath : String
  complexity : Metrics
  components : List Component := []
  functions : List Callable := []
  hooks : List Hook := []
  imports : List Import := []
  exports : List Export := []
  interfaces : List Interface := []
  types : List TypeAlias := []
  dependencies : List Dependency := []
  patterns : List Pattern := []
  deriving DecidableEq, Repr

inductive Record where
  | location : Location → Record
  | parameter : Parameter → Record
  | component : Component → Record
  | callable : Callable → Record
  | hook : Hook → Record
  | importedName : ImportedName → Record
  | importStatement : Import → Record
  | exportedName : Export → Record
  | property : Property → Record
  | interface : Interface → Record
  | typeAlias : TypeAlias → Record
  | dependency : Dependency → Record
  | metrics : Metrics → Record
  | pattern : Pattern → Record
  | survey : Survey → Record
  deriving DecidableEq, Repr

end ComponentSurvey
