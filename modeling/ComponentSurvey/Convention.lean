import ComponentSurvey.Json

/-!
Conventions of the component framework that a survey relies on, and the confidence it has in the
patterns that rest on them.
-/

set_option autoImplicit false

namespace ComponentSurvey

namespace Convention

def frameworkModule : String := "react"

/-- Name that the framework usually has where it is imported without one. -/
def frameworkName : String := "React"

def stateHook : String := "useState"

def effectHook : String := "useEffect"

def dependencyHooks : List String := ["useEffect", "useCallback", "useMemo"]

def componentBases : List String := ["Component", "PureComponent"]

def elementTypes : List String := ["Component", "FC", "JSX.Element", "ReactElement", "ReactNode"]

def sourcePatterns : List String := ["**/*.ts", "**/*.tsx", "**/*.js", "**/*.jsx"]

def excludedDirectories : List String :=
  ["node_modules", ".git", "dist", "build", "coverage", ".next", ".turbo", ".cache", "out"]

end Convention

inductive PatternKind where
  | customHook
  | higherOrder
  | context
  | singleton
  | factory
  deriving DecidableEq, Repr

namespace PatternKind

def all : List PatternKind := [customHook, higherOrder, context, singleton, factory]

def name : PatternKind → String
  | .customHook => "custom-hook"
  | .higherOrder => "higher-order-component"
  | .context => "react-context"
  | .singleton => "singleton"
  | .factory => "factory"

def usualWeight : PatternKind → Json
  | .customHook => .number (.decimal 9 (-1))
  | .higherOrder => .number (.decimal 8 (-1))
  | .context => .number (.decimal 1 0)
  | .singleton => .number (.decimal 9 (-1))
  | .factory => .number (.decimal 7 (-1))

end PatternKind

/-- Confidence by the name of a pattern, usually a number; nothing is computed with it. Names that no
pattern has are kept and never used. -/
abbrev Weights := List (String × Json)

namespace Weights

def weight (table : Weights) (k : PatternKind) : Json :=
  (table.lookup k.name).getD k.usualWeight

def completed (table : Weights) : Weights :=
  PatternKind.all.map (fun k => (k.name, table.weight k)) ++ table

end Weights

end ComponentSurvey
