import ComponentSurvey.Json

/-!
Records in general: a class, and a value for each field of the class. Any value may stand in any
field; null stands for no value and is not written.
-/

set_option autoImplicit false

namespace ComponentSurvey

inductive RecordClass where
  | location
  | parameter
  | component
  | callable
  | hook
  | importedName
  | importStatement
  | exportedName
  | property
  | interface
  | typeAlias
  | dependency
  | metrics
  | pattern
  | survey
  deriving DecidableEq, Repr

namespace RecordClass

def keys : RecordClass → List String
  | .location => ["line", "column", "endLine", "endColumn"]
  | .parameter => ["name", "type", "optional", "defaultValue"]
  | .component =>
    ["name", "kind", "location", "props", "hooks", "stateVariables", "effects", "complexity"]
  | .callable =>
    ["name", "kind", "location", "parameters", "returnType", "async", "generator", "complexity",
      "callsTo"]
  | .hook => ["name", "location", "component", "dependencies", "violations"]
  | .importedName => ["name", "alias", "isTypeOnly"]
  | .importStatement => ["source", "kind", "location", "specifiers"]
  | .exportedName => ["name", "kind", "location", "exportKind"]
  | .property => ["name", "type", "optional", "readonly"]
  | .interface => ["name", "location", "properties", "extends"]
  | .typeAlias => ["name", "type", "location"]
  | .dependency => ["from", "to", "kind"]
  | .metrics =>
    ["cyclomaticComplexity", "cognitiveComplexity", "linesOfCode", "nestingDepth",
      "parameterCount"]
  | .pattern => ["type", "name", "confidence", "location", "evidence"]
  | .survey =>
    ["filePath", "complexity", "components", "functions", "hooks", "imports", "exports",
      "interfaces", "types", "dependencies", "patterns"]

end RecordClass

/-- What a field holds; the fields of a record have the order of its class. -/
inductive Content where
  | value : Json → Content
  | list : List Content → Content
  | record : RecordClass → List Content → Content
  deriving Repr

namespace Content

def nothing : Content := .value .null

def isNothing : Content → Bool
  | .value .null => true
  | _ => false

def text (s : String) : Content := .value (.string s)

def whole (n : Int) : Content := .value (.whole n)

def flag (b : Bool) : Content := .value (.bool b)

def texts (ss : List String) : Content := .list (ss.map text)

def ofOption {α : Type} (f : α → Content) : Option α → Content
  | none => nothing
  | some x => f x

def ofList {α : Type} (f : α → Content) (xs : List α) : Content := .list (xs.map f)

def fields : Content → List Content
  | .record _ fs => fs
  | _ => []

mutual
def toJson : Content → Json
  | .value j => j
  | .list xs => .array (toJsonItems xs)
  | .record c fs => .object (toJsonFields c.keys fs)
def toJsonItems : List Content → List Json
  | [] => []
  | x :: xs => x.toJson :: toJsonItems xs
def toJsonFields : List String → List Content → List (String × Json)
  | k :: ks, f :: fs =>
    if f.isNothing then toJsonFields ks fs else (k, f.toJson) :: toJsonFields ks fs
  | _, _ => []
end

mutual
/-- Equality, with numbers compared as numbers. Records of different classes are never the same. -/
def same : Content → Content → Bool
  | .value a, .value b => a.same b
  | .list xs, .list ys => sameItems xs ys
  | .record c fs, .record d gs => c == d && sameItems fs gs
  | _, _ => false
def sameItems : List Content → List Content → Bool
  | [], [] => true
  | x :: xs, y :: ys => x.same y && sameItems xs ys
  | _, _ => false
end

end Content

end ComponentSurvey
