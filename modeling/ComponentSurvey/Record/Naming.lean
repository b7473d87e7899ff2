import ComponentSurvey.Path
import ComponentSurvey.Record.Content

/-!
Names of fields. The words of a field's name stand between underscores; it is written in camel case,
unless its class has another name for it.
-/

set_option autoImplicit false

namespace ComponentSurvey

namespace Text

def capitalized : List Char → List Char
  | [] => []
  | c :: cs => c.toUpper :: cs.map Char.toLower

/-- Words without the underscores between them, all but the first one capitalized. -/
def camelCase (name : String) : String :=
  match pieces '_' name.toList with
  | [] => ""
  | first :: rest => String.ofList (first ++ rest.flatMap capitalized)

end Text

namespace RecordClass

def names : RecordClass → List String
  | .location => ["line", "column", "end_line", "end_column"]
  | .parameter => ["name", "type", "optional", "default_value"]
  | .component =>
    ["name", "kind", "location", "props", "hooks", "state_variables", "effects", "complexity"]
  | .callable =>
    ["name", "kind", "location", "parameters", "return_type", "is_async", "is_generator",
      "complexity", "calls_to"]
  | .hook => ["name", "location", "component", "dependencies", "violations"]
  | .importedName => ["name", "alias", "is_type_only"]
  | .importStatement => ["source", "kind", "location", "specifiers"]
  | .exportedName => ["name", "kind", "location", "export_kind"]
  | .property => ["name", "type", "optional", "readonly"]
  | .interface => ["name", "location", "properties", "extends"]
  | .typeAlias => ["name", "type", "location"]
  | .dependency => ["source", "target", "kind"]
  | .metrics =>
    ["cyclomatic_complexity", "cognitive_complexity", "lines_of_code", "nesting_depth",
      "parameter_count"]
  | .pattern => ["type", "name", "confidence", "location", "evidence"]
  | .survey =>
    ["file_path", "complexity", "components", "functions", "hooks", "imports", "exports",
      "interfaces", "types", "dependencies", "patterns"]

def renames : RecordClass → List (String × String)
  | .callable => [("is_async", "async"), ("is_generator", "generator")]
  | .dependency => [("source", "from"), ("target", "to")]
  | _ => []

def key (c : RecordClass) (name : String) : String :=
  (c.renames.lookup name).getD (Text.camelCase name)

theorem keys_eq (c : RecordClass) : c.keys = c.names.map c.key := by
  cases c <;> decide +kernel

/-- No two fields of a class are written under one name. -/
theorem nodup_keys (c : RecordClass) : c.keys.Nodup := by
  cases c <;> decide

end RecordClass

end ComponentSurvey
