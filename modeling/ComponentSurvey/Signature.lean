import ComponentSurvey.Record
import ComponentSurvey.Text.Blank

/-!
What a declaration says before its body: name, parameters, types and modifiers.
-/

set_option autoImplicit false

namespace ComponentSurvey

namespace Tree

def identifierTypes : List String :=
  ["identifier", "type_identifier", "property_identifier", "private_property_identifier"]

def typeText (source : Source) (clause : Option Tree) : Option String :=
  clause.bind fun t =>
    let text := Text.trimmed (t.text source)
    let type := match text.toList with
      | ':' :: rest => Text.trimmed (String.ofList rest)
      | _ => text
    if type == "" then none else some type

/-- Text of a string literal without its quotes: its fragments if it has any, else what stands
between the quote characters at its ends. -/
def stringValue (source : Source) (literal : Option Tree) : String :=
  match literal with
  | none => ""
  | some t =>
    let fragments := t.namedChildren.filter (·.type == "string_fragment")
    if fragments.isEmpty then Text.unquoted (t.text source)
    else String.join (fragments.map (text source))

/-- Name that a function, class, declarator or member declares. A pattern declares no single name. -/
def name? (source : Source) (t : Tree) : Option String :=
  (t.field? "name").bind fun n =>
    if identifierTypes.contains n.type then some (n.text source)
    else if n.type == "string" then some (stringValue source (some n))
    else none

def nameOf (source : Source) (t : Option Tree) : Option String := t.bind (name? source)

def properName? (source : Source) (t : Tree) : Option String :=
  (t.name? source).filter (· != "")

def parameter? (source : Source) (t : Tree) : Option Parameter :=
  if t.type == "required_parameter" || t.type == "optional_parameter" then
    let pattern := t.field? "pattern"
    let value := t.field? "value"
    let isRest := pattern.any (·.type == "rest_pattern")
    some {
      name := textOf source pattern
      type := typeText source (t.field? "type")
      optional := t.type == "optional_parameter" || value.isSome || isRest
      defaultValue := value.map (text source) }
  else if t.type == "assignment_pattern" then
    some {
      name := textOf source (t.field? "left")
      type := none
      optional := true
      defaultValue := some (textOf source (t.field? "right")) }
  else if t.isComment then none
  else
    some {
      name := t.text source
      type := none
      optional := t.type == "rest_pattern"
      defaultValue := none }

/-- Declared parameters of a function-like node. An arrow may have a single one without a list. -/
def parameters (source : Source) (t : Tree) : List Parameter :=
  match t.field? "parameter" with
  | some single => [⟨single.text source, none, false, none⟩]
  | none =>
    match t.field? "parameters" with
    | none => []
    | some ps => ps.namedChildren.filterMap (parameter? source)

def returnType? (source : Source) (t : Tree) : Option String :=
  typeText source (t.field? "return_type")

def isAsync (t : Tree) : Bool := t.hasToken "async"

def isGenerator (t : Tree) : Bool :=
  t.type == "generator_function_declaration" || t.type == "generator_function" || t.hasToken "*"

end Tree

def isCapitalized (name : String) : Bool :=
  match name.toList with
  | c :: _ => 'A' ≤ c && c ≤ 'Z'
  | [] => false

end ComponentSurvey
