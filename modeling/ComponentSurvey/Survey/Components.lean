import ComponentSurvey.Call
import ComponentSurvey.ClassBody
import ComponentSurvey.Complexity
import ComponentSurvey.Declaration
import ComponentSurvey.Tree.Node

/-!
Components: capitalized functions that return elements, and classes that extend a component base.
-/

set_option autoImplicit false

namespace ComponentSurvey

/-- Hooks a function calls (each once), the state variables it binds and the effects it runs. -/
structure HookUsage where
  hooks : List String
  stateVariables : List String
  effects : List String
  deriving DecidableEq, Repr

/-- First name of a list pattern such as `[value, setValue]`. A hole or a nested pattern has none. -/
def Tree.firstElementName? (source : Source) (pattern : Tree) : Option String :=
  (pattern.children.find? (·.type != "[")).bind fun element =>
    (if element.type == "assignment_pattern" then element.field? "left" else some element).bind
      fun e => if e.type == "identifier" then some (e.text source) else none

def Node.stateVariable? (source : Source) (call : Node) : Option String :=
  call.parent?.bind fun declarator =>
    if declarator.kind == .variable && call.isField "value" then
      (declarator.tree.field? "name").bind fun pattern =>
        if pattern.type == "array_pattern" then pattern.firstElementName? source else none
    else none

namespace Tree

def hookCalls (source : Source) (t : Tree) : List (String × Node) :=
  (Node.ofTree t).descendants.filterMap fun n =>
    if n.kind == .call then (n.tree.hookName? source).map (·, n) else none

def hookUsage (source : Source) (t : Tree) : HookUsage :=
  let calls := t.hookCalls source
  { hooks := (calls.map (·.1)).eraseDups
    stateVariables := calls.filterMap fun (name, n) =>
      if name == Convention.stateHook then n.stateVariable? source else none
    effects := (calls.map (·.1)).filter (· == Convention.effectHook) }

/-- Declared type of a class's `props`, else the type argument of what it extends. -/
def classProps? (source : Source) (t : Tree) : Option String :=
  (t.members.findSome? fun m =>
    if m.name? source == some "props" && m.isClassField then typeText source (m.field? "type")
    else none).orElse fun _ => t.heritageArgument? source

def assignedState (source : Source) (t : Tree) : List String :=
  if t.type != "assignment_expression" then []
  else match t.field? "left", (t.field? "right").bind unparenthesized with
    | some left, some right =>
      if left.type == "member_expression" &&
          (left.field? "object").any (·.type == "this") &&
          textOf source (left.field? "property") == "state" &&
          right.type == "object" then
        (right.namedChildren.filter (·.type == "pair")).filterMap fun pair =>
          (pair.field? "key").map fun key =>
            if key.type == "string" then stringValue source (some key) else key.text source
      else []
    | _, _ => []

def classStateVariables (source : Source) (t : Tree) : List String :=
  match t.members.find? fun m =>
      m.type == "method_definition" && m.name? source == some "constructor" with
  | none => []
  | some c => c.descendants.flatMap (assignedState source)

end Tree

namespace Declaration

def isComponentFunction (d : Declaration) : Bool :=
  d.name.any isCapitalized && d.target.returnsElements

def functionComponent (source : Source) (d : Declaration) : Component :=
  let usage := d.target.hookUsage source
  { name := d.displayName
    kind := d.form.name
    location := d.node.location source
    props := (d.target.parameters source).head?.bind (·.type)
    hooks := usage.hooks
    stateVariables := usage.stateVariables
    effects := usage.effects
    complexity := d.target.cyclomatic }

def classComponent (source : Source) (d : Declaration) : Component where
  name := d.displayName
  kind := "class"
  location := d.node.location source
  props := d.target.classProps? source
  hooks := []
  stateVariables := d.target.classStateVariables source
  effects := []
  complexity := d.target.cyclomatic

def component? (source : Source) (d : Declaration) : Option Component :=
  if d.form == .classLike then
    if d.target.isComponentClass source then some (d.classComponent source) else none
  else if d.isComponentFunction then some (d.functionComponent source)
  else none

end Declaration

def Tree.components (source : Source) (root : Tree) : List Component :=
  (root.declarations source).filterMap (Declaration.component? source)

end ComponentSurvey
