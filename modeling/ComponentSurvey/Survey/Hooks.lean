import ComponentSurvey.Survey.Components

/-!
Calls of hooks: where they belong, what they depend on, and which rules of hooks they break.
-/

set_option autoImplicit false

namespace ComponentSurvey

def Kind.isConditional : Kind → Bool
  | .ifStatement | .whileLoop | .doLoop | .forLoop | .switch | .ternary => true
  | _ => false

inductive HookViolation where
  | conditional
  | outsideFunction
  deriving DecidableEq, Repr

def HookViolation.text : HookViolation → String
  | .conditional => "Hook called conditionally"
  | .outsideFunction => "Hook not called inside function component"

/-- Name of a component-like node: a capitalized function or variable, or a component class. -/
def Tree.componentName? (source : Source) (t : Tree) : Option String :=
  match t.kind with
  | .function | .variable => (t.name? source).filter isCapitalized
  | .classLike =>
    if t.isComponentClass source then some ((t.properName? source).getD "Anonymous") else none
  | _ => none

namespace Node

def enclosingComponent (source : Source) (n : Node) : String :=
  (n.ancestors.findSome? (·.tree.componentName? source)).getD "Unknown"

/-- Whether code that is not always run stands between a call and the function around it. -/
def isConditional (call : Node) : Bool :=
  (call.ancestors.takeWhile (!·.kind.isFunctionLike)).any (·.kind.isConditional)

def isInFunction (call : Node) : Bool := call.ancestors.any (·.kind.isFunctionLike)

def violations (call : Node) : List HookViolation :=
  (if call.isConditional then [.conditional] else []) ++
    (if call.isInFunction then [] else [.outsideFunction])

end Node

def Tree.hookDependencies (source : Source) (name : String) (call : Tree) : List String :=
  if !Convention.dependencyHooks.contains name then []
  else match call.arguments[1]? with
    | none => []
    | some list =>
      if list.type == "array" then
        (list.namedChildren.filter (·.type == "identifier")).map (text source)
      else []

def Node.hook (source : Source) (name : String) (call : Node) : Hook :=
  let violations := call.violations.map HookViolation.text
  { name
    location := call.tree.location source
    component := call.enclosingComponent source
    dependencies := call.tree.hookDependencies source name
    violations := if violations.isEmpty then none else some violations }

def Tree.hooks (source : Source) (root : Tree) : List Hook :=
  (root.hookCalls source).map fun (name, call) => call.hook source name

end ComponentSurvey
