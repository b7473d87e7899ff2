import ComponentSurvey.Survey.Components
import ComponentSurvey.Survey.Imports

/-!
Design patterns. Each is recognised by one shape and reported with a fixed confidence: a hint, not a
proof. Patterns of the framework are looked for only in files that import it.
-/

set_option autoImplicit false

namespace ComponentSurvey

def isHookName (name : String) : Bool :=
  Text.startsWith "use" name && isCapitalized (String.ofList (name.toList.drop 3))

namespace Declaration

def customHook? (source : Source) (weight : Json) (d : Declaration) : Option Pattern :=
  if d.form == .classLike then none
  else (d.name.filter isHookName).map fun name => {
    type := PatternKind.customHook.name
    name
    confidence := weight
    location := d.node.location source
    evidence := ["Custom hook " ++ name ++ " follows React conventions"] }

/-- A function declaration whose name begins with `with` and whose return type names elements. -/
def higherOrder? (source : Source) (weight : Json) (d : Declaration) : Option Pattern :=
  if d.target.kind != .function then none
  else (d.name.filter (Text.startsWith "with")).bind fun name =>
    let type := (d.target.returnType? source).getD ""
    if Convention.elementTypes.any (Text.occursIn · type) then some {
      type := PatternKind.higherOrder.name
      name
      confidence := weight
      location := d.node.location source
      evidence := ["Function name starts with \"with\"", "Returns a component"] }
    else none

/-- A class with a static field `instance` and a static method `getInstance`. -/
def singleton? (source : Source) (weight : Json) (d : Declaration) : Option Pattern :=
  let members := d.target.members
  if d.form == .classLike &&
      members.any (fun m => m.isClassField && m.isStatic && m.name? source == some "instance") &&
      members.any (fun m =>
        m.type == "method_definition" && m.isStatic && m.name? source == some "getInstance") then
    some {
      type := PatternKind.singleton.name
      name := d.properName?.getD "Unknown"
      confidence := weight
      location := d.node.location source
      evidence := ["Has static instance property", "Has getInstance method"] }
  else none

/-- A function declaration with `factory` in its name, in any case, that returns in several places. -/
def factory? (source : Source) (weight : Json) (d : Declaration) : Option Pattern :=
  if d.target.kind != .function then none
  else (d.name.filter fun name => Text.occursIn "factory" (Text.lowerAscii name)).bind fun name =>
    if 1 < (d.target.descendantsOf .returnStatement).length then some {
      type := PatternKind.factory.name
      name
      confidence := weight
      location := d.node.location source
      evidence := ["Function name contains \"factory\"", "Multiple return statements"] }
    else none

end Declaration

def Tree.createsContext (source : Source) (framework : String) (call : Tree) : Bool :=
  call.kind == .call && (call.field? "function").any fun callee =>
    callee.type == "member_expression" &&
      textOf source (callee.field? "object") == framework &&
      textOf source (callee.field? "property") == "createContext"

def Node.context? (source : Source) (framework : String) (weight : Json) (call : Node) :
    Option Pattern :=
  if call.tree.createsContext source framework then
    let bound := call.parent?.bind fun p =>
      if p.kind == .variable then p.tree.properName? source else none
    some {
      type := PatternKind.context.name
      name := bound.getD "Context Provider"
      confidence := weight
      location := call.tree.location source
      evidence := ["Uses " ++ framework ++ ".createContext"] }
  else none

def Tree.frameworkPatterns (source : Source) (table : Weights) (framework : String) (root : Tree) :
    List Pattern :=
  let declarations := root.declarations source
  declarations.filterMap (Declaration.customHook? source (table.weight .customHook)) ++
    (declarations.findSome? (Declaration.higherOrder? source (table.weight .higherOrder))).toList ++
    ((Node.ofTree root).descendants.findSome?
      (Node.context? source framework (table.weight .context))).toList

def Tree.patterns (source : Source) (table : Weights) (imports : List Import) (root : Tree) :
    List Pattern :=
  let declarations := root.declarations source
  (match Import.frameworkName? imports with
    | none => []
    | some framework => root.frameworkPatterns source table framework) ++
    (declarations.findSome? (Declaration.singleton? source (table.weight .singleton))).toList ++
    (declarations.findSome? (Declaration.factory? source (table.weight .factory))).toList

end ComponentSurvey
