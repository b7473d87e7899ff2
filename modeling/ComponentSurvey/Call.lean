import ComponentSurvey.Signature

/-!
Calls: what is called, with which arguments, and whether it is a hook.
-/

set_option autoImplicit false

namespace ComponentSurvey.Tree

def calledNames (source : Source) (t : Tree) : List String :=
  ((t.descendantsOf .call).filterMap fun c =>
    (c.field? "function").bind fun callee =>
      if callee.type == "identifier" || callee.type == "member_expression" then
        some (callee.text source)
      else none).eraseDups

/-- Name of the hook that a call calls: a plain name that begins with `use`. -/
def hookName? (source : Source) (call : Tree) : Option String :=
  (call.field? "function").bind fun callee =>
    if callee.type == "identifier" && Text.startsWith "use" (callee.text source) then
      some (callee.text source)
    else none

def arguments (call : Tree) : List Tree :=
  match call.field? "arguments" with
  | none => []
  | some args => args.contents

def isElement (expression : Tree) : Bool :=
  expression.unparenthesized.any (·.kind == .elementTree)

def returnsElement (statement : Tree) : Bool := statement.contents.head?.any isElement

/-- Whether a function returns an element. The body of a concise arrow is what it returns; any
other function is searched for return statements, those of functions inside it included. -/
def returnsElements (t : Tree) : Bool :=
  match t.kind, t.field? "body" with
  | .arrow, some body =>
    if body.type == "statement_block" then (t.descendantsOf .returnStatement).any returnsElement
    else body.isElement
  | _, _ => (t.descendantsOf .returnStatement).any returnsElement

end ComponentSurvey.Tree
