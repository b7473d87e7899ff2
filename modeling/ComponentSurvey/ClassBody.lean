import ComponentSurvey.Convention
import ComponentSurvey.Signature

/-!
Classes: what they extend, and their members.
-/

set_option autoImplicit false

namespace ComponentSurvey.Tree

def isClassField (member : Tree) : Bool :=
  member.type == "public_field_definition" || member.type == "field_definition"

def methodTypes : List String :=
  ["method_definition", "method_signature", "abstract_method_signature"]

def heritageClauses (t : Tree) : List Tree := t.children.filter (·.type == "class_heritage")

def extendsClauses (heritage : Tree) : List Tree :=
  heritage.namedChildren.filter (·.type == "extends_clause")

/-- Text after the word `extends`; empty for a class that only implements interfaces. -/
def heritage (source : Source) (t : Tree) : String :=
  match t.heritageClauses.head? with
  | none => ""
  | some h =>
    let text := (h.extendsClauses.head?.getD h).text source
    if Text.startsWith "extends" text then
      Text.trimmed (String.ofList (text.toList.drop "extends".length))
    else ""

def heritageArgument? (source : Source) (t : Tree) : Option String :=
  (t.heritageClauses.flatMap extendsClauses).findSome? fun clause =>
    (clause.field? "type_arguments").bind fun args => args.contents.head?.map (text source)

def members (t : Tree) : List Tree :=
  match t.field? "body" with
  | none => []
  | some body => body.namedChildren

def isStatic (member : Tree) : Bool := member.hasToken "static"

def isPlainMethod (source : Source) (member : Tree) : Bool :=
  methodTypes.contains member.type && !(member.hasToken "get" || member.hasToken "set") &&
    member.name? source != some "constructor"

def isComponentClass (source : Source) (t : Tree) : Bool :=
  Convention.componentBases.any (Text.occursIn · (t.heritage source))

end ComponentSurvey.Tree
