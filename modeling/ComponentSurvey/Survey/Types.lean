import ComponentSurvey.Declaration

/-!
Interfaces and type aliases at the top level.
-/

set_option autoImplicit false

namespace ComponentSurvey.Tree

def property (source : Source) (member : Tree) : Property where
  name := (member.properName? source).getD (textOf source (member.field? "name"))
  type := typeText source (member.field? "type")
  optional := member.hasToken "?"
  isReadonly := member.hasToken "readonly"

def properties (source : Source) (t : Tree) : List Property :=
  match t.field? "body" with
  | none => []
  | some body =>
    (body.namedChildren.filter (·.type == "property_signature")).map (property source)

def extendedTypes (source : Source) (t : Tree) : List String :=
  (t.namedChildren.filter (·.type == "extends_type_clause")).flatMap fun clause =>
    clause.contents.map (text source)

def interfaceRecord (source : Source) (t : Tree) : Interface where
  name := (t.properName? source).getD "Anonymous"
  location := t.location source
  properties := t.properties source
  bases := t.extendedTypes source

def interfaces (source : Source) (root : Tree) : List Interface :=
  (root.topLevel.filter (·.type == "interface_declaration")).map (interfaceRecord source)

def typeAliasRecord (source : Source) (t : Tree) : TypeAlias where
  name := (t.properName? source).getD "Anonymous"
  type := textOf source (t.field? "value")
  location := t.location source

def typeAliases (source : Source) (root : Tree) : List TypeAlias :=
  (root.topLevel.filter (·.type == "type_alias_declaration")).map (typeAliasRecord source)

end ComponentSurvey.Tree
