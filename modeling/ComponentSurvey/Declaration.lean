import ComponentSurvey.Signature

/-!
Top-level declarations. An export statement stands for what it exports.
-/

set_option autoImplicit false

namespace ComponentSurvey

inductive DeclarationForm where
  | function
  | arrow
  | classLike
  deriving DecidableEq, Repr

def DeclarationForm.name : DeclarationForm → String
  | .function => "function"
  | .arrow => "arrow"
  | .classLike => "class"

/-- A function, arrow or class: the node whose place is reported, and the one that holds its body. -/
structure Declaration where
  form : DeclarationForm
  name : Option String
  node : Tree
  target : Tree
  deriving Repr

namespace Declaration

def properName? (d : Declaration) : Option String := d.name.filter (· != "")

def displayName (d : Declaration) : String := d.properName?.getD "Anonymous"

end Declaration

namespace Tree

def isExport (t : Tree) : Bool := t.type == "export_statement"

def exported? (statement : Tree) : Option Tree :=
  (statement.field? "declaration").orElse fun _ => statement.field? "value"

def topLevel (root : Tree) : List Tree :=
  root.namedChildren.filterMap fun t => if t.isExport then t.exported? else some t

def isVariableStatement (t : Tree) : Bool :=
  t.type == "lexical_declaration" || t.type == "variable_declaration"

def declarators (statement : Tree) : List Tree :=
  statement.namedChildren.filter (·.kind == .variable)

/-- A declarator declares a function when it binds one name to an arrow or a function expression. -/
def boundFunction? (source : Source) (declarator : Tree) : Option Declaration :=
  match declarator.name? source, (declarator.field? "value").bind unparenthesized with
  | some name, some value =>
    match value.kind with
    | .arrow => some ⟨.arrow, some name, declarator, value⟩
    | .functionExpression => some ⟨.function, some name, declarator, value⟩
    | _ => none
  | _, _ => none

def declarationsOf (source : Source) (statement : Tree) : List Declaration :=
  match statement.kind with
  | .classLike => [⟨.classLike, statement.name? source, statement, statement⟩]
  | .function | .functionExpression => [⟨.function, statement.name? source, statement, statement⟩]
  | .arrow => [⟨.arrow, none, statement, statement⟩]
  | _ =>
    if statement.isVariableStatement then
      statement.declarators.filterMap (boundFunction? source)
    else []

def declarations (source : Source) (root : Tree) : List Declaration :=
  root.topLevel.flatMap (declarationsOf source)

end Tree

end ComponentSurvey
