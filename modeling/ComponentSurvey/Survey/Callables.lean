import ComponentSurvey.Failure
import ComponentSurvey.Survey.Components

/-!
Functions that are no components, and the methods of classes.
-/

set_option autoImplicit false

namespace ComponentSurvey

namespace Tree

/-- A method under the name of its class. A name that is no plain one is taken as it is written. -/
def method (source : Source) (owner : String) (t : Tree) : Callable where
  name := owner ++ "." ++ (t.properName? source).getD (textOf source (t.field? "name"))
  kind := "method"
  location := t.location source
  parameters := t.parameters source
  returnType := t.returnType? source
  isAsync := t.isAsync
  isGenerator := t.isGenerator
  complexity := t.cyclomatic
  callsTo := t.calledNames source

def analyzedMethod (source : Source) (owner : String) (t : Tree) : Except Failure Callable :=
  if methodTypes.contains t.type then .ok (t.method source owner)
  else .error (.wrongNode "method" t.type)

end Tree

namespace Declaration

def callable (source : Source) (d : Declaration) : Callable where
  name := d.displayName
  kind := d.form.name
  location := d.node.location source
  parameters := d.target.parameters source
  returnType := d.target.returnType? source
  isAsync := d.target.isAsync
  isGenerator := d.target.isGenerator
  complexity := d.target.cyclomatic
  callsTo := d.target.calledNames source

/-- A class gives its methods, a function itself unless it is a component. -/
def callables (source : Source) (d : Declaration) : List Callable :=
  if d.form == .classLike then
    (d.target.members.filter (Tree.isPlainMethod source)).map (Tree.method source d.displayName)
  else if d.isComponentFunction then []
  else [d.callable source]

end Declaration

def Tree.callables (source : Source) (root : Tree) : List Callable :=
  (root.declarations source).flatMap (Declaration.callables source)

end ComponentSurvey
