import ComponentSurvey.Convention
import ComponentSurvey.Path
import ComponentSurvey.Signature

/-!
Import statements, the modules they lead to, and the name under which the framework is known.
-/

set_option autoImplicit false

namespace ComponentSurvey

inductive Binding where
  | default
  | namespace_
  | named
  deriving DecidableEq, Repr

namespace Tree

def identifierChild? (t : Tree) : Option Tree :=
  t.namedChildren.find? (·.type == "identifier")

def clauseBindings (source : Source) (typeOnly : Bool) (t : Tree) :
    List (Binding × ImportedName) :=
  if t.type == "identifier" then [(.default, ⟨t.text source, none, typeOnly⟩)]
  else if t.type == "namespace_import" then
    [(.namespace_, ⟨textOf source t.identifierChild?, none, typeOnly⟩)]
  else if t.type == "named_imports" then
    (t.namedChildren.filter (·.type == "import_specifier")).map fun s =>
      (.named, {
        name := textOf source (s.field? "name")
        localName := (s.field? "alias").map (text source)
        isTypeOnly := typeOnly || s.hasToken "type" })
  else []

def isRequireClause (t : Tree) : Bool := t.type == "import_require_clause"

def importBindings (source : Source) (typeOnly : Bool) (t : Tree) :
    List (Binding × ImportedName) :=
  if t.isRequireClause then
    [(.default, ⟨textOf source t.identifierChild?, none, typeOnly⟩)]
  else if t.type == "import_clause" then t.namedChildren.flatMap (clauseBindings source typeOnly)
  else []

/-- Literal that names the module; a require clause has its own. -/
def moduleLiteral? (statement : Tree) : Option Tree :=
  match (statement.namedChildren.filter isRequireClause).getLast? with
  | some clause => clause.field? "source"
  | none => statement.field? "source"

end Tree

/-- A default binding decides the kind of an import, then a namespace, then names. -/
def importKind (bindings : List Binding) : String :=
  if bindings.contains .default then "default"
  else if bindings.contains .namespace_ then "namespace"
  else if bindings.contains .named then "named"
  else "side-effect"

def Tree.importRecord (source : Source) (statement : Tree) : Import :=
  let bindings :=
    statement.namedChildren.flatMap (importBindings source (statement.hasToken "type"))
  { source := stringValue source statement.moduleLiteral?
    kind := importKind (bindings.map (·.1))
    location := statement.location source
    specifiers := bindings.map (·.2) }

def Tree.imports (source : Source) (root : Tree) : List Import :=
  (root.namedChildren.filter (·.type == "import_statement")).map (importRecord source)

namespace Import

def bindsFramework (i : Import) : Bool := i.kind == "default" || i.kind == "namespace"

/-- Name of the framework in a file: what its first import with a binding binds, or the usual name
when no import of it has one. None in a file that does not import the framework. -/
def frameworkName? (imports : List Import) : Option String :=
  let framework := imports.filter (·.source == Convention.frameworkModule)
  match framework.findSome? fun i =>
      if i.bindsFramework then i.specifiers.head?.map (·.name) else none with
  | some name => some name
  | none => if framework.isEmpty then none else some Convention.frameworkName

def dependencies (path : String) (imports : List Import) : List Dependency :=
  imports.map fun i => ⟨Path.name path, i.source, "import"⟩

end Import

end ComponentSurvey
