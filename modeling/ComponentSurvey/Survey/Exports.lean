import ComponentSurvey.Declaration

/-!
Export statements. Their forms are told apart in this order: a list of names, a default, an
assignment, everything of a module, a declaration.
-/

set_option autoImplicit false

namespace ComponentSurvey.Tree

def childOfType? (t : Tree) (type : String) : Option Tree :=
  t.namedChildren.find? (·.type == type)

def exportKind (declaration : Tree) : String :=
  if declaration.type == "interface_declaration" then "interface"
  else if declaration.type == "type_alias_declaration" then "type"
  else "value"

/-- Names that a declaration binds. A declarator with a pattern binds none that is reported. -/
def declaredNames (source : Source) (declaration : Tree) : List String :=
  if declaration.isVariableStatement then
    declaration.declarators.filterMap (properName? source)
  else (declaration.properName? source).toList

def listedExports (source : Source) (typeOnly : Bool) (clause : Tree) : List Export :=
  (clause.namedChildren.filter (·.type == "export_specifier")).map fun s => {
    name := textOf source (s.field? "name")
    kind := "named"
    location := s.location source
    exportKind := if typeOnly || s.hasToken "type" then "type" else "value" }

/-- A default export has the name of what it exports, if that has one. -/
def defaultExport (source : Source) (statement : Tree) : Export :=
  let value := statement.field? "value"
  let target := statement.exported?
  let plain := value.bind fun v => if v.type == "identifier" then some (v.text source) else none
  let name := (nameOf source target).orElse fun _ => plain
  { name := (name.filter (· != "")).getD "default"
    kind := "default"
    location := statement.location source
    exportKind := (target.map exportKind).getD "value" }

def namespaceExport (source : Source) (name : String) (statement : Tree) : Export where
  name
  kind := "namespace"
  location := statement.location source
  exportKind := "value"

def namespaceName (source : Source) (namespaceClause : Option Tree) : String :=
  let name := namespaceClause.bind fun c =>
    c.namedChildren.find? fun t => t.type == "identifier" || t.type == "string"
  (name.map (text source)).getD "*"

def exportsOf (source : Source) (statement : Tree) : List Export :=
  let namespaceClause := statement.childOfType? "namespace_export"
  match statement.childOfType? "export_clause" with
  | some clause => clause.listedExports source (statement.hasToken "type")
  | none =>
    if statement.hasToken "default" then [statement.defaultExport source]
    else if statement.hasToken "=" then
      [statement.namespaceExport source (textOf source statement.contents.head?)]
    else if namespaceClause.isSome || statement.hasToken "*" then
      [statement.namespaceExport source (namespaceName source namespaceClause)]
    else match statement.field? "declaration" with
      | none => []
      | some declaration =>
        (declaration.declaredNames source).map fun name => {
          name
          kind := "named"
          location := statement.location source
          exportKind := declaration.exportKind }

def exports (source : Source) (root : Tree) : List Export :=
  (root.namedChildren.filter isExport).flatMap (exportsOf source)

end ComponentSurvey.Tree
