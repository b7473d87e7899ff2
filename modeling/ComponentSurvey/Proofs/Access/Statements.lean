import ComponentSurvey.Proofs.Access.Signature
import ComponentSurvey.Survey.Exports
import ComponentSurvey.Survey.Imports
import ComponentSurvey.Survey.Types

/-!
Imports, exports, interfaces and type aliases, read with every use of something that can be absent.
Whatever fields their nodes lack, none of these uses stops.
-/

set_option autoImplicit false

namespace ComponentSurvey.Access

open Run

variable (source : Source)

def importedName (typeOnly : Bool) (specifier : Tree) : Run (Binding × ImportedName) := do
  let localName ← guarded (specifier.field? "alias") none fun a => some <$> textOf source (some a)
  .ok (.named, {
    name := ← textOf source (specifier.field? "name")
    localName
    isTypeOnly := typeOnly || specifier.hasToken "type" })

theorem importedName_eq (typeOnly : Bool) (specifier : Tree) :
    importedName source typeOnly specifier = .ok (.named, {
      name := Tree.textOf source (specifier.field? "name")
      localName := (specifier.field? "alias").map (Tree.text source)
      isTypeOnly := typeOnly || specifier.hasToken "type" }) := by
  rw [importedName]
  cases specifier.field? "alias" <;> simp [Tree.textOf]

def clauseBindings (typeOnly : Bool) (t : Tree) : Run (List (Binding × ImportedName)) :=
  if t.type == "identifier" then do
    .ok [(.default, ⟨← textOf source (some t), none, typeOnly⟩)]
  else if t.type == "namespace_import" then do
    .ok [(.namespace_, ⟨← textOf source t.identifierChild?, none, typeOnly⟩)]
  else if t.type == "named_imports" then
    (t.namedChildren.filter (·.type == "import_specifier")).mapM (importedName source typeOnly)
  else .ok []

@[simp] theorem clauseBindings_eq (typeOnly : Bool) (t : Tree) :
    clauseBindings source typeOnly t = .ok (t.clauseBindings source typeOnly) := by
  rw [clauseBindings, mapM_eq_ok fun s _ => importedName_eq source typeOnly s, Tree.clauseBindings]
  simp [Tree.textOf]

def importBindings (typeOnly : Bool) (t : Tree) : Run (List (Binding × ImportedName)) :=
  if t.isRequireClause then do
    .ok [(.default, ⟨← textOf source t.identifierChild?, none, typeOnly⟩)]
  else if t.type == "import_clause" then
    t.namedChildren.flatMapM (clauseBindings source typeOnly)
  else .ok []

@[simp] theorem importBindings_eq (typeOnly : Bool) (t : Tree) :
    importBindings source typeOnly t = .ok (t.importBindings source typeOnly) := by
  rw [importBindings, flatMapM_eq_ok fun c _ => clauseBindings_eq source typeOnly c,
    Tree.importBindings]
  simp

def importRecord (statement : Tree) : Run Import := do
  let bindings ← statement.namedChildren.flatMapM
    (importBindings source (statement.hasToken "type"))
  .ok {
    source := ← stringValue source statement.moduleLiteral?
    kind := importKind (bindings.map (·.1))
    location := statement.location source
    specifiers := bindings.map (·.2) }

@[simp] theorem importRecord_eq (statement : Tree) :
    importRecord source statement = .ok (statement.importRecord source) := by
  rw [importRecord, flatMapM_eq_ok fun p _ => importBindings_eq source _ p]
  simp [Tree.importRecord]

def imports (root : Tree) : Run (List Import) :=
  (root.namedChildren.filter (·.type == "import_statement")).mapM (importRecord source)

@[simp] theorem imports_eq (root : Tree) : imports source root = .ok (root.imports source) :=
  mapM_eq_ok fun s _ => importRecord_eq source s

def boundName? (declarator : Tree) : Run (Option String) := do
  named (← nameOf source (some declarator)) (.ok none) fun n => .ok (some n)

@[simp] theorem boundName?_eq (declarator : Tree) :
    boundName? source declarator = .ok (declarator.properName? source) := by
  rw [boundName?, nameOf_eq, ok_bind, named_eq fun _ => rfl, Tree.nameOf, Option.bind_some,
    Tree.properName?]
  cases (declarator.name? source).filter (· != "") <;> rfl

def declaredNames (declaration : Tree) : Run (List String) :=
  if declaration.isVariableStatement then
    declaration.declarators.filterMapM (boundName? source)
  else Option.toList <$> boundName? source declaration

@[simp] theorem declaredNames_eq (declaration : Tree) :
    declaredNames source declaration = .ok (declaration.declaredNames source) := by
  rw [declaredNames, filterMapM_eq_ok fun d _ => boundName?_eq source d, Tree.declaredNames]
  simp

def listedExport (typeOnly : Bool) (specifier : Tree) : Run Export := do
  .ok {
    name := ← textOf source (specifier.field? "name")
    kind := "named"
    location := specifier.location source
    exportKind := if typeOnly || specifier.hasToken "type" then "type" else "value" }

def defaultExport (statement : Tree) : Run Export := do
  let declaration := statement.field? "declaration"
  let value := statement.field? "value"
  let target := if declaration.isSome then declaration else value
  let own ← nameOf source target
  let name ← if own.isNone then identifier? source value else .ok own
  .ok {
    name := ← named name (.ok "default") .ok
    kind := "default"
    location := statement.location source
    exportKind := ← guarded target "value" fun t => .ok t.exportKind }

@[simp] theorem defaultExport_eq (statement : Tree) :
    defaultExport source statement = .ok (statement.defaultExport source) := by
  have htarget : (if (statement.field? "declaration").isSome then statement.field? "declaration"
      else statement.field? "value") = statement.exported? := by
    rw [Tree.exported?]
    cases statement.field? "declaration" <;> rfl
  have hkind : guarded statement.exported? "value" (fun t => .ok t.exportKind) =
      .ok ((statement.exported?.map Tree.exportKind).getD "value") :=
    guarded_eq_ok fun _ => rfl
  rw [defaultExport, htarget, nameOf_eq, hkind, identifier?_eq, Tree.defaultExport]
  cases Tree.nameOf source statement.exported? <;> simp [named_eq fun _ => rfl]

def namespaceName (namespaceClause : Option Tree) : Run String := do
  let name ← guarded namespaceClause none fun c =>
    .ok (c.namedChildren.find? fun t => t.type == "identifier" || t.type == "string")
  guarded name "*" fun n => textOf source (some n)

@[simp] theorem namespaceName_eq (namespaceClause : Option Tree) :
    namespaceName source namespaceClause = .ok (Tree.namespaceName source namespaceClause) := by
  rw [namespaceName, Tree.namespaceName]
  cases namespaceClause with
  | none => rfl
  | some c =>
    rw [guarded_some, ok_bind, Option.bind_some]
    exact guarded_eq_ok fun n => textOf_eq source (some n)

def exportsOf (statement : Tree) : Run (List Export) := do
  let clause := statement.childOfType? "export_clause"
  let namespaceClause := statement.childOfType? "namespace_export"
  if clause.isSome then do
    let clause ← the .node clause
    (clause.namedChildren.filter (·.type == "export_specifier")).mapM
      (listedExport source (statement.hasToken "type"))
  else if statement.hasToken "default" then do .ok [← defaultExport source statement]
  else if statement.hasToken "=" then do
    .ok [statement.namespaceExport source (← textOf source statement.contents.head?)]
  else if namespaceClause.isSome || statement.hasToken "*" then do
    .ok [statement.namespaceExport source (← namespaceName source namespaceClause)]
  else guarded (statement.field? "declaration") [] fun declaration => do
    .ok ((← declaredNames source declaration).map fun name => {
      name
      kind := "named"
      location := statement.location source
      exportKind := declaration.exportKind })

@[simp] theorem exportsOf_eq (statement : Tree) :
    exportsOf source statement = .ok (statement.exportsOf source) := by
  rw [exportsOf, Tree.exportsOf]
  cases statement.childOfType? "export_clause" with
  | some clause => exact mapM_eq_ok fun s _ => by simp [listedExport]
  | none => cases statement.field? "declaration" <;> simp

def exports (root : Tree) : Run (List Export) :=
  (root.namedChildren.filter Tree.isExport).flatMapM (exportsOf source)

@[simp] theorem exports_eq (root : Tree) : exports source root = .ok (root.exports source) :=
  flatMapM_eq_ok fun s _ => exportsOf_eq source s

def property (member : Tree) : Run Property := do
  .ok {
    name := ← nameOr source member (textOf source (member.field? "name"))
    type := ← typeText source (member.field? "type")
    optional := member.hasToken "?"
    isReadonly := member.hasToken "readonly" }

@[simp] theorem property_eq (member : Tree) :
    property source member = .ok (member.property source) := by
  simp [property, Tree.property]

def properties (t : Tree) : Run (List Property) :=
  guarded (t.field? "body") [] fun body =>
    (body.namedChildren.filter (·.type == "property_signature")).mapM (property source)

@[simp] theorem properties_eq (t : Tree) : properties source t = .ok (t.properties source) := by
  rw [properties, Tree.properties]
  cases t.field? "body" with
  | none => rfl
  | some body => exact mapM_eq_ok fun m _ => property_eq source m

def interfaceRecord (t : Tree) : Run Interface := do
  let clauses := t.namedChildren.filter (·.type == "extends_type_clause")
  .ok {
    name := ← nameOr source t (.ok "Anonymous")
    location := t.location source
    properties := ← properties source t
    bases := ← clauses.flatMapM fun clause => textsOf source clause.contents }

@[simp] theorem interfaceRecord_eq (t : Tree) :
    interfaceRecord source t = .ok (t.interfaceRecord source) := by
  rw [interfaceRecord, flatMapM_eq_ok fun c _ => textsOf_eq source c.contents]
  simp [Tree.interfaceRecord, Tree.extendedTypes]

def interfaces (root : Tree) : Run (List Interface) :=
  (root.topLevel.filter (·.type == "interface_declaration")).mapM (interfaceRecord source)

@[simp] theorem interfaces_eq (root : Tree) :
    interfaces source root = .ok (root.interfaces source) :=
  mapM_eq_ok fun t _ => interfaceRecord_eq source t

def typeAliasRecord (t : Tree) : Run TypeAlias := do
  .ok {
    name := ← nameOr source t (.ok "Anonymous")
    type := ← textOf source (t.field? "value")
    location := t.location source }

@[simp] theorem typeAliasRecord_eq (t : Tree) :
    typeAliasRecord source t = .ok (t.typeAliasRecord source) := by
  simp [typeAliasRecord, Tree.typeAliasRecord]

def typeAliases (root : Tree) : Run (List TypeAlias) :=
  (root.topLevel.filter (·.type == "type_alias_declaration")).mapM (typeAliasRecord source)

@[simp] theorem typeAliases_eq (root : Tree) :
    typeAliases source root = .ok (root.typeAliases source) :=
  mapM_eq_ok fun t _ => typeAliasRecord_eq source t

end ComponentSurvey.Access
