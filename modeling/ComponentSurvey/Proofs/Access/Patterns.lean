import Mathlib.Data.Option.Basic
import ComponentSurvey.Proofs.Access.Declarations
import ComponentSurvey.Survey.Patterns

/-!
Design patterns, read with every use of something that can be absent. A table of confidences that is
completed by the usual ones lacks none.
-/

set_option autoImplicit false

namespace ComponentSurvey.Access

open Run

variable (source : Source)

def weight (table : Weights) (k : PatternKind) : Run Json :=
  the (.weight k.name) (table.completed.lookup k.name)

@[simp] theorem weight_eq (table : Weights) (k : PatternKind) :
    weight table k = .ok (table.weight k) := by
  cases k <;> rfl

def frameworkBinding? (i : Import) : Run (Option String) :=
  if i.bindsFramework && !i.specifiers.isEmpty then
    the .element i.specifiers[0]? >>= fun s => .ok (some s.name)
  else .ok none

theorem frameworkBinding?_eq (i : Import) : frameworkBinding? i =
    .ok (if i.bindsFramework then i.specifiers.head?.map (·.name) else none) := by
  rw [frameworkBinding?]
  cases i.specifiers <;> simp

def frameworkName? (imports : List Import) : Run (Option String) := do
  let framework := imports.filter (·.source == Convention.frameworkModule)
  let name ← framework.findSomeM? frameworkBinding?
  .ok (if name.isSome then name
    else if framework.isEmpty then none else some Convention.frameworkName)

@[simp] theorem frameworkName?_eq (imports : List Import) :
    frameworkName? imports = .ok (Import.frameworkName? imports) := by
  rw [frameworkName?, findSomeM?_eq_ok frameworkBinding?_eq, ok_bind, Import.frameworkName?]
  cases (imports.filter (·.source == Convention.frameworkModule)).findSome? _ <;> rfl

def customHook? (weight : Json) (d : Declaration) : Run (Option Pattern) :=
  if d.form == .classLike then .ok none
  else named d.name (.ok none) fun name =>
    if isHookName name then .ok (some {
      type := PatternKind.customHook.name
      name
      confidence := weight
      location := d.node.location source
      evidence := ["Custom hook " ++ name ++ " follows React conventions"] })
    else .ok none

@[simp] theorem customHook?_eq (weight : Json) (d : Declaration) :
    customHook? source weight d = .ok (d.customHook? source weight) := by
  rw [customHook?, named_filter (by decide) fun _ => ite_ok _ _ _, Declaration.customHook?,
    Option.map_eq_bind]
  simp

def higherOrder? (weight : Json) (d : Declaration) : Run (Option Pattern) :=
  if d.target.kind != .function then .ok none
  else named d.name (.ok none) fun name => do
    if Text.startsWith "with" name then
      let type := (← returnType? source d.target).getD ""
      if Convention.elementTypes.any (Text.occursIn · type) then .ok (some {
        type := PatternKind.higherOrder.name
        name
        confidence := weight
        location := d.node.location source
        evidence := ["Function name starts with \"with\"", "Returns a component"] })
      else .ok none
    else .ok none

@[simp] theorem higherOrder?_eq (weight : Json) (d : Declaration) :
    higherOrder? source weight d = .ok (d.higherOrder? source weight) := by
  rw [higherOrder?, named_filter (p := Text.startsWith "with") (by decide) fun name => by
    simp only [returnType?_eq, ok_bind, ite_ok]; rfl, Declaration.higherOrder?]
  exact ite_ok _ _ _

def singleton? (weight : Json) (d : Declaration) : Run (Option Pattern) := do
  if d.form != .classLike then .ok none
  else
    let members ← members d.target
    let hasField ← members.anyM (isNamed source (fun m => m.isClassField && m.isStatic) "instance")
    let hasGetter ← members.anyM
      (isNamed source (fun m => m.type == "method_definition" && m.isStatic) "getInstance")
    .ok (if hasField && hasGetter then some {
        type := PatternKind.singleton.name
        name := d.properName?.getD "Unknown"
        confidence := weight
        location := d.node.location source
        evidence := ["Has static instance property", "Has getInstance method"] }
      else none)

@[simp] theorem singleton?_eq (weight : Json) (d : Declaration) :
    singleton? source weight d = .ok (d.singleton? source weight) := by
  rw [singleton?, members_eq, ok_bind, anyM_eq_ok (isNamed_eq source _ "instance"),
    anyM_eq_ok (isNamed_eq source _ "getInstance"), Declaration.singleton?]
  by_cases hf : d.form = .classLike <;> simp [hf]

def factory? (weight : Json) (d : Declaration) : Run (Option Pattern) :=
  if d.target.kind != .function then .ok none
  else named d.name (.ok none) fun name =>
    if Text.occursIn "factory" (Text.lowerAscii name) then
      if 1 < (d.target.descendantsOf .returnStatement).length then .ok (some {
        type := PatternKind.factory.name
        name
        confidence := weight
        location := d.node.location source
        evidence := ["Function name contains \"factory\"", "Multiple return statements"] })
      else .ok none
    else .ok none

@[simp] theorem factory?_eq (weight : Json) (d : Declaration) :
    factory? source weight d = .ok (d.factory? source weight) := by
  rw [factory?, named_filter (p := fun name => Text.occursIn "factory" (Text.lowerAscii name))
    (by decide) fun name => by simp only [ite_ok]; rfl, Declaration.factory?]
  exact ite_ok _ _ _

def createsContext (framework : String) (call : Tree) : Run Bool :=
  if call.kind != .call then .ok false
  else guarded (call.field? "function") false fun callee =>
    if callee.type != "member_expression" then .ok false
    else do
      if (← textOf source (callee.field? "object")) == framework then
        .ok ((← textOf source (callee.field? "property")) == "createContext")
      else .ok false

@[simp] theorem createsContext_eq (framework : String) (call : Tree) :
    createsContext source framework call = .ok (call.createsContext source framework) := by
  rw [createsContext, Tree.createsContext]
  cases call.field? "function" with
  | none => simp
  | some callee =>
    by_cases hc : call.kind = .call <;> by_cases ht : callee.type = "member_expression" <;>
      simp [hc, ht, beq_eq_decide]

def context? (framework : String) (weight : Json) (call : Node) : Run (Option Pattern) := do
  if ← createsContext source framework call.tree then
    .ok (some {
      type := PatternKind.context.name
      name := ← guarded call.parent? "Context Provider" fun p =>
        if p.kind == .variable then nameOr source p.tree (.ok "Context Provider")
        else .ok "Context Provider"
      confidence := weight
      location := call.tree.location source
      evidence := ["Uses " ++ framework ++ ".createContext"] })
  else .ok none

@[simp] theorem context?_eq (framework : String) (weight : Json) (call : Node) :
    context? source framework weight call = .ok (call.context? source framework weight) := by
  rw [context?, createsContext_eq, ok_bind, Node.context?]
  cases call.tree.createsContext source framework with
  | false => rfl
  | true =>
    cases call.parent? with
    | none => simp
    | some p => by_cases hp : p.kind = .variable <;> simp [hp]

def frameworkPatterns (table : Weights) (framework : String) (root : Tree)
    (declarations : List Declaration) : Run (List Pattern) := do
  let custom ← weight table .customHook
  let hooks ← declarations.filterMapM (customHook? source custom)
  let higher ← weight table .higherOrder
  let wrapper ← declarations.findSomeM? (higherOrder? source higher)
  let contextual ← weight table .context
  let context ← (Node.ofTree root).descendants.findSomeM? (context? source framework contextual)
  .ok (hooks ++ wrapper.toList ++ context.toList)

def patterns (table : Weights) (imports : List Import) (root : Tree) : Run (List Pattern) := do
  let declarations ← declarations source root
  let framework ← frameworkName? imports
  let own ← if framework.isNone then .ok [] else
    the .name framework >>= fun name => frameworkPatterns source table name root declarations
  let single ← weight table .singleton
  let singleton ← declarations.findSomeM? (singleton? source single)
  let making ← weight table .factory
  let factory ← declarations.findSomeM? (factory? source making)
  .ok (own ++ singleton.toList ++ factory.toList)

@[simp] theorem frameworkPatterns_eq (table : Weights) (framework : String) (root : Tree) :
    frameworkPatterns source table framework root (root.declarations source) =
      .ok (root.frameworkPatterns source table framework) := by
  simp [frameworkPatterns, Tree.frameworkPatterns,
    filterMapM_eq_ok fun d _ => customHook?_eq source (table.weight .customHook) d,
    findSomeM?_eq_ok (higherOrder?_eq source (table.weight .higherOrder)),
    findSomeM?_eq_ok (context?_eq source framework (table.weight .context))]

theorem patterns_eq (table : Weights) (imports : List Import) (root : Tree) :
    patterns source table imports root = .ok (root.patterns source table imports) := by
  have hs (weight : Json) : (root.declarations source).findSomeM? (singleton? source weight) =
      .ok ((root.declarations source).findSome? (Declaration.singleton? source weight)) :=
    findSomeM?_eq_ok (singleton?_eq source weight)
  have hf (weight : Json) : (root.declarations source).findSomeM? (factory? source weight) =
      .ok ((root.declarations source).findSome? (Declaration.factory? source weight)) :=
    findSomeM?_eq_ok (factory?_eq source weight)
  rw [patterns, declarations_eq, ok_bind, frameworkName?_eq, ok_bind, Tree.patterns]
  cases Import.frameworkName? imports with
  | none => simp [hs, hf]
  | some framework => simp [hs, hf]

end ComponentSurvey.Access
