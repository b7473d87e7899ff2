import ComponentSurvey.Proofs.Access.Signature
import ComponentSurvey.Proofs.Survey.Parts

/-!
Declarations and components, read with every use of something that can be absent. The keys of an
object that a constructor assigns to the state of its class are the one use that nothing guards.
-/

set_option autoImplicit false

namespace ComponentSurvey.Access

open Run

variable (source : Source)

def boundFunction? (declarator : Tree) : Run (Option Declaration) := do
  let name ← nameOf source (some declarator)
  let value ← unwrapped (declarator.field? "value")
  if name.isNone || value.isNone then .ok none
  else do
    let value ← the .node value
    match value.kind with
    | .arrow => .ok (some ⟨.arrow, name, declarator, value⟩)
    | .functionExpression => .ok (some ⟨.function, name, declarator, value⟩)
    | _ => .ok none

@[simp] theorem boundFunction?_eq (declarator : Tree) :
    boundFunction? source declarator = .ok (declarator.boundFunction? source) := by
  have hname : Tree.nameOf source (some declarator) = declarator.name? source := rfl
  rw [boundFunction?, nameOf_eq, unwrapped_eq, hname, Tree.boundFunction?]
  cases declarator.name? source with
  | none => rfl
  | some name =>
    cases (declarator.field? "value").bind Tree.unparenthesized with
    | none => rfl
    | some value => cases h : value.kind <;> simp [h]

def declarationsOf (statement : Tree) : Run (List Declaration) :=
  match statement.kind with
  | .classLike => do .ok [⟨.classLike, ← nameOf source (some statement), statement, statement⟩]
  | .function | .functionExpression => do
    .ok [⟨.function, ← nameOf source (some statement), statement, statement⟩]
  | .arrow => .ok [⟨.arrow, none, statement, statement⟩]
  | _ =>
    if statement.isVariableStatement then
      statement.declarators.filterMapM (boundFunction? source)
    else .ok []

@[simp] theorem declarationsOf_eq (statement : Tree) :
    declarationsOf source statement = .ok (statement.declarationsOf source) := by
  have hbound : statement.declarators.filterMapM (boundFunction? source) =
      .ok (statement.declarators.filterMap (Tree.boundFunction? source)) :=
    filterMapM_eq_ok fun d _ => boundFunction?_eq source d
  rw [declarationsOf, Tree.declarationsOf, hbound]
  cases statement.kind <;> simp [Tree.nameOf]

def declarations (root : Tree) : Run (List Declaration) :=
  root.topLevel.flatMapM (declarationsOf source)

@[simp] theorem declarations_eq (root : Tree) :
    declarations source root = .ok (root.declarations source) :=
  flatMapM_eq_ok fun s _ => declarationsOf_eq source s

def isCapitalName (name : Option String) : Run Bool :=
  named name (.ok false) fun n => .ok (isCapitalized n)

@[simp] theorem isCapitalName_eq (name : Option String) :
    isCapitalName name = .ok (name.any isCapitalized) := by
  rw [isCapitalName, named_eq fun _ => rfl]
  cases name with
  | none => rfl
  | some n => by_cases hn : n = "" <;> simp [hn, Option.filter, isCapitalized]

def isComponentFunction (d : Declaration) : Run Bool := do
  if ← isCapitalName d.name then returnsElements d.target else .ok false

@[simp] theorem isComponentFunction_eq (d : Declaration) :
    isComponentFunction d = .ok d.isComponentFunction := by
  rw [isComponentFunction, isCapitalName_eq, ok_bind, Declaration.isComponentFunction]
  cases d.name.any isCapitalized <;> simp

def firstElementName? (pattern : Tree) : Run (Option String) :=
  match pattern.children.find? (·.type != "[") with
  | none => .ok none
  | some element =>
    identifier? source
      (if element.type == "assignment_pattern" then element.field? "left" else some element)

@[simp] theorem firstElementName?_eq (pattern : Tree) :
    firstElementName? source pattern = .ok (pattern.firstElementName? source) := by
  rw [firstElementName?, Tree.firstElementName?]
  cases pattern.children.find? (·.type != "[") with
  | none => rfl
  | some element => exact identifier?_eq source _

def stateVariable? (call : Node) : Run (Option String) :=
  guarded call.parent? none fun declarator =>
    if declarator.kind != .variable then .ok none
    else if !call.isField "value" then .ok none
    else guarded (declarator.tree.field? "name") none fun pattern =>
      if pattern.type != "array_pattern" then .ok none else firstElementName? source pattern

@[simp] theorem stateVariable?_eq (call : Node) :
    stateVariable? source call = .ok (call.stateVariable? source) := by
  rw [stateVariable?, Node.stateVariable?]
  cases call.parent? with
  | none => rfl
  | some declarator =>
    rw [guarded_some, Option.bind_some]
    by_cases hv : declarator.kind = .variable ∧ call.isField "value"
    · cases declarator.tree.field? "name" <;> simp [hv]
    · cases hf : call.isField "value" <;> simp_all

def hookCall? (n : Node) : Run (Option (String × Node)) :=
  if n.kind == .call then (Option.map (·, n)) <$> hookName? source n.tree else .ok none

def hookCalls (t : Tree) : Run (List (String × Node)) :=
  (Node.ofTree t).descendants.filterMapM (hookCall? source)

@[simp] theorem hookCalls_eq (t : Tree) : hookCalls source t = .ok (t.hookCalls source) :=
  filterMapM_eq_ok fun n _ => by simp [hookCall?]

def boundState? (call : String × Node) : Run (Option String) :=
  if call.1 == Convention.stateHook then stateVariable? source call.2 else .ok none

def hookUsage (t : Tree) : Run HookUsage := do
  let calls ← hookCalls source t
  .ok {
    hooks := (calls.map (·.1)).eraseDups
    stateVariables := ← calls.filterMapM (boundState? source)
    effects := (calls.map (·.1)).filter (· == Convention.effectHook) }

@[simp] theorem hookUsage_eq (t : Tree) : hookUsage source t = .ok (t.hookUsage source) := by
  have hstate : (t.hookCalls source).filterMapM (boundState? source) =
      .ok (t.hookUsage source).stateVariables :=
    filterMapM_eq_ok fun call _ => by simp [boundState?]
  rw [hookUsage, hookCalls_eq, ok_bind, hstate]
  rfl

def functionComponent (d : Declaration) : Run Component := do
  let usage ← hookUsage source d.target
  let params ← parameters source d.target
  let props ← if params.isEmpty then .ok none else (·.type) <$> the .element params[0]?
  .ok {
    name := d.displayName
    kind := d.form.name
    location := d.node.location source
    props
    hooks := usage.hooks
    stateVariables := usage.stateVariables
    effects := usage.effects
    complexity := ← cyclomatic source d.target }

@[simp] theorem functionComponent_eq (d : Declaration) :
    functionComponent source d = .ok (d.functionComponent source) := by
  rw [functionComponent, hookUsage_eq, parameters_eq, Declaration.functionComponent]
  cases d.target.parameters source <;> simp

def propsType? (m : Tree) : Run (Option String) := do
  let name ← nameOf source (some m)
  if name == some "props" && m.isClassField then typeText source (m.field? "type") else .ok none

theorem propsType?_eq (m : Tree) : propsType? source m =
    .ok (if m.name? source == some "props" && m.isClassField then
      Tree.typeText source (m.field? "type") else none) := by
  simp [propsType?, Tree.nameOf]

def classProps? (t : Tree) : Run (Option String) := do
  let declared ← (← members t).findSomeM? (propsType? source)
  if declared.isSome then .ok declared else heritageArgument? source t

@[simp] theorem classProps?_eq (t : Tree) : classProps? source t = .ok (t.classProps? source) := by
  rw [classProps?, members_eq, ok_bind, findSomeM?_eq_ok (propsType?_eq source), Tree.classProps?]
  cases t.members.findSome? _ <;> simp

/-- The key of a pair, used whether or not there is one. -/
def pairKey (pair : Tree) : Run String := do
  let key ← the .node (pair.field? "key")
  if key.type == "string" then stringValue source (some key) else textOf source (some key)

def Keyed (t : Tree) : Prop := ∀ u ∈ t.preorder, u.type = "pair" → (u.field? "key").isSome

theorem Keyed.of_apart {t u : Tree} (h : Keyed t) (hu : Tree.Apart [t] [u]) : Keyed u := by
  rw [Tree.Apart, Tree.preorderList_singleton, Tree.preorderList_singleton] at hu
  exact fun v hv => h v (hu.subset hv)

theorem mapM_pairKey {object : Tree} (h : Keyed object) :
    (object.namedChildren.filter (·.type == "pair")).mapM (pairKey source) =
      .ok ((object.namedChildren.filter (·.type == "pair")).filterMap fun pair =>
        (pair.field? "key").map fun key =>
          if key.type == "string" then Tree.stringValue source (some key) else key.text source) := by
  refine mapM_eq_ok_filterMap fun pair hpair => ?_
  obtain ⟨hchild, htype⟩ := List.mem_filter.1 hpair
  have hapart : Tree.Apart [object] [pair] :=
    (Tree.Apart.children object).trans ((Tree.Apart.namedChildren object).trans (.of_mem hchild))
  have hkey := h.of_apart hapart pair (by simp [Tree.preorder_eq_cons]) (by simpa using htype)
  obtain ⟨key, hkey⟩ := Option.isSome_iff_exists.1 hkey
  exact ⟨_, by rw [hkey, Option.map_some], by simp [pairKey, hkey, Tree.textOf]⟩

/-- A pair without a key stops the run. -/
example : pairKey source (.node ⟨"pair", true, false, ⟨0, 0⟩, []⟩ []) = .error (.absent .node) := rfl

def assignedState (t : Tree) : Run (List String) := do
  if t.type != "assignment_expression" then .ok []
  else
    let right ← unwrapped (t.field? "right")
    guarded (t.field? "left") [] fun left =>
      if left.type != "member_expression" || right.isNone then .ok []
      else guarded (left.field? "object") [] fun target => do
        if target.type != "this" then .ok []
        else if (← textOf source (left.field? "property")) != "state" then .ok []
        else
          let object ← the .node right
          if object.type != "object" then .ok []
          else (object.namedChildren.filter (·.type == "pair")).mapM (pairKey source)

theorem assignedState_eq {t : Tree} (h : Keyed t) :
    assignedState source t = .ok (t.assignedState source) := by
  rw [assignedState, unwrapped_eq, ok_bind, Tree.assignedState]
  by_cases ht : t.type = "assignment_expression"
  · cases hr : (t.field? "right").bind Tree.unparenthesized with
    | none => cases t.field? "left" <;> simp [ht]
    | some object =>
      obtain ⟨right, hfield, hinside⟩ := Option.bind_eq_some_iff.1 hr
      have hobject : Keyed object :=
        h.of_apart ((Tree.Apart.field? hfield).trans (.unparenthesized hinside))
      cases t.field? "left" with
      | none => simp [ht]
      | some left =>
        cases htarget : left.field? "object" with
        | none => simp [ht, htarget]
        | some target => simp [ht, htarget, mapM_pairKey source hobject, ite_and]
  · simp [ht]

def classStateVariables (t : Tree) : Run (List String) := do
  let constructor? ← (← members t).findM?
    (isNamed source (·.type == "method_definition") "constructor")
  guarded constructor? [] fun c => c.descendants.flatMapM (assignedState source)

theorem classStateVariables_eq {t : Tree} (h : Keyed t) :
    classStateVariables source t = .ok (t.classStateVariables source) := by
  rw [classStateVariables, members_eq, ok_bind, findM?_eq_ok (isNamed_eq source _ _),
    Tree.classStateVariables]
  cases hc : t.members.find? fun m =>
      m.type == "method_definition" && m.name? source == some "constructor" with
  | none => rfl
  | some c =>
    have hin : Tree.Apart [t] [c] := (Tree.Apart.children t).trans
      ((Tree.apart_members t).trans (.of_mem (List.mem_of_find?_eq_some hc)))
    refine flatMapM_eq_ok fun u hu => assignedState_eq source (h.of_apart (hin.trans ?_))
    exact (Tree.Apart.children c).trans (.of_mem_preorderList hu)

def classComponent (d : Declaration) : Run Component := do
  .ok {
    name := d.displayName
    kind := "class"
    location := d.node.location source
    props := ← classProps? source d.target
    hooks := []
    stateVariables := ← classStateVariables source d.target
    effects := []
    complexity := ← cyclomatic source d.target }

theorem classComponent_eq {d : Declaration} (h : Keyed d.target) :
    classComponent source d = .ok (d.classComponent source) := by
  simp [classComponent, classStateVariables_eq source h, Declaration.classComponent]

def component? (d : Declaration) : Run (Option Component) := do
  if d.form == .classLike then
    if d.target.isComponentClass source then some <$> classComponent source d else .ok none
  else if ← isComponentFunction d then some <$> functionComponent source d
  else .ok none

theorem component?_eq {d : Declaration} (h : Keyed d.target) :
    component? source d = .ok (d.component? source) := by
  rw [component?, classComponent_eq source h, isComponentFunction_eq, Declaration.component?]
  by_cases hf : d.form = .classLike <;> simp [hf]

def components (root : Tree) : Run (List Component) := do
  (← declarations source root).filterMapM (component? source)

theorem components_eq {root : Tree} (h : Keyed root) :
    components source root = .ok (root.components source) := by
  have htarget {d : Declaration} (hd : d ∈ root.declarations source) : Keyed d.target :=
    h.of_apart ((Tree.Apart.children root).trans ((Tree.apart_targets source root).trans
      (.of_mem (List.mem_map_of_mem hd))))
  rw [components, declarations_eq]
  exact filterMapM_eq_ok fun d hd => component?_eq source (htarget hd)

end ComponentSurvey.Access
