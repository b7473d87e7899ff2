import ComponentSurvey.Proofs.Access.Declarations
import ComponentSurvey.Survey.Hooks

/-!
Functions, methods and calls of hooks, read with every use of something that can be absent. A record
of a method is only asked of nodes that are methods.
-/

set_option autoImplicit false

namespace ComponentSurvey.Access

open Run

variable (source : Source)

def method (owner : String) (t : Tree) : Run Callable := do
  if !Tree.methodTypes.contains t.type then .error (.failure (.wrongNode "method" t.type))
  else
    .ok {
      name := owner ++ "." ++ (← nameOr source t (textOf source (t.field? "name")))
      kind := "method"
      location := t.location source
      parameters := ← parameters source t
      returnType := ← returnType? source t
      isAsync := t.isAsync
      isGenerator := t.isGenerator
      complexity := ← cyclomatic source t
      callsTo := ← calledNames source t }

theorem method_eq (owner : String) {t : Tree} (h : t.type ∈ Tree.methodTypes) :
    method source owner t = .ok (t.method source owner) := by
  simp [method, h, Tree.method]

def plainMethod? (owner : String) (member : Tree) : Run (Option Callable) := do
  if ← isPlainMethod source member then some <$> method source owner member else .ok none

theorem plainMethod?_eq (owner : String) (member : Tree) :
    plainMethod? source owner member =
      .ok (if member.isPlainMethod source then some (member.method source owner) else none) := by
  rw [plainMethod?, isPlainMethod_eq, ok_bind]
  split
  · rename_i h
    rw [Tree.isPlainMethod, Bool.and_eq_true, Bool.and_eq_true] at h
    rw [method_eq source owner (List.contains_iff_mem.1 h.1.1)]
    rfl
  · rfl

def callable (d : Declaration) : Run Callable := do
  .ok {
    name := d.displayName
    kind := d.form.name
    location := d.node.location source
    parameters := ← parameters source d.target
    returnType := ← returnType? source d.target
    isAsync := d.target.isAsync
    isGenerator := d.target.isGenerator
    complexity := ← cyclomatic source d.target
    callsTo := ← calledNames source d.target }

@[simp] theorem callable_eq (d : Declaration) : callable source d = .ok (d.callable source) := by
  simp [callable, Declaration.callable]

def callablesOf (d : Declaration) : Run (List Callable) := do
  if d.form == .classLike then
    (← members d.target).filterMapM (plainMethod? source d.displayName)
  else if ← isComponentFunction d then .ok []
  else do .ok [← callable source d]

@[simp] theorem callablesOf_eq (d : Declaration) :
    callablesOf source d = .ok (d.callables source) := by
  have hmethods : d.target.members.filterMapM (plainMethod? source d.displayName) =
      .ok ((d.target.members.filter (Tree.isPlainMethod source)).map
        (Tree.method source d.displayName)) := by
    rw [filterMapM_eq_ok fun m _ => plainMethod?_eq source d.displayName m, ← List.filterMap_eq_map,
      List.filterMap_filter]
    rfl
  rw [callablesOf, members_eq, ok_bind, hmethods, isComponentFunction_eq, Declaration.callables]
  by_cases hf : d.form = .classLike
  · simp [hf]
  · cases hd : d.isComponentFunction <;> simp [hf]

def callables (root : Tree) : Run (List Callable) := do
  (← declarations source root).flatMapM (callablesOf source)

theorem callables_eq (root : Tree) : callables source root = .ok (root.callables source) := by
  rw [callables, declarations_eq]
  exact flatMapM_eq_ok fun d _ => callablesOf_eq source d

def componentName? (t : Tree) : Run (Option String) :=
  match t.kind with
  | .function | .variable => do
    let name ← nameOf source (some t)
    .ok (if ← isCapitalName name then name else none)
  | .classLike =>
    if t.isComponentClass source then some <$> nameOr source t (.ok "Anonymous") else .ok none
  | _ => .ok none

@[simp] theorem componentName?_eq (t : Tree) :
    componentName? source t = .ok (t.componentName? source) := by
  have hname : Tree.nameOf source (some t) = t.name? source := rfl
  have hcapital : (if (t.name? source).any isCapitalized then t.name? source else none) =
      (t.name? source).filter isCapitalized := by
    cases t.name? source <;> simp [Option.filter]
  rw [componentName?, nameOf_eq, hname, Tree.componentName?]
  cases t.kind <;> simp [hcapital]

def enclosingComponent (n : Node) : Run String :=
  (Option.getD · "Unknown") <$> n.ancestors.findSomeM? fun a => componentName? source a.tree

@[simp] theorem enclosingComponent_eq (n : Node) :
    enclosingComponent source n = .ok (n.enclosingComponent source) := by
  have hnames : n.ancestors.findSomeM? (fun a => componentName? source a.tree) =
      .ok (n.ancestors.findSome? (·.tree.componentName? source)) :=
    findSomeM?_eq_ok fun a => componentName?_eq source a.tree
  rw [enclosingComponent, hnames]
  rfl

def hookDependencies (name : String) (call : Tree) : Run (List String) := do
  if !Convention.dependencyHooks.contains name then .ok []
  else
    let args ← arguments call
    if args.length < 2 then .ok []
    else
      let list ← the .element args[1]?
      if list.type != "array" then .ok []
      else textsOf source (list.namedChildren.filter (·.type == "identifier"))

@[simp] theorem hookDependencies_eq (name : String) (call : Tree) :
    hookDependencies source name call = .ok (call.hookDependencies source name) := by
  rw [hookDependencies, arguments_eq, Tree.hookDependencies]
  match call.arguments with
  | [] => simp
  | [_] => simp
  | head :: list :: rest =>
    have hlength : ¬ (head :: list :: rest).length < 2 := by simp
    simp only [ok_bind, if_neg hlength]
    by_cases hl : list.type = "array"
    · simp [hl]
    · simp [hl]

def hook (name : String) (call : Node) : Run Hook := do
  let violations := call.violations.map HookViolation.text
  .ok {
    name
    location := call.tree.location source
    component := ← enclosingComponent source call
    dependencies := ← hookDependencies source name call.tree
    violations := if violations.isEmpty then none else some violations }

@[simp] theorem hook_eq (name : String) (call : Node) :
    hook source name call = .ok (call.hook source name) := by
  simp [hook, Node.hook]

def hooks (root : Tree) : Run (List Hook) := do
  (← hookCalls source root).mapM fun call => hook source call.1 call.2

theorem hooks_eq (root : Tree) : hooks source root = .ok (root.hooks source) := by
  rw [hooks, hookCalls_eq]
  exact mapM_eq_ok fun call _ => hook_eq source call.1 call.2

end ComponentSurvey.Access
