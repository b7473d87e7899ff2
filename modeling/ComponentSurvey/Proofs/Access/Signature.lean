import ComponentSurvey.Call
import ComponentSurvey.ClassBody
import ComponentSurvey.Complexity
import ComponentSurvey.Proofs.Access.Run

/-!
Signatures, calls, class bodies and complexity, read with every use of something that can be absent.
None of these uses stops, and what is read is what the survey reads. Whatever needs no such use, such
as the tokens of a node, is the survey's own.
-/

set_option autoImplicit false

namespace ComponentSurvey.Access

open Run

variable (source : Source)

def textOf (t : Option Tree) : Run String := guarded t "" fun t => .ok (t.text source)

@[simp] theorem textOf_eq (t : Option Tree) : textOf source t = .ok (Tree.textOf source t) := by
  cases t <;> rfl

def textsOf (ts : List Tree) : Run (List String) := ts.mapM fun t => textOf source (some t)

@[simp] theorem textsOf_eq (ts : List Tree) : textsOf source ts = .ok (ts.map (Tree.text source)) :=
  mapM_eq_ok fun t _ => textOf_eq source (some t)

def typeText (clause : Option Tree) : Run (Option String) :=
  guarded clause none fun t => .ok (Tree.typeText source (some t))

@[simp] theorem typeText_eq (t : Option Tree) : typeText source t = .ok (Tree.typeText source t) := by
  cases t <;> rfl

def stringValue (literal : Option Tree) : Run String :=
  guarded literal "" fun t => .ok (Tree.stringValue source (some t))

@[simp] theorem stringValue_eq (t : Option Tree) :
    stringValue source t = .ok (Tree.stringValue source t) := by
  cases t <;> rfl

def nameOf (t : Option Tree) : Run (Option String) :=
  guarded t none fun t => guarded (t.field? "name") none fun n =>
    if Tree.identifierTypes.contains n.type then some <$> textOf source (some n)
    else if n.type == "string" then some <$> stringValue source (some n)
    else .ok none

@[simp] theorem nameOf_eq (t : Option Tree) : nameOf source t = .ok (Tree.nameOf source t) := by
  cases t with
  | none => rfl
  | some t =>
    rw [nameOf, guarded_some, Tree.nameOf, Option.bind_some, Tree.name?]
    cases t.field? "name" with
    | none => rfl
    | some n => simp [Tree.textOf]

def nameOr (t : Tree) (otherwise : Run String) : Run String := do
  named (← nameOf source (some t)) otherwise .ok

@[simp] theorem nameOr_eq (t : Tree) (b : String) :
    nameOr source t (.ok b) = .ok ((t.properName? source).getD b) := by
  rw [nameOr, nameOf_eq, ok_bind, named_eq fun _ => rfl, Option.map_id', Tree.nameOf,
    Option.bind_some, Tree.properName?]

def identifier? (t : Option Tree) : Run (Option String) :=
  guarded t none fun t =>
    if t.type == "identifier" then some <$> textOf source (some t) else .ok none

@[simp] theorem identifier?_eq (t : Option Tree) : identifier? source t =
    .ok (t.bind fun t => if t.type == "identifier" then some (t.text source) else none) := by
  cases t with
  | none => rfl
  | some t => simp [identifier?, Tree.textOf]

def parameter? (t : Tree) : Run (Option Parameter) :=
  if t.type == "required_parameter" || t.type == "optional_parameter" then do
    let pattern := t.field? "pattern"
    let value := t.field? "value"
    let isRest ← guarded pattern false fun p => .ok (p.type == "rest_pattern")
    .ok (some {
      name := ← textOf source pattern
      type := ← typeText source (t.field? "type")
      optional := t.type == "optional_parameter" || value.isSome || isRest
      defaultValue := ← guarded value none fun v => some <$> textOf source (some v) })
  else if t.type == "assignment_pattern" then do
    .ok (some {
      name := ← textOf source (t.field? "left")
      type := none
      optional := true
      defaultValue := some (← textOf source (t.field? "right")) })
  else if t.isComment then .ok none
  else do
    .ok (some {
      name := ← textOf source (some t)
      type := none
      optional := t.type == "rest_pattern"
      defaultValue := none })

@[simp] theorem parameter?_eq (t : Tree) : parameter? source t = .ok (t.parameter? source) := by
  rw [parameter?, Tree.parameter?]
  split
  · cases t.field? "pattern" <;> cases t.field? "value" <;> simp [Tree.textOf]
  · simp [Tree.textOf]

def parameters (t : Tree) : Run (List Parameter) :=
  let single := t.field? "parameter"
  if single.isSome then do .ok [⟨← textOf source single, none, false, none⟩]
  else guarded (t.field? "parameters") [] fun ps => ps.namedChildren.filterMapM (parameter? source)

@[simp] theorem parameters_eq (t : Tree) : parameters source t = .ok (t.parameters source) := by
  rw [parameters, Tree.parameters]
  cases t.field? "parameter" with
  | some single => simp [Tree.textOf]
  | none =>
    cases t.field? "parameters" with
    | none => rfl
    | some ps => exact filterMapM_eq_ok fun p _ => parameter?_eq source p

def returnType? (t : Tree) : Run (Option String) := typeText source (t.field? "return_type")

@[simp] theorem returnType?_eq (t : Tree) : returnType? source t = .ok (t.returnType? source) :=
  typeText_eq source _

def calledName? (call : Tree) : Run (Option String) :=
  guarded (call.field? "function") none fun callee =>
    if callee.type == "identifier" || callee.type == "member_expression" then
      some <$> textOf source (some callee)
    else .ok none

theorem calledName?_eq (call : Tree) :
    calledName? source call = .ok ((call.field? "function").bind fun callee =>
      if callee.type == "identifier" || callee.type == "member_expression" then
        some (callee.text source)
      else none) := by
  rw [calledName?]
  cases call.field? "function" with
  | none => rfl
  | some callee => simp [Tree.textOf]

def calledNames (t : Tree) : Run (List String) :=
  List.eraseDups <$> (t.descendantsOf .call).filterMapM (calledName? source)

@[simp] theorem calledNames_eq (t : Tree) : calledNames source t = .ok (t.calledNames source) := by
  rw [calledNames, filterMapM_eq_ok fun c _ => calledName?_eq source c]
  rfl

def hookName? (call : Tree) : Run (Option String) :=
  guarded (call.field? "function") none fun callee =>
    if callee.type == "identifier" then do
      let name ← textOf source (some callee)
      .ok (if Text.startsWith "use" name then some name else none)
    else .ok none

@[simp] theorem hookName?_eq (call : Tree) :
    hookName? source call = .ok (call.hookName? source) := by
  rw [hookName?, Tree.hookName?]
  cases call.field? "function" with
  | none => rfl
  | some callee => by_cases h : callee.type = "identifier" <;> simp [h, Tree.textOf]

def arguments (call : Tree) : Run (List Tree) :=
  guarded (call.field? "arguments") [] fun args => .ok args.contents

@[simp] theorem arguments_eq (call : Tree) : arguments call = .ok call.arguments := by
  rw [arguments, Tree.arguments]
  cases call.field? "arguments" <;> rfl

theorem size_lt_of_mem_contents {t u : Tree} (h : u ∈ t.contents) : u.size < t.size := by
  have hle {ts : List Tree} (h : u ∈ ts) : u.size ≤ Tree.sizeList ts := by
    obtain ⟨before, after, rfl⟩ := List.append_of_mem h
    rw [Tree.sizeList_append, Tree.sizeList]
    omega
  obtain ⟨l, ts⟩ := t
  have hsize := hle (List.mem_of_mem_filter (List.mem_of_mem_filter h) : u ∈ ts)
  rw [Tree.size]
  omega

def unparenthesized (t : Tree) : Run (Option Tree) :=
  if t.type == "parenthesized_expression" then
    let inner := t.contents.attach
    if inner.isEmpty then .ok none
    else the .element inner[0]? >>= fun first => unparenthesized first.1
  else .ok (some t)
termination_by t.size
decreasing_by exact size_lt_of_mem_contents first.2

@[simp] theorem unparenthesized_eq (t : Tree) : unparenthesized t = .ok t.unparenthesized := by
  rw [unparenthesized, Tree.unparenthesized_eq]
  split
  · have hcontents := List.attach_map_subtype_val t.contents
    cases hinner : t.contents.attach with
    | nil =>
      rw [← hcontents, hinner]
      rfl
    | cons first rest =>
      have hhead : t.contents.head? = some first.1 := by
        calc t.contents.head? = (t.contents.attach.map Subtype.val).head? := by rw [hcontents]
          _ = some first.1 := by rw [hinner, List.map_cons, List.head?_cons]
      rw [hhead]
      exact unparenthesized_eq first.1
  · rfl
termination_by t.size
decreasing_by exact size_lt_of_mem_contents first.2

def unwrapped (t : Option Tree) : Run (Option Tree) := guarded t none unparenthesized

@[simp] theorem unwrapped_eq (t : Option Tree) :
    unwrapped t = .ok (t.bind Tree.unparenthesized) := by
  cases t with
  | none => rfl
  | some t => exact unparenthesized_eq t

def isElement (expression : Option Tree) : Run Bool :=
  guarded expression false fun e => .ok (e.kind == .elementTree)

@[simp] theorem isElement_eq (expression : Option Tree) :
    isElement expression = .ok (expression.any (·.kind == .elementTree)) := by
  cases expression <;> rfl

def returnsElement (statement : Tree) : Run Bool := do
  let values := statement.contents
  let expression ← if values.isEmpty then .ok none else
    the .element values[0]? >>= fun first => unwrapped (some first)
  isElement expression

@[simp] theorem returnsElement_eq (statement : Tree) :
    returnsElement statement = .ok statement.returnsElement := by
  rw [returnsElement, Tree.returnsElement]
  cases statement.contents with
  | nil => rfl
  | cons first rest => simp [Tree.isElement]

def returnsElements (t : Tree) : Run Bool := do
  let body := t.field? "body"
  let concise ← if t.kind == .arrow then
      guarded body false fun b => .ok (b.type != "statement_block")
    else .ok false
  if concise then unwrapped body >>= isElement
  else (t.descendantsOf .returnStatement).anyM returnsElement

@[simp] theorem returnsElements_eq (t : Tree) : returnsElements t = .ok t.returnsElements := by
  have hreturns : (t.descendantsOf .returnStatement).anyM returnsElement =
      .ok ((t.descendantsOf .returnStatement).any Tree.returnsElement) :=
    anyM_eq_ok returnsElement_eq
  rw [returnsElements, Tree.returnsElements, hreturns]
  cases t.field? "body" with
  | none => cases t.kind <;> rfl
  | some body =>
    by_cases hb : body.type = "statement_block" <;> cases t.kind <;> simp [hb, Tree.isElement]

def members (t : Tree) : Run (List Tree) :=
  guarded (t.field? "body") [] fun body => .ok body.namedChildren

@[simp] theorem members_eq (t : Tree) : members t = .ok t.members := by
  rw [members, Tree.members]
  cases t.field? "body" <;> rfl

def isNamed (sort : Tree → Bool) (name : String) (m : Tree) : Run Bool :=
  if sort m then (· == some name) <$> nameOf source (some m) else .ok false

@[simp] theorem isNamed_eq (sort : Tree → Bool) (name : String) (m : Tree) :
    isNamed source sort name m = .ok (sort m && m.name? source == some name) := by
  rw [isNamed]
  cases sort m <;> simp [Tree.nameOf]

def typeArgument? (clause : Tree) : Run (Option String) :=
  guarded (clause.field? "type_arguments") none fun typeArguments =>
    let args := typeArguments.contents
    if args.isEmpty then .ok none
    else the .element args[0]? >>= fun first => some <$> textOf source (some first)

def heritageArgument? (t : Tree) : Run (Option String) :=
  (t.heritageClauses.flatMap Tree.extendsClauses).findSomeM? (typeArgument? source)

@[simp] theorem heritageArgument?_eq (t : Tree) :
    heritageArgument? source t = .ok (t.heritageArgument? source) := by
  refine findSomeM?_eq_ok fun clause => ?_
  rw [typeArgument?]
  cases clause.field? "type_arguments" with
  | none => rfl
  | some typeArguments =>
    rw [guarded_some, Option.bind_some]
    cases typeArguments.contents with
    | nil => rfl
    | cons first rest => simp [Tree.textOf]

def isPlainMethod (member : Tree) : Run Bool :=
  if !Tree.methodTypes.contains member.type then .ok false
  else if member.hasToken "get" || member.hasToken "set" then .ok false
  else (· != some "constructor") <$> nameOf source (some member)

@[simp] theorem isPlainMethod_eq (member : Tree) :
    isPlainMethod source member = .ok (member.isPlainMethod source) := by
  rw [isPlainMethod, Tree.isPlainMethod]
  cases Tree.methodTypes.contains member.type <;> cases member.hasToken "get" <;>
    cases member.hasToken "set" <;> simp [Tree.nameOf]

def parameterCount (t : Tree) : Run Nat :=
  if !t.kind.isFunctionLike then .ok 0
  else if (t.field? "parameter").isSome then .ok 1
  else guarded (t.field? "parameters") 0 fun ps => .ok ps.contents.length

@[simp] theorem parameterCount_eq (t : Tree) : parameterCount t = .ok t.parameterCount := by
  rw [parameterCount, Tree.parameterCount]
  cases t.field? "parameters" <;> simp

def tallyOfNode (t : Tree) (depth : Nat) : Run Tally := do
  let parameters ← if t.kind.hasCountedParameters then parameterCount t else .ok 0
  .ok {
    branches := if t.kind.isBranch then 1 else 0
    effort := if t.kind.isEffort then 1 + depth else 0
    depth := if t.kind.isNesting then depth + 1 else 0
    parameters }

@[simp] theorem tallyOfNode_eq (t : Tree) (depth : Nat) :
    tallyOfNode t depth = .ok (Tally.ofNode t depth) := by
  rw [tallyOfNode, Tally.ofNode]
  cases t.kind.hasCountedParameters <;> simp

mutual
def tallyOfTree (depth : Nat) : Tree → Run Tally
  | .node l ts => do
    let here ← tallyOfNode (.node l ts) depth
    let below ← tallyOfForest (Tally.inner l.kind depth) ts
    .ok (here.join below)
def tallyOfForest (depth : Nat) : List Tree → Run Tally
  | [] => .ok .zero
  | t :: ts => do
    let first ← tallyOfTree depth t
    let rest ← tallyOfForest depth ts
    .ok (first.join rest)
end

mutual
theorem tallyOfTree_eq (depth : Nat) (t : Tree) :
    tallyOfTree depth t = .ok (Tally.ofTree depth t) := by
  match t with
  | .node l ts => simp [tallyOfTree, Tally.ofTree, tallyOfForest_eq]
theorem tallyOfForest_eq (depth : Nat) (ts : List Tree) :
    tallyOfForest depth ts = .ok (Tally.ofForest depth ts) := by
  match ts with
  | [] => rfl
  | t :: ts =>
    simp [tallyOfForest, Tally.ofForest, tallyOfTree_eq depth t, tallyOfForest_eq depth ts]
end

def metricsOver (t : Tree) (lines : Int) : Run Metrics := do
  let sum ← tallyOfForest 0 t.children
  .ok {
    cyclomatic := sum.branches + 1
    cognitive := sum.effort
    linesOfCode := lines
    nestingDepth := sum.depth
    parameterCount := sum.parameters }

@[simp] theorem metricsOver_eq (t : Tree) (lines : Int) :
    metricsOver t lines = .ok (t.metricsOver lines) := by
  simp [metricsOver, tallyOfForest_eq, Tree.metricsOver]

def cyclomatic (t : Tree) : Run Int :=
  (·.cyclomatic) <$> metricsOver t (source.row t.span.stop + 1)

@[simp] theorem cyclomatic_eq (t : Tree) : cyclomatic source t = .ok t.cyclomatic := by
  simp [cyclomatic, Tree.metricsOver, Tree.cyclomatic]

end ComponentSurvey.Access
