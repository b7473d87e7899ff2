import ComponentSurvey.Record

/-!
Complexity of a subtree. Only what is below the root of the subtree counts. The depth of a node is
the number of blocks, branches and loops around it inside the subtree.
-/

set_option autoImplicit false

namespace ComponentSurvey

namespace Kind

def isBranch : Kind → Bool
  | .ifStatement | .whileLoop | .forLoop | .doLoop | .switchCase | .ternary => true
  | _ => false

/-- Each of these costs the reader one, and one more for every level of depth. -/
def isEffort : Kind → Bool
  | .ifStatement | .whileLoop | .forLoop => true
  | _ => false

def isNesting : Kind → Bool
  | .block | .ifStatement | .whileLoop | .forLoop | .doLoop => true
  | _ => false

def hasCountedParameters : Kind → Bool
  | .function | .arrow | .method => true
  | _ => false

end Kind

def Tree.parameterCount (t : Tree) : Nat :=
  if !t.kind.isFunctionLike then 0
  else if (t.field? "parameter").isSome then 1
  else match t.field? "parameters" with
    | none => 0
    | some ps => ps.contents.length

/-- What a part of a subtree contributes. -/
structure Tally where
  branches : Nat
  effort : Nat
  depth : Nat
  parameters : Nat
  deriving DecidableEq, Repr

namespace Tally

def zero : Tally := ⟨0, 0, 0, 0⟩

def join (a b : Tally) : Tally :=
  ⟨a.branches + b.branches, a.effort + b.effort, max a.depth b.depth, max a.parameters b.parameters⟩

theorem join_assoc (a b c : Tally) : (a.join b).join c = a.join (b.join c) := by
  simp only [join, Nat.add_assoc, Nat.max_assoc]

@[simp] theorem join_zero (a : Tally) : a.join zero = a := by simp [join, zero]

@[simp] theorem zero_join (a : Tally) : zero.join a = a := by simp [join, zero]

def inner (k : Kind) (depth : Nat) : Nat := if k.isNesting then depth + 1 else depth

def ofNode (t : Tree) (depth : Nat) : Tally where
  branches := if t.kind.isBranch then 1 else 0
  effort := if t.kind.isEffort then 1 + depth else 0
  depth := if t.kind.isNesting then depth + 1 else 0
  parameters := if t.kind.hasCountedParameters then t.parameterCount else 0

mutual
def ofTree (depth : Nat) : Tree → Tally
  | .node l ts => (ofNode (.node l ts) depth).join (ofForest (inner l.kind depth) ts)
def ofForest (depth : Nat) : List Tree → Tally
  | [] => zero
  | t :: ts => (ofTree depth t).join (ofForest depth ts)
end

/-- The same contribution collected by a loop over a stack of subtrees with their depths. -/
def collect : List (Tree × Nat) → Tally → Tally
  | [], sum => sum
  | (t, depth) :: rest, sum =>
    collect (t.children.map (·, inner t.kind depth) ++ rest) (sum.join (ofNode t depth))
termination_by stack => Tree.sizeList (stack.map (·.1))
decreasing_by
  obtain ⟨l, ts⟩ := t
  have h : (ts.map (·, inner l.kind depth)).map (·.1) = ts := by simp [Function.comp_def]
  simp only [Tree.children, Tree.kind, Tree.label, List.map_append, Tree.sizeList_append, h,
    List.map_cons, Tree.sizeList, Tree.size]
  omega

end Tally

def Tree.metricsOver (t : Tree) (lines : Int) : Metrics :=
  let sum := Tally.ofForest 0 t.children
  { cyclomatic := sum.branches + 1
    cognitive := sum.effort
    linesOfCode := lines
    nestingDepth := sum.depth
    parameterCount := sum.parameters }

def Tree.metrics (source : Source) (t : Tree) : Metrics :=
  t.metricsOver (source.row t.span.stop + 1)

/-- The metrics found by the loop over a stack. The lines are those given or, failing that, those up to
the last one of the node. -/
def Tree.measured (source : Source) (lines : Option Int) (t : Tree) : Metrics :=
  let sum := Tally.collect (t.children.map (·, 0)) .zero
  { cyclomatic := sum.branches + 1
    cognitive := sum.effort
    linesOfCode := lines.getD (source.row t.span.stop + 1)
    nestingDepth := sum.depth
    parameterCount := sum.parameters }

def Tree.cyclomatic (t : Tree) : Int := (Tally.ofForest 0 t.children).branches + 1

end ComponentSurvey
