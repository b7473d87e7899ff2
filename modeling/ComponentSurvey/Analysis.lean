import ComponentSurvey.Language
import ComponentSurvey.Survey.Callables
import ComponentSurvey.Survey.Exports
import ComponentSurvey.Survey.Hooks
import ComponentSurvey.Survey.Imports
import ComponentSurvey.Survey.Patterns
import ComponentSurvey.Survey.Types

/-!
The survey of one source. A source whose tree has a syntax error is refused with the place of the
first one.
-/

set_option autoImplicit false

namespace ComponentSurvey

def snippetLength : Nat := 40

/-- First line of a text without the blanks around the text, cut off when it is long. -/
def snippet (text : String) : String :=
  let line := (Text.firstLine (Text.trimmed text)).toList
  if line.length ≤ snippetLength then String.ofList line
  else String.ofList (line.take snippetLength) ++ "..."

namespace Tree

def hasError (t : Tree) : Bool := t.preorder.any (·.label.isBroken)

def firstBroken? (t : Tree) : Option Tree := t.preorder.find? (·.label.isBroken)

theorem isSome_firstBroken? (t : Tree) : t.firstBroken?.isSome = t.hasError := List.isSome_find?

def brokenReason (source : Source) (t : Tree) : String :=
  if t.label.missing then "Missing '" ++ t.type ++ "'"
  else "Unexpected '" ++ snippet (t.text source) ++ "'"

def syntaxFailure (source : Source) (path : String) (t : Tree) : Failure :=
  let l := t.location source
  .brokenSource path (t.brokenReason source) (some l.line) (some l.column)

end Tree

namespace Survey

/-- The tree of a source, when its file has a known language and its parser says that there is no
syntax error. An error of which no node is found would be refused without its place. -/
def parsedTree (path : String) (source : Source) (hasError : Bool) (t : Tree) :
    Except Failure Tree :=
  match Language.ofPath path with
  | .error f => .error f
  | .ok _ =>
    if hasError then
      match t.firstBroken? with
      | none => .error (.brokenSource path "Syntax error" none none)
      | some b => .error (b.syntaxFailure source path)
    else .ok t

def checkedTree (path : String) (source : Source) (t : Tree) : Except Failure Tree :=
  parsedTree path source t.hasError t

/-- An error that is in the tree is found there, so every refusal has a place. -/
theorem checkedTree_eq (path : String) (source : Source) (t : Tree) :
    checkedTree path source t =
      (Language.ofPath path).bind fun _ =>
        ((t.firstBroken?.map (Tree.syntaxFailure source path)).map .error).getD (.ok t) := by
  unfold checkedTree parsedTree
  rw [← t.isSome_firstBroken?]
  cases Language.ofPath path with
  | error f => rfl
  | ok _ => cases t.firstBroken? <;> rfl

def ofTree (table : Weights) (path : String) (source : Source) (root : Tree) : Survey :=
  let imports := root.imports source
  { filePath := path
    complexity := root.metricsOver source.lineCount
    components := root.components source
    functions := root.callables source
    hooks := root.hooks source
    imports
    exports := root.exports source
    interfaces := root.interfaces source
    types := root.typeAliases source
    dependencies := Import.dependencies path imports
    patterns := root.patterns source table imports }

def ofSource (table : Weights) (path : String) (source : Source) (t : Tree) :
    Except Failure Survey :=
  (checkedTree path source t).map (ofTree table path source)

end Survey

end ComponentSurvey
