import ComponentSurvey.Failure
import ComponentSurvey.Json.Shown

/-!
Failures of the engine described by values of any kind. A value that is no text is shown as one, so a
description says of texts and numbers what the failure itself says.
-/

set_option autoImplicit false

namespace ComponentSurvey

inductive FailureClass where
  | engine
  | brokenSource
  | unreadable
  | wrongNode
  | unsupportedLanguage
  | invalidPattern
  deriving DecidableEq, Repr

namespace FailureClass

def isValue : FailureClass → Bool
  | .unsupportedLanguage | .invalidPattern => true
  | _ => false

def brokenSourceText (path reason line column : Json) : String :=
  let place := match line with
    | .null => path.shown
    | line => Failure.placed path.shown line.shown column.shown
  Failure.brokenSourceText place reason.shown

/-- What is said when a failure is described by these values, if their number is right. -/
def text? : FailureClass → List Json → Option String
  | .engine, values | .unsupportedLanguage, values => some (Json.shownTogether values)
  | .brokenSource, [path, reason] => some (brokenSourceText path reason .null .null)
  | .brokenSource, [path, reason, line] => some (brokenSourceText path reason line .null)
  | .brokenSource, [path, reason, line, column] => some (brokenSourceText path reason line column)
  | .unreadable, [path, reason] => some (Failure.unreadableText path.shown reason.shown)
  | .wrongNode, [expected, actual] => some (Failure.wrongNodeText expected.shown actual.shown)
  | .invalidPattern, [pattern] => some (Failure.invalidPatternText pattern.quoted)
  | _, _ => none

end FailureClass

namespace Failure

def placeValue : Option Int → Json
  | none => .null
  | some n => .whole n

def description? : Failure → Option (FailureClass × List Json)
  | .engine text => some (.engine, [.string text])
  | .brokenSource path reason line column =>
    some (.brokenSource, [.string path, .string reason, placeValue line, placeValue column])
  | .unreadable path reason => some (.unreadable, [.string path, .string reason])
  | .wrongNode expected actual => some (.wrongNode, [.string expected, .string actual])
  | .unsupportedLanguage text => some (.unsupportedLanguage, [.string text])
  | .invalidPattern pattern => some (.invalidPattern, [.string pattern])
  | _ => none

theorem shown_placeValue (n : Option Int) : (placeValue n).shown = numberOrNone n := by
  cases n with
  | none => rfl
  | some n => exact Number.ofList_writtenWhole n

theorem isSome_description? (f : Failure) : f.description?.isSome = f.isEngine := by
  cases f <;> rfl

theorem text?_description? {f : Failure} {c : FailureClass} {values : List Json}
    (h : f.description? = some (c, values)) : c.text? values = some f.message := by
  cases f <;> simp only [description?, Option.some.injEq, Prod.mk.injEq, reduceCtorEq] at h <;>
    obtain ⟨rfl, rfl⟩ := h
  case brokenSource path reason line column =>
    cases line with
    | none => rfl
    | some line =>
      have hline : (Json.whole line).shown = toString line := Number.ofList_writtenWhole line
      simp [FailureClass.text?, FailureClass.brokenSourceText, message, placeValue, ← hline,
        ← shown_placeValue, Json.whole, Json.shown]
  all_goals simp [FailureClass.text?, message, Json.shownTogether, Json.shown, Json.quoted]

end Failure

end ComponentSurvey
