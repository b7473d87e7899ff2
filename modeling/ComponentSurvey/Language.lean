import ComponentSurvey.Failure
import ComponentSurvey.Path
import ComponentSurvey.Text.Blank

/-!
Languages whose syntax trees the survey understands, by the suffix of a file's name.
-/

set_option autoImplicit false

namespace ComponentSurvey

structure Language where
  name : String
  suffixes : List String
  deriving DecidableEq, Repr

namespace Language

def typescript : Language := ⟨"typescript", [".ts", ".mts", ".cts"]⟩

def tsx : Language := ⟨"tsx", [".tsx", ".js", ".jsx", ".mjs", ".cjs"]⟩

def all : List Language := [typescript, tsx]

/-- Upper-case letters of a suffix count as lower-case ones. No other letter has a lower-case form
that occurs in a registered suffix, so only A to Z need to be folded. -/
def ofSuffix (suffix : String) : Except Failure Language :=
  match all.find? (·.suffixes.contains (Text.lowerAscii suffix)) with
  | some l => .ok l
  | none => .error (.unsupportedSuffix suffix)

def ofPath (path : String) : Except Failure Language := ofSuffix (Path.suffix path)

end Language

end ComponentSurvey
