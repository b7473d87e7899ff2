import ComponentSurvey.Json
import ComponentSurvey.Text.Quoted

/-!
Values as they are shown in messages. A text alone is shown as it is; inside other values it is
quoted.
-/

set_option autoImplicit false

namespace ComponentSurvey.Json

mutual
def quoted : Json → String
  | .null => "None"
  | .bool true => "True"
  | .bool false => "False"
  | .number n => String.ofList n.written
  | .string s => Text.quoted s
  | .array xs => "[" ++ String.intercalate ", " (quotedItems xs) ++ "]"
  | .object fs => "\x7b" ++ String.intercalate ", " (quotedFields fs) ++ "\x7d"
def quotedItems : List Json → List String
  | [] => []
  | x :: xs => quoted x :: quotedItems xs
def quotedFields : List (String × Json) → List String
  | [] => []
  | (k, v) :: fs => (Text.quoted k ++ ": " ++ quoted v) :: quotedFields fs
end

def shown : Json → String
  | .string s => s
  | j => quoted j

/-- Several values are shown as a list in parentheses, one alone by itself. -/
def shownTogether : List Json → String
  | [] => ""
  | [j] => j.shown
  | js => "(" ++ String.intercalate ", " (quotedItems js) ++ ")"

end ComponentSurvey.Json
