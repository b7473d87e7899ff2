import ComponentSurvey.Json
import ComponentSurvey.Text.Quoted

/-!
Written documents. The text is plain ASCII: every other character is written as one or two
four-digit escapes. Without an indent the text is one line.
-/

set_option autoImplicit false

namespace ComponentSurvey.Json

def unitEscape (n : Nat) : List Char := '\\' :: 'u' :: Text.hex 4 n

def escapedChar (c : Char) : List Char :=
  if c == '"' || c == '\\' then ['\\', c]
  else if c == '\n' then ['\\', 'n']
  else if c == '\r' then ['\\', 'r']
  else if c == '\t' then ['\\', 't']
  else if c == '\x08' then ['\\', 'b']
  else if c == '\x0C' then ['\\', 'f']
  else if 0x20 ≤ c.toNat && c.toNat ≤ 0x7E then [c]
  else if c.toNat < 0x10000 then unitEscape c.toNat
  else
    let n := c.toNat - 0x10000
    unitEscape (0xD800 + n / 0x400) ++ unitEscape (0xDC00 + n % 0x400)

def writtenString (s : String) : List Char := '"' :: s.toList.flatMap escapedChar ++ ['"']

/-- Begins a line at a nesting level; nothing when the document is one line. -/
def lineStart (indent : Option Nat) (level : Nat) : List Char :=
  match indent with
  | none => []
  | some n => '\n' :: List.replicate (n * level) ' '

def itemEnd (indent : Option Nat) (level : Nat) : List Char :=
  match indent with
  | none => [',', ' ']
  | some _ => ',' :: lineStart indent level

mutual
def writtenAt (indent : Option Nat) (level : Nat) : Json → List Char
  | .null => "null".toList
  | .bool true => "true".toList
  | .bool false => "false".toList
  | .number n => n.written
  | .string s => writtenString s
  | .array [] => ['[', ']']
  | .array (x :: xs) =>
    '[' :: lineStart indent (level + 1) ++ writtenAt indent (level + 1) x ++
      writtenItems indent (level + 1) xs ++ lineStart indent level ++ [']']
  | .object [] => ['\x7b', '\x7d']
  | .object ((k, v) :: fs) =>
    '\x7b' :: lineStart indent (level + 1) ++ writtenString k ++ ':' :: ' ' ::
      writtenAt indent (level + 1) v ++ writtenFields indent (level + 1) fs ++
      lineStart indent level ++ ['\x7d']
def writtenItems (indent : Option Nat) (level : Nat) : List Json → List Char
  | [] => []
  | x :: xs => itemEnd indent level ++ writtenAt indent level x ++ writtenItems indent level xs
def writtenFields (indent : Option Nat) (level : Nat) : List (String × Json) → List Char
  | [] => []
  | (k, v) :: fs =>
    itemEnd indent level ++ writtenString k ++ ':' :: ' ' :: writtenAt indent level v ++
      writtenFields indent level fs
end

/-- Text of a document. A negative indent begins new lines without blanks, as zero does. -/
def written (indent : Option Int) (j : Json) : String :=
  String.ofList (writtenAt (indent.map Int.toNat) 0 j)

end ComponentSurvey.Json
