import ComponentSurvey.Text.Blank

/-!
Decimal digits of all scripts, and whole numbers written with them. The digits are those of
Unicode 14, where each script has ten in a row.
-/

set_option autoImplicit false

namespace ComponentSurvey.Text

def zeroDigits : List Nat :=
  [0x30, 0x660, 0x6F0, 0x7C0, 0x966, 0x9E6, 0xA66, 0xAE6, 0xB66, 0xBE6, 0xC66, 0xCE6, 0xD66,
   0xDE6, 0xE50, 0xED0, 0xF20, 0x1040, 0x1090, 0x17E0, 0x1810, 0x1946, 0x19D0, 0x1A80, 0x1A90,
   0x1B50, 0x1BB0, 0x1C40, 0x1C50, 0xA620, 0xA8D0, 0xA900, 0xA9D0, 0xA9F0, 0xAA50, 0xABF0,
   0xFF10, 0x104A0, 0x10D30, 0x11066, 0x110F0, 0x11136, 0x111D0, 0x112F0, 0x11450, 0x114D0,
   0x11650, 0x116C0, 0x11730, 0x118E0, 0x11950, 0x11C50, 0x11D50, 0x11DA0, 0x16A60, 0x16AC0,
   0x16B50, 0x1D7CE, 0x1D7D8, 0x1D7E2, 0x1D7EC, 0x1D7F6, 0x1E140, 0x1E2F0, 0x1E950, 0x1FBF0]

def digit? (c : Char) : Option Nat :=
  (zeroDigits.find? fun z => z ≤ c.toNat && c.toNat < z + 10).map (c.toNat - ·)

def digitsFrom? : Nat → List Char → Option Nat
  | n, [] => some n
  | _, ['_'] => none
  | n, '_' :: c :: cs => (digit? c).bind fun d => digitsFrom? (10 * n + d) cs
  | n, c :: cs => (digit? c).bind fun d => digitsFrom? (10 * n + d) cs

/-- Value of at least one digit; an underscore stands between two digits only. -/
def natural? : List Char → Option Nat
  | [] => none
  | c :: cs => (digit? c).bind fun d => digitsFrom? d cs

/-- Blanks that may stand around a number: all but the four separators of ASCII. -/
def isBlankAroundNumber (c : Char) : Bool :=
  isBlank c && !(0x1C ≤ c.toNat && c.toNat ≤ 0x1F)

def mostDigits : Nat := 4300

def isBounded (cs : List Char) : Bool := (cs.filter (· != '_')).length ≤ mostDigits

def boundedNatural? (cs : List Char) : Option Nat :=
  if isBounded cs then natural? cs else none

def integer? (s : String) : Option Int :=
  match stripped isBlankAroundNumber s.toList with
  | '-' :: cs => (boundedNatural? cs).map fun n => -(n : Int)
  | '+' :: cs => (boundedNatural? cs).map fun n => (n : Int)
  | cs => (boundedNatural? cs).map fun n => (n : Int)

end ComponentSurvey.Text
