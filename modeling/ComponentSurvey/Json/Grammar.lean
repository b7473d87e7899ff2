import ComponentSurvey.Json.Reader

/-!
The standard grammar of documents: which texts stand for which document. Blanks may stand around
every token and characters of strings may be escaped, so that many texts stand for one document.
-/

set_option autoImplicit false

namespace ComponentSurvey.Json

theorem not_surrogate (c : Char) :
    isHighSurrogate c.toNat = false ∧ isLowSurrogate c.toNat = false := by
  have h : c.toNat < 0xD800 ∨ 0xDFFF < c.toNat ∧ c.toNat < 0x110000 := c.valid
  simp [isHighSurrogate, isLowSurrogate]
  omega

namespace Grammar

def Blanks (cs : List Char) : Prop := ∀ c ∈ cs, isSpace c

instance : DecidablePred Blanks := fun cs => inferInstanceAs (Decidable (∀ c ∈ cs, isSpace c))

theorem blanks_nil : Blanks [] := List.forall_mem_nil _

theorem blanks_space : Blanks [' '] := List.forall_mem_singleton.2 rfl

def Digits (cs : List Char) : Prop := cs ≠ [] ∧ ∀ c ∈ cs, c.isDigit

/-- Digits with no zero in front, unless zero is all there is. -/
def WholePart (cs : List Char) : Prop := Digits cs ∧ (cs.head? = some '0' → cs = ['0'])

/-- The second text are the digits behind the point; a fraction may be left out. -/
inductive Fraction : List Char → List Char → Prop where
  | absent : Fraction [] []
  | given {ds : List Char} : Digits ds → Fraction ('.' :: ds) ds

/-- Sign of an exponent, and whether it makes it negative. -/
inductive Sign : List Char → Bool → Prop where
  | absent : Sign [] false
  | plus : Sign ['+'] false
  | minus : Sign ['-'] true

def withSign (negative : Bool) (n : Nat) : Int := if negative then -n else n

inductive Exponent : List Char → Option Int → Prop where
  | absent : Exponent [] none
  | given {mark : Char} {sign ds : List Char} {negative : Bool} :
      mark = 'e' ∨ mark = 'E' → Sign sign negative → Digits ds →
      Exponent (mark :: sign ++ ds) (some (withSign negative (digitsValue ds)))

def minus : Bool → List Char
  | true => ['-']
  | false => []

/-- Numbers. One with neither fraction nor exponent is whole. -/
inductive Numeral : List Char → Number → Prop where
  | whole (negative : Bool) {ds : List Char} :
      WholePart ds → Numeral (minus negative ++ ds) (.whole (withSign negative (digitsValue ds)))
  | real (negative : Bool) {ds fraction fs exponent : List Char} {e : Option Int} {x : Binary64} :
      WholePart ds → Fraction fraction fs → Exponent exponent e → fs ≠ [] ∨ e ≠ none →
      Binary64.ofDecimal? negative (digitsValue (ds ++ fs)) (e.getD 0 - fs.length) = some x →
      Numeral (minus negative ++ ds ++ fraction ++ exponent) (.real x)

/-- What stands between the quotes of a string, and the characters that are meant. -/
inductive Characters : List Char → List Char → Prop where
  | nil : Characters [] []
  | plain {c : Char} {cs s : List Char} :
      0x20 ≤ c.toNat → c ≠ '"' → c ≠ '\\' → Characters cs s → Characters (c :: cs) (c :: s)
  | escape {e c : Char} {cs s : List Char} :
      shortEscape? e = some c → Characters cs s → Characters ('\\' :: e :: cs) (c :: s)
  | unit {h₁ h₂ h₃ h₄ : Char} {n : Nat} {cs s : List Char} :
      hex4? h₁ h₂ h₃ h₄ = some n → isHighSurrogate n = false → isLowSurrogate n = false →
      Characters cs s → Characters ('\\' :: 'u' :: h₁ :: h₂ :: h₃ :: h₄ :: cs) (Char.ofNat n :: s)
  /-- The halves of a surrogate pair are one character. -/
  | pair {h₁ h₂ h₃ h₄ l₁ l₂ l₃ l₄ : Char} {m n : Nat} {cs s : List Char} :
      hex4? h₁ h₂ h₃ h₄ = some m → isHighSurrogate m →
      hex4? l₁ l₂ l₃ l₄ = some n → isLowSurrogate n → Characters cs s →
      Characters ('\\' :: 'u' :: h₁ :: h₂ :: h₃ :: h₄ :: '\\' :: 'u' :: l₁ :: l₂ :: l₃ :: l₄ :: cs)
        (Char.ofNat (0x10000 + (m - 0xD800) * 0x400 + (n - 0xDC00)) :: s)

inductive Quoted : List Char → String → Prop where
  | mk {cs s : List Char} : Characters cs s → Quoted ('"' :: cs ++ ['"']) (String.ofList s)

mutual
inductive Value : List Char → Json → Prop where
  | null : Value ['n', 'u', 'l', 'l'] .null
  | yes : Value ['t', 'r', 'u', 'e'] (.bool true)
  | no : Value ['f', 'a', 'l', 's', 'e'] (.bool false)
  | number {cs : List Char} {n : Number} : Numeral cs n → Value cs (.number n)
  | string {cs : List Char} {s : String} : Quoted cs s → Value cs (.string s)
  | noItems {cs : List Char} : Blanks cs → Value ('[' :: cs ++ [']']) (.array [])
  | array {cs : List Char} {xs : List Json} : Items cs xs → Value ('[' :: cs ++ [']']) (.array xs)
  | noFields {cs : List Char} : Blanks cs → Value ('\x7b' :: cs ++ ['\x7d']) (.object [])
  | object {cs : List Char} {fs : List (String × Json)} :
      Fields cs fs → Value ('\x7b' :: cs ++ ['\x7d']) (.object fs)
inductive Element : List Char → Json → Prop where
  | mk {before cs after : List Char} {j : Json} :
      Blanks before → Value cs j → Blanks after → Element (before ++ cs ++ after) j
inductive Items : List Char → List Json → Prop where
  | last {cs : List Char} {x : Json} : Element cs x → Items cs [x]
  | more {cs ds : List Char} {x : Json} {xs : List Json} :
      Element cs x → Items ds xs → Items (cs ++ ',' :: ds) (x :: xs)
inductive Field : List Char → String → Json → Prop where
  | mk {before name after cs : List Char} {k : String} {v : Json} :
      Blanks before → Quoted name k → Blanks after → Element cs v →
      Field (before ++ name ++ after ++ ':' :: cs) k v
inductive Fields : List Char → List (String × Json) → Prop where
  | last {cs : List Char} {k : String} {v : Json} : Field cs k v → Fields cs [(k, v)]
  | more {cs ds : List Char} {k : String} {v : Json} {fs : List (String × Json)} :
      Field cs k v → Fields ds fs → Fields (cs ++ ',' :: ds) ((k, v) :: fs)
end

/-- The text stands for the document. -/
def Document (text : String) (j : Json) : Prop := Element text.toList j

end Grammar

end ComponentSurvey.Json
