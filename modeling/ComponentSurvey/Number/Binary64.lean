/-!
Finite binary64 numbers as exact values, without machine arithmetic: a sign, a significand below
2^53 and a power of two.
-/

set_option autoImplicit false

namespace ComponentSurvey

/-- The number ± significand · 2 ^ exponent. -/
structure Binary64 where
  negative : Bool
  significand : Nat
  exponent : Int
  deriving DecidableEq, Repr, Inhabited

def roundedQuotient (n d : Nat) : Nat :=
  let q := n / d
  let r := n % d
  if 2 * r < d then q else if d < 2 * r then q + 1 else q + q % 2

namespace Binary64

def leastExponent : Int := -1074

def greatestExponent : Int := 971

def fullSignificand : Nat := Nat.pow 2 52

/-- Each value has one form: the significand is full, or the exponent the least one. -/
def IsCanonical (x : Binary64) : Prop :=
  x.significand < 2 * fullSignificand ∧ leastExponent ≤ x.exponent ∧ x.exponent ≤ greatestExponent ∧
    (fullSignificand ≤ x.significand ∨ x.exponent = leastExponent)

instance (x : Binary64) : Decidable x.IsCanonical := by unfold IsCanonical; infer_instance

def zero (negative : Bool) : Binary64 := ⟨negative, 0, leastExponent⟩

def isZero (x : Binary64) : Bool := x.significand == 0

def scaled (n d : Nat) (k : Int) : Nat × Nat :=
  if 0 ≤ k then (n * Nat.pow 2 k.toNat, d) else (n, d * Nat.pow 2 (-k).toNat)

/-- The power of two at or below a positive quotient. -/
def floorLog (n d : Nat) : Int :=
  let k : Int := (Nat.log2 n : Int) - Nat.log2 d
  let (a, b) := scaled n d (-k)
  if b ≤ a then k else k - 1

def ofQuotient? (negative : Bool) (n d : Nat) : Option Binary64 :=
  if n = 0 then some (zero negative)
  else
    let q := max leastExponent (floorLog n d - 52)
    let (a, b) := scaled n d (-q)
    let m := roundedQuotient a b
    let x : Binary64 :=
      if m = 2 * fullSignificand then ⟨negative, fullSignificand, q + 1⟩ else ⟨negative, m, q⟩
    if x.IsCanonical then some x else none

/-- The binary64 number nearest to ± digits · 10 ^ power. Beyond 400 decimal places on either side
of the point the answer is known without the powers. -/
def ofDecimal? (negative : Bool) (digits : Nat) (power : Int) : Option Binary64 :=
  let magnitude : Int := (Nat.toDigits 10 digits).length + power
  if digits = 0 ∨ magnitude < -400 then some (zero negative)
  else if 400 < magnitude then none
  else if 0 ≤ power then ofQuotient? negative (digits * Nat.pow 10 power.toNat) 1
  else ofQuotient? negative digits (Nat.pow 10 (-power).toNat)

def quotient (x : Binary64) : Nat × Nat := scaled x.significand 1 x.exponent

def sameValue (x y : Binary64) : Bool :=
  (x.isZero && y.isZero) || x == y

def equalsWhole (x : Binary64) (n : Int) : Bool :=
  let (a, b) := x.quotient
  (if x.negative then -(a : Int) else a) == n * b

end Binary64

end ComponentSurvey
