import ComponentSurvey.Number.Binary64

/-!
The shortest decimal that reads back as a given binary64 number. The decimals that do so fill an
interval around the number, and on each decimal grid only the two neighbours of the number matter.
-/

set_option autoImplicit false

namespace ComponentSurvey

structure Decimal where
  digits : Nat
  power : Int
  deriving DecidableEq, Repr

def Decimal.normalized : Nat → Decimal → Decimal
  | 0, d => d
  | n + 1, d =>
    if d.digits ≠ 0 ∧ d.digits % 10 = 0 then normalized n ⟨d.digits / 10, d.power + 1⟩ else d

namespace Binary64

/-- Four times the significand, and the borders of the interval around it in that unit. -/
def borders (x : Binary64) : Nat × Nat × Nat :=
  let v := 4 * x.significand
  let below := if x.significand = fullSignificand ∧ leastExponent < x.exponent then 1 else 2
  (v - below, v, v + 2)

def compareDecimal (x : Binary64) (n : Nat) (power : Int) (quarters : Nat) : Ordering :=
  let ten := Nat.pow 10 power.natAbs
  let (a, b) := scaled quarters 1 (x.exponent - 2)
  if 0 ≤ power then compare (n * ten * b) a else compare (n * b) (a * ten)

/-- Whether n · 10 ^ power reads back as the number. A border belongs to the even significand. -/
def readsBack (x : Binary64) (n : Nat) (power : Int) : Bool :=
  let (low, _, high) := x.borders
  let even := x.significand % 2 = 0
  let l := x.compareDecimal n power low
  let h := x.compareDecimal n power high
  (l == .gt || (even && l == .eq)) && (h == .lt || (even && h == .eq))

def ceilPower (x : Binary64) : Int :=
  let (a, b) := x.quotient
  if b ≤ a then (Nat.toDigits 10 (a / b)).length
  else 1 - ((List.range 330).find? (fun j => b ≤ a * Nat.pow 10 j)).getD 330

/-- The neighbour on the grid of 10 ^ power that reads back; of two the nearer one. -/
def onGrid? (x : Binary64) (power : Int) : Option Decimal :=
  let (a, b) := x.quotient
  let (n, d) :=
    if 0 ≤ power then (a, b * Nat.pow 10 power.toNat) else (a * Nat.pow 10 (-power).toNat, b)
  let low := n / d
  let nearest := roundedQuotient n d
  let other := if nearest = low then low + 1 else low
  if x.readsBack nearest power then some ⟨nearest, power⟩
  else if x.readsBack other power then some ⟨other, power⟩
  else none

/-- The fewest digits that read back; seventeen always do. -/
def shortest (x : Binary64) : Decimal :=
  if x.isZero then ⟨0, 0⟩
  else
    let top := x.ceilPower
    let d := ((List.range 17).findSome? fun (i : Nat) => x.onGrid? (top - (i + 1))).getD ⟨0, 0⟩
    d.normalized 20

end Binary64

end ComponentSurvey
