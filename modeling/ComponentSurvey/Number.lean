import ComponentSurvey.Number.Shortest

/-!
Numbers of documents: whole ones of any size, and binary64 ones. `1` and `1.0` are the same number
and are written differently.
-/

set_option autoImplicit false

namespace ComponentSurvey

inductive Number where
  | whole : Int → Number
  | real : Binary64 → Number
  deriving DecidableEq, Repr

instance : Inhabited Number := ⟨.whole 0⟩

structure NumberStyle where
  /-- The point is placed among the digits when it stands after more than this many places. -/
  leastPoint : Int
  /-- The point is placed among the digits when it stands after at most this many places. -/
  greatestPoint : Int
  /-- Least number of digits of an exponent. -/
  exponentDigits : Nat
  deriving Repr

/-- Positional from 0.0001 up to below 10 ^ 16, two digits of exponent otherwise. -/
def NumberStyle.document : NumberStyle := ⟨-4, 16, 2⟩

namespace Number

def zeros (n : Nat) : List Char := List.replicate n '0'

def digitsOf (n : Nat) : List Char := Nat.toDigits 10 n

def positional (ds : List Char) (point : Int) : List Char :=
  if point ≤ 0 then '0' :: '.' :: zeros (-point).toNat ++ ds
  else if ds.length ≤ point.toNat then ds ++ zeros (point.toNat - ds.length) ++ ['.', '0']
  else ds.take point.toNat ++ '.' :: ds.drop point.toNat

def exponential (style : NumberStyle) (ds : List Char) (point : Int) : List Char :=
  let e := point - 1
  let es := digitsOf e.natAbs
  let fraction := match ds.drop 1 with
    | [] => []
    | r => '.' :: r
  ds.take 1 ++ fraction ++ 'e' :: (if e < 0 then '-' else '+') ::
    zeros (style.exponentDigits - es.length) ++ es

def writtenReal (style : NumberStyle) (x : Binary64) : List Char :=
  let d := x.shortest
  let ds := digitsOf d.digits
  let point := ds.length + d.power
  let body :=
    if style.leastPoint < point ∧ point ≤ style.greatestPoint then positional ds point
    else exponential style ds point
  if x.negative then '-' :: body else body

def writtenWhole (n : Int) : List Char :=
  if n < 0 then '-' :: digitsOf n.natAbs else digitsOf n.natAbs

theorem ofList_writtenWhole (n : Int) : String.ofList (writtenWhole n) = toString n := by
  cases n with
  | ofNat m =>
    have h : ¬ Int.ofNat m < 0 := by simp
    rw [writtenWhole, if_neg h]
    rfl
  | negSucc m =>
    rw [writtenWhole, if_pos (Int.negSucc_lt_zero m)]
    show String.ofList ('-' :: Nat.toDigits 10 (m + 1)) =
      "-" ++ String.ofList (Nat.toDigits 10 (m + 1))
    simp

def written : Number → List Char
  | .whole n => writtenWhole n
  | .real x => writtenReal .document x

def same : Number → Number → Bool
  | .whole m, .whole n => m == n
  | .real x, .real y => x.sameValue y
  | .whole n, .real x => x.equalsWhole n
  | .real x, .whole n => x.equalsWhole n

instance : BEq Number := ⟨same⟩

/-- With exactly one decimal place; the exact value decides, and a half goes to the even digit. -/
def oneDecimal (n : Number) : String :=
  let x := match n with
    | .whole n => (Binary64.ofDecimal? (n < 0) n.natAbs 0).getD (Binary64.zero false)
    | .real x => x
  let (a, b) := x.quotient
  let tenths := roundedQuotient (10 * a) b
  let body := digitsOf (tenths / 10) ++ '.' :: digitsOf (tenths % 10)
  String.ofList (if x.negative then '-' :: body else body)

/-- The number digits · 10 ^ power; for constants within the range of binary64. -/
def decimal (digits : Nat) (power : Int) : Number :=
  .real ((Binary64.ofDecimal? false digits power).getD (Binary64.zero false))

end Number

end ComponentSurvey
