import Mathlib.Data.Int.Log
import Mathlib.Data.Rat.Floor
import Mathlib.Tactic.FieldSimp
import ComponentSurvey.Number

/-!
The binary64 number that is nearest to a decimal depends on the value of the decimal only, not on
how many zeros stand at the end of its digits.
-/

set_option autoImplicit false

namespace ComponentSurvey

theorem roundedQuotient_mul {c : Nat} (hc : 0 < c) (n d : Nat) :
    roundedQuotient (c * n) (c * d) = roundedQuotient n d := by
  have hr : 2 * (c * (n % d)) = c * (2 * (n % d)) := Nat.mul_left_comm 2 c _
  simp only [roundedQuotient, Nat.mul_div_mul_left n d hc, Nat.mul_mod_mul_left, hr,
    Nat.mul_lt_mul_left hc]

namespace Binary64

theorem scaled_mul (c n d : Nat) (k : Int) :
    scaled (c * n) (c * d) k = (c * (scaled n d k).1, c * (scaled n d k).2) := by
  unfold scaled
  split_ifs <;> simp [Nat.mul_assoc]

theorem scaled_ratio (n d : Nat) (k : Int) :
    ((scaled n d k).1 : ℚ) / (scaled n d k).2 = n / d * 2 ^ k := by
  unfold scaled
  split_ifs with hk
  · obtain ⟨m, rfl⟩ := Int.eq_ofNat_of_zero_le hk
    simp
    ring
  · obtain ⟨m, hm⟩ := Int.eq_ofNat_of_zero_le (by omega : 0 ≤ -k)
    obtain rfl : k = -m := by omega
    simp
    field_simp

theorem scaled_den_pos {d : Nat} (hd : 0 < d) (n : Nat) (k : Int) : 0 < (scaled n d k).2 := by
  unfold scaled
  split_ifs
  · exact hd
  · exact Nat.mul_pos hd (Nat.pow_pos (by decide))

theorem zpow_log2_le {n : Nat} (hn : 0 < n) : (2 : ℚ) ^ (Nat.log2 n : Int) ≤ n := by
  have h := Nat.log2_self_le (Nat.ne_of_gt hn)
  rw [zpow_natCast]
  exact_mod_cast h

theorem lt_zpow_log2 (n : Nat) : (n : ℚ) < 2 ^ ((Nat.log2 n : Int) + 1) := by
  have h : n < 2 ^ (n.log2 + 1) := Nat.lt_log2_self
  exact_mod_cast h

/-- The logarithm is determined by the two powers around the number. -/
theorem log_two_eq {r : ℚ} (hr : 0 < r) {k : Int} (hl : (2 : ℚ) ^ k ≤ r) (hh : r < 2 ^ (k + 1)) :
    Int.log 2 r = k := by
  have h₁ := (Int.zpow_le_iff_le_log Nat.one_lt_two hr).1 (by exact_mod_cast hl)
  have h₂ := (Int.lt_zpow_iff_log_lt Nat.one_lt_two hr).1 (by exact_mod_cast hh)
  omega

theorem floorLog_eq {n d : Nat} (hn : 0 < n) (hd : 0 < d) :
    floorLog n d = Int.log 2 ((n : ℚ) / d) := by
  have hn' : (0 : ℚ) < n := by exact_mod_cast hn
  have hd' : (0 : ℚ) < d := by exact_mod_cast hd
  have hr : (0 : ℚ) < n / d := div_pos hn' hd'
  generalize hk : (Nat.log2 n : Int) - Nat.log2 d = k
  -- The logarithms leave two candidates, and the comparison decides between them.
  have hlow : (2 : ℚ) ^ (k - 1) ≤ n / d := by
    have he : k - 1 = (Nat.log2 n : Int) - (Nat.log2 d + 1) := by omega
    rw [he, zpow_sub₀ two_ne_zero]
    exact div_le_div₀ hn'.le (zpow_log2_le hn) hd' (lt_zpow_log2 d).le
  have hhigh : (n : ℚ) / d < 2 ^ (k + 1) := by
    have he : k + 1 = ((Nat.log2 n : Int) + 1) - Nat.log2 d := by omega
    rw [he, zpow_sub₀ two_ne_zero]
    have hp : (0 : ℚ) < 2 ^ (Nat.log2 d : Int) := zpow_pos two_pos _
    exact div_lt_div₀ (lt_zpow_log2 n) (zpow_log2_le hd) (hn'.trans (lt_zpow_log2 n)).le hp
  have hs : (scaled n d (-k)).2 ≤ (scaled n d (-k)).1 ↔ (2 : ℚ) ^ k ≤ n / d := by
    have hb : (0 : ℚ) < (scaled n d (-k)).2 := by exact_mod_cast scaled_den_pos hd n (-k)
    have hp : (0 : ℚ) < 2 ^ k := zpow_pos two_pos k
    rw [← Nat.cast_le (α := ℚ), ← one_le_div hb, scaled_ratio, zpow_neg, ← div_eq_mul_inv,
      one_le_div hp]
  simp only [floorLog, hk, hs]
  split_ifs with h
  · exact (log_two_eq hr h hhigh).symm
  · exact (log_two_eq hr hlow (by simpa using h)).symm

theorem floorLog_mul {c n d : Nat} (hc : 0 < c) (hn : 0 < n) (hd : 0 < d) :
    floorLog (c * n) (c * d) = floorLog n d := by
  have hc' : (c : ℚ) ≠ 0 := by exact_mod_cast Nat.ne_of_gt hc
  rw [floorLog_eq (Nat.mul_pos hc hn) (Nat.mul_pos hc hd), floorLog_eq hn hd, Nat.cast_mul,
    Nat.cast_mul, mul_div_mul_left _ _ hc']

theorem ofQuotient?_mul {c d : Nat} (hc : 0 < c) (hd : 0 < d) (negative : Bool) (n : Nat) :
    ofQuotient? negative (c * n) (c * d) = ofQuotient? negative n d := by
  rcases Nat.eq_zero_or_pos n with rfl | hn
  · simp [ofQuotient?]
  · have hcn := Nat.ne_of_gt (Nat.mul_pos hc hn)
    simp only [ofQuotient?, hcn, Nat.ne_of_gt hn, if_false, floorLog_mul hc hn hd, scaled_mul,
      roundedQuotient_mul hc]

theorem toDigits_shift {n : Nat} (hn : 0 < n) (k : Nat) :
    Nat.toDigits 10 (n * 10 ^ k) = Nat.toDigits 10 n ++ Number.zeros k := by
  induction k with
  | zero => simp [Number.zeros]
  | succ k ih =>
    have hp : 0 < n * 10 ^ k := Nat.mul_pos hn (Nat.pow_pos (by decide))
    have he : n * 10 ^ (k + 1) = 10 * (n * 10 ^ k) + 0 := by ring
    have hz : Nat.toDigits 10 0 = ['0'] := rfl
    rw [he, ← Nat.toDigits_append_toDigits (by decide) hp (by decide), ih, hz, Number.zeros,
      Number.zeros, List.append_assoc, List.replicate_succ']

/-- Zeros behind the digits make up for a smaller power. -/
theorem ofDecimal?_shift (negative : Bool) (n k : Nat) (power : Int) :
    ofDecimal? negative (n * 10 ^ k) (power - k) = ofDecimal? negative n power := by
  rcases Nat.eq_zero_or_pos n with rfl | hn
  · simp [ofDecimal?]
  have hten (m : Nat) : 0 < Nat.pow 10 m := Nat.pow_pos (by decide)
  have hl : ((Nat.toDigits 10 (n * 10 ^ k)).length : Int) + (power - k) =
      (Nat.toDigits 10 n).length + power := by
    rw [toDigits_shift hn, Number.zeros, List.length_append, List.length_replicate]
    omega
  have hz : n * 10 ^ k ≠ 0 := Nat.ne_of_gt (Nat.mul_pos hn (hten k))
  simp only [ofDecimal?, hl, hz, Nat.ne_of_gt hn, false_or]
  -- The power is not negative with the zeros, without them only, or in neither case.
  split_ifs with h₁ h₂ h₃ h₄ h₄
  · rfl
  · rfl
  · congr 1
    have he : power.toNat = k + (power - k).toNat := by omega
    rw [he]
    simp [Nat.pow_add, Nat.mul_assoc]
  · omega
  · have he : (-(power - (k : Int))).toNat + power.toNat = k := by omega
    rw [← ofQuotient?_mul (hten (-(power - (k : Int))).toNat) Nat.one_pos negative
      (n * Nat.pow 10 power.toNat), Nat.mul_one, Nat.mul_left_comm]
    congr 2
    exact (he ▸ Nat.pow_add 10 _ _ :)
  · have he : (-(power - (k : Int))).toNat = k + (-power).toNat := by omega
    rw [← ofQuotient?_mul (hten k) (hten (-power).toNat) negative n, Nat.mul_comm n]
    congr 1
    rw [he]
    exact Nat.pow_add 10 _ _

end Binary64

end ComponentSurvey
