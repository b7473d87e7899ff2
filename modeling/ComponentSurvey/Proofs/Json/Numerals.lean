import ComponentSurvey.Json.Grammar
import ComponentSurvey.Proofs.Number.Scaling

/-!
Every number is written as a numeral, whichever notation it is written in, and the numeral stands for
the number.
-/

set_option autoImplicit false

namespace ComponentSurvey

/-- The decimal that is written of a number reads back as the number. -/
def Binary64.IsReadBack (x : Binary64) : Prop :=
  ofDecimal? x.negative x.shortest.digits x.shortest.power = some x

instance (x : Binary64) : Decidable x.IsReadBack := by unfold Binary64.IsReadBack; infer_instance

namespace Json

open Grammar Number

variable {ds fs : List Char} {n : Nat}

theorem digits_digitsOf (n : Nat) : Digits (digitsOf n) :=
  ⟨Nat.toDigits_ne_nil, fun _ => Nat.isDigit_of_mem_toDigits (by decide) (by decide)⟩

theorem digits_append (hd : ∀ c ∈ ds, c.isDigit) (hf : Digits fs) : Digits (ds ++ fs) :=
  ⟨List.append_ne_nil_of_right_ne_nil ds hf.1, List.forall_mem_append.2 ⟨hd, hf.2⟩⟩

theorem isDigit_of_mem_zeros {c : Char} (h : c ∈ zeros n) : c.isDigit := by
  rw [List.eq_of_mem_replicate h]
  rfl

theorem digitsValue_digitsOf (n : Nat) : digitsValue (digitsOf n) = n :=
  Nat.ofDigitChars_ten_toDigits

theorem digitsValue_zeros_append (n : Nat) (ds : List Char) :
    digitsValue (zeros n ++ ds) = digitsValue ds := by
  induction n with
  | zero => rfl
  | succ n ih => exact ih

theorem digitsValue_append_zeros (ds : List Char) (n : Nat) :
    digitsValue (ds ++ zeros n) = digitsValue ds * 10 ^ n := by
  induction n with
  | zero => simp [zeros]
  | succ n ih =>
    have hz : zeros (n + 1) = zeros n ++ ['0'] := List.replicate_succ'
    have hl : digitsValue (ds ++ zeros n ++ ['0']) = 10 * digitsValue (ds ++ zeros n) + 0 := by
      simp [digitsValue]
    rw [hz, ← List.append_assoc, hl, ih]
    ring

theorem wholePart_digitsOf (n : Nat) : WholePart (digitsOf n) := by
  refine ⟨digits_digitsOf n, ?_⟩
  -- Induction on the digits: those in front of the last one begin with no zero.
  induction n using Nat.strongRecOn with
  | _ n ih =>
    rw [digitsOf, Nat.toDigits_eq_if (by decide)]
    split_ifs with hn
    · simp
    · rw [List.head?_append_of_ne_nil _ Nat.toDigits_ne_nil]
      intro hz
      have hd := ih (n / 10) (by omega) hz
      have hv := digitsValue_digitsOf (n / 10)
      rw [hd] at hv
      have h0 : digitsValue ['0'] = 0 := rfl
      omega

theorem wholePart_append_zeros (h : WholePart ds) (hn : digitsValue ds = 0 → n = 0) :
    WholePart (ds ++ zeros n) := by
  obtain ⟨c, cs, rfl⟩ := List.exists_cons_of_ne_nil h.1.1
  refine ⟨⟨by simp, List.forall_mem_append.2 ⟨h.1.2, fun c => isDigit_of_mem_zeros⟩⟩, ?_⟩
  intro hz
  have hc := h.2 hz
  rw [hc] at hn ⊢
  rw [hn rfl]
  rfl

theorem wholePart_take (h : WholePart ds) (hn : 0 < n) : WholePart (ds.take n) := by
  obtain ⟨c, cs, rfl⟩ := List.exists_cons_of_ne_nil h.1.1
  obtain ⟨n, rfl⟩ := Nat.exists_eq_add_of_lt hn
  refine ⟨⟨by simp, fun d hd => h.1.2 d (List.mem_of_mem_take hd)⟩, ?_⟩
  intro hz
  have hc : c :: cs = ['0'] := h.2 (by simpa using hz)
  simp at hc
  simp [hc]

theorem digits_drop (h : Digits ds) (hn : n < ds.length) : Digits (ds.drop n) :=
  ⟨fun hd => Nat.not_le_of_lt hn (List.drop_eq_nil_iff.1 hd),
    fun c hc => h.2 c (List.mem_of_mem_drop hc)⟩

theorem writtenWhole_eq (n : Int) :
    writtenWhole n = minus (decide (n < 0)) ++ digitsOf n.natAbs := by
  unfold writtenWhole
  split_ifs with hn <;> simp [minus, hn]

theorem withSign_natAbs (n : Int) : withSign (decide (n < 0)) n.natAbs = n := by
  unfold withSign
  split_ifs with hn <;> simp only [decide_eq_true_eq] at hn <;> omega

theorem numeral_writtenWhole (n : Int) : Numeral (writtenWhole n) (.whole n) := by
  have hw := Numeral.whole (decide (n < 0)) (wholePart_digitsOf n.natAbs)
  rwa [digitsValue_digitsOf, withSign_natAbs, ← writtenWhole_eq] at hw

variable {negative : Bool} {x : Binary64} {power : Int}

theorem numeral_fraction (hd : WholePart ds) (hf : Digits fs)
    (hx : Binary64.ofDecimal? negative (digitsValue (ds ++ fs)) (-fs.length) = some x) :
    Numeral (minus negative ++ (ds ++ '.' :: fs)) (.real x) := by
  have h := Numeral.real negative hd (.given hf) .absent (.inl hf.1) (by simpa using hx)
  simpa using h

/-- Zeros fill the places between the digits and the point. -/
theorem numeral_positional (h0 : n = 0 → power = 0)
    (hx : Binary64.ofDecimal? negative n power = some x) :
    Numeral (minus negative ++ positional (digitsOf n) ((digitsOf n).length + power)) (.real x) := by
  have hw := wholePart_digitsOf n
  have hv := digitsValue_digitsOf n
  have hlz (k : Nat) : (zeros k).length = k := List.length_replicate
  generalize digitsOf n = ds at hw hv
  generalize hp : (ds.length : Int) + power = point
  unfold positional
  split_ifs with hfirst hlast
  · generalize hk : (-point).toNat = k
    have he : digitsValue (['0'] ++ (zeros k ++ ds)) = n := by
      rw [← hv, ← digitsValue_zeros_append (k + 1) ds]
      rfl
    have hl : -((zeros k ++ ds).length : Int) = power := by
      rw [List.length_append, hlz]
      omega
    exact numeral_fraction (wholePart_digitsOf 0)
      (digits_append (fun c => isDigit_of_mem_zeros) hw.1) (hl ▸ he ▸ hx)
  · obtain ⟨k, rfl⟩ := Int.eq_ofNat_of_zero_le (by omega : 0 ≤ power)
    have hk : point.toNat - ds.length = k := by omega
    have he : digitsValue (ds ++ zeros k ++ ['0']) = n * 10 ^ (k + 1) := by
      rw [← hv, ← digitsValue_append_zeros, List.append_assoc, zeros, zeros, List.replicate_succ']
    have hl : -(['0'].length : Int) = k - (k + 1 : Nat) := by
      rw [List.length_singleton]
      omega
    have hx' : Binary64.ofDecimal? negative (n * 10 ^ (k + 1)) (k - (k + 1 : Nat)) = some x := by
      rw [Binary64.ofDecimal?_shift, hx]
    have hz (h : digitsValue ds = 0) : k = 0 := by exact_mod_cast h0 (hv ▸ h)
    rw [hk]
    exact numeral_fraction (wholePart_append_zeros hw hz) (digits_digitsOf 0) (hl ▸ he ▸ hx')
  · have he : digitsValue (ds.take point.toNat ++ ds.drop point.toNat) = n := by
      rw [List.take_append_drop, hv]
    have hl : -((ds.drop point.toNat).length : Int) = power := by
      rw [List.length_drop]
      omega
    exact numeral_fraction (wholePart_take hw (by omega)) (digits_drop hw.1 (by omega))
      (hl ▸ he ▸ hx)

theorem exponent_written (e : Int) (k : Nat) :
    Exponent ('e' :: (if e < 0 then '-' else '+') :: zeros k ++ digitsOf e.natAbs) (some e) := by
  have hd := digits_append (fun c => isDigit_of_mem_zeros (n := k)) (digits_digitsOf e.natAbs)
  have hv : withSign (decide (e < 0)) (digitsValue (zeros k ++ digitsOf e.natAbs)) = e := by
    rw [digitsValue_zeros_append, digitsValue_digitsOf, withSign_natAbs]
  by_cases he : e < 0
  · rw [decide_eq_true he] at hv
    have h := Exponent.given (.inl rfl) .minus hd
    rw [hv] at h
    rwa [if_pos he]
  · rw [decide_eq_false he] at hv
    have h := Exponent.given (.inl rfl) .plus hd
    rw [hv] at h
    rwa [if_neg he]

theorem numeral_exponential (style : NumberStyle)
    (hx : Binary64.ofDecimal? negative n power = some x) :
    Numeral (minus negative ++ exponential style (digitsOf n) ((digitsOf n).length + power))
      (.real x) := by
  have hw := wholePart_digitsOf n
  have hv := digitsValue_digitsOf n
  generalize digitsOf n = ds at hw hv
  have he : digitsValue (ds.take 1 ++ ds.drop 1) = n := by rw [List.take_append_drop, hv]
  have hp := List.length_pos_of_ne_nil hw.1.1
  have hl : ((some ((ds.length : Int) + power - 1)).getD 0) - (ds.drop 1).length = power := by
    rw [List.length_drop, Option.getD_some]
    omega
  have hn {fraction : List Char} (hf : Fraction fraction (ds.drop 1)) (k : Nat) :=
    Numeral.real negative (wholePart_take hw Nat.one_pos) hf
      (exponent_written ((ds.length : Int) + power - 1) k) (.inr (Option.some_ne_none _))
      (hl ▸ he ▸ hx)
  cases hd : ds.drop 1 with
  | nil =>
    have hf : Fraction [] (ds.drop 1) := hd ▸ .absent
    simpa only [exponential, hd, List.append_assoc] using hn hf _
  | cons c cs =>
    have hlen : (ds.drop 1).length = (c :: cs).length := congrArg List.length hd
    have hds : Digits (ds.drop 1) := digits_drop hw.1 (by simp at hlen; omega)
    have hf : Fraction ('.' :: c :: cs) (ds.drop 1) := hd ▸ .given hds
    simpa only [exponential, hd, List.append_assoc] using hn hf _

theorem power_of_isReadBack (h : x.IsReadBack) (hd : x.shortest.digits = 0) :
    x.shortest.power = 0 := by
  have hz : x.isZero := by
    rw [Binary64.IsReadBack, hd] at h
    have hx : Binary64.zero x.negative = x := by simpa [Binary64.ofDecimal?] using h
    rw [← hx]
    rfl
  rw [Binary64.shortest, if_pos hz]

theorem numeral_writtenReal (style : NumberStyle) (h : x.IsReadBack) :
    Numeral (writtenReal style x) (.real x) := by
  have hm (cs : List Char) : (if x.negative then '-' :: cs else cs) = minus x.negative ++ cs := by
    cases x.negative <;> rfl
  simp only [writtenReal, hm]
  split_ifs
  · exact numeral_positional (power_of_isReadBack h) h
  · exact numeral_exponential style h

end Json

end ComponentSurvey
