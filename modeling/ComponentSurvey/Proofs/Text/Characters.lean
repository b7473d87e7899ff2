import ComponentSurvey.Proofs.Text.Decoding

/-!
The bytes with which characters begin. A begun character stands for the code points that it can still
become: those whose bits it has and whose next six bits fit. Main statement: the bytes of a begun
character and one more are those with which some character begins exactly when that one fits.
-/

set_option autoImplicit false

namespace ComponentSurvey.Utf8

/-- A number without its last `k` groups of six bits. -/
def above : Nat → Nat → Nat
  | 0, n => n
  | k + 1, n => above k n / 64

def continuation (bits : Nat) : UInt8 := .ofNat (bits + 0x80)

def tail : Nat → Nat → List UInt8
  | 0, _ => []
  | k + 1, n => continuation (above k n % 64) :: tail k n

def extra (n : Nat) : Nat :=
  if n ≤ 0x7F then 0 else if n ≤ 0x7FF then 1 else if n ≤ 0xFFFF then 2 else 3

def leadNat (n : Nat) : Nat :=
  if n ≤ 0x7F then n
  else if n ≤ 0x7FF then n / 64 + 0xC0
  else if n ≤ 0xFFFF then n / 64 / 64 + 0xE0
  else n / 64 / 64 / 64 + 0xF0

def lead (n : Nat) : UInt8 := .ofNat (leadNat n)

variable {b : UInt8} {p rest : List UInt8} {c : Char} {k m n : Nat} {s : Begun}

theorem exists_above (k m : Nat) : ∃ n, above k n = m := by
  induction k generalizing m with
  | zero => exact ⟨m, rfl⟩
  | succ k ih =>
    obtain ⟨n, hn⟩ := ih (64 * m)
    refine ⟨n, ?_⟩
    rw [above, hn]
    omega

theorem toNat_ofNat (h : n.isValidChar) : (Char.ofNat n).toNat = n := by
  rw [Char.ofNat, dif_pos h]
  rfl

theorem toNat_continuation (h : m < 64) : (continuation m).toNat = m + 0x80 := by
  rw [continuation, UInt8.toNat_ofNat']
  omega

theorem encodeChar_eq (c : Char) :
    encodeChar c = lead c.toNat :: tail (extra c.toNat) c.toNat := by
  have hvalid : c.toNat.isValidChar := c.valid
  have hc : encodeChar c =
      if c.toNat ≤ 0x7F then [.ofNat c.toNat]
      else if c.toNat ≤ 0x7FF then [.ofNat (c.toNat / 64 % 32 + 0xC0), continuation (c.toNat % 64)]
      else if c.toNat ≤ 0xFFFF then
        [.ofNat (c.toNat / 4096 % 16 + 0xE0), continuation (c.toNat / 64 % 64),
          continuation (c.toNat % 64)]
      else
        [.ofNat (c.toNat / 262144 % 8 + 0xF0), continuation (c.toNat / 4096 % 64),
          continuation (c.toNat / 64 % 64), continuation (c.toNat % 64)] := rfl
  rw [hc, lead, leadNat, extra]
  generalize c.toNat = n at hvalid
  unfold Nat.isValidChar at hvalid
  split_ifs <;> simp only [above, tail]
  · rw [Nat.mod_eq_of_lt (by omega)]
  · rw [Nat.mod_eq_of_lt (by omega), Nat.div_div_eq_div_mul]
  · rw [Nat.mod_eq_of_lt (by omega), Nat.div_div_eq_div_mul n, Nat.div_div_eq_div_mul n]

namespace Begun

def Fits (s : Begun) (b : UInt8) : Prop := s.low ≤ b ∧ b ≤ s.high

def bitsWith (s : Begun) (b : UInt8) : Nat := 64 * s.bits + (b.toNat - 0x80)

def next (s : Begun) (b : UInt8) : Begun := ⟨s.lacking - 1, 0x80, 0xBF, s.bitsWith b⟩

/-- Code points that a begun character can become. -/
def Covers (s : Begun) (n : Nat) : Prop :=
  above s.lacking n = s.bits ∧ s.Fits (continuation (above (s.lacking - 1) n % 64))

theorem Fits.range (h : s.Fits b) (hs : s.Awaits) : 0x80 ≤ b.toNat ∧ b.toNat ≤ 0xBF :=
  ⟨UInt8.le_iff_toNat_le.1 (UInt8.le_trans hs.1 h.1),
    UInt8.le_iff_toNat_le.1 (UInt8.le_trans h.2 hs.2)⟩

theorem fits_continuation (h : m < 64) :
    s.Fits (continuation m) ↔ s.low.toNat ≤ m + 0x80 ∧ m + 0x80 ≤ s.high.toNat := by
  rw [Fits, UInt8.le_iff_toNat_le, UInt8.le_iff_toNat_le, toNat_continuation h]

/-- The code points that go on with a byte are those that have its bits next. -/
theorem covers_and_iff (hs : s.Awaits) (hlacking : s.lacking = k + 1) :
    s.Covers n ∧ b = continuation (above k n % 64) ↔ s.Fits b ∧ above k n = s.bitsWith b := by
  have hm : (continuation (above k n % 64)).toNat = above k n % 64 + 0x80 :=
    toNat_continuation (Nat.mod_lt _ (by decide))
  rw [Covers, hlacking, Nat.add_sub_cancel, above]
  unfold bitsWith
  constructor
  · rintro ⟨⟨hbits, hfits⟩, rfl⟩
    refine ⟨hfits, ?_⟩
    omega
  · rintro ⟨hfits, hbits⟩
    have hrange := hfits.range hs
    have hb : b = continuation (above k n % 64) := by
      rw [← UInt8.toNat_inj]
      omega
    refine ⟨⟨?_, hb ▸ hfits⟩, hb⟩
    omega

theorem awaits_next : (s.next b).Awaits := ⟨UInt8.le_refl _, UInt8.le_refl _⟩

theorem fits_next (h : m < 64) : (s.next b).Fits (continuation m) := by
  rw [fits_continuation h, next]
  simp only [UInt8.reduceToNat]
  omega

theorem covers_next (hlacking : s.lacking = k + 2) :
    (s.next b).Covers n ↔ above (k + 1) n = s.bitsWith b := by
  have h : (s.next b).lacking = k + 1 := by
    rw [next, hlacking]
    rfl
  rw [Covers, h]
  exact and_iff_left (fits_next (Nat.mod_lt _ (by decide)))

end Begun

theorem toNat_lead (h : n.isValidChar) : (lead n).toNat = leadNat n := by
  unfold Nat.isValidChar at h
  rw [lead, UInt8.toNat_ofNat', leadNat]
  split_ifs <;> omega

theorem covers_iff : s.Covers n ↔ above s.lacking n = s.bits ∧
    s.low.toNat ≤ above (s.lacking - 1) n % 64 + 0x80 ∧
    above (s.lacking - 1) n % 64 + 0x80 ≤ s.high.toNat := by
  rw [Begun.Covers, Begun.fits_continuation (Nat.mod_lt _ (by decide))]

theorem valid_of_covers (h : begun? b = some s) (hn : s.Covers n) :
    n.isValidChar ∧ lead n = b := by
  have hvalid : n.isValidChar ∧ leadNat n = b.toNat := by
    have hb := b.toNat_lt
    rw [covers_iff] at hn
    rw [leadNat, Nat.isValidChar]
    -- One case for each range of leading bytes.
    revert h
    fun_cases begun? b
    all_goals
      rintro ⟨⟩
    all_goals
      simp only [UInt8.lt_iff_toNat_lt, ← UInt8.toNat_inj, UInt8.reduceToNat, above] at *
      split_ifs <;> omega
  exact ⟨hvalid.1, UInt8.toNat_inj.1 ((toNat_lead hvalid.1).trans hvalid.2)⟩

theorem begun?_two : ∀ m < 32, 2 ≤ m →
    begun? (.ofNat (m + 0xC0)) = some ⟨1, 0x80, 0xBF, m⟩ := by
  decide

theorem begun?_three : ∀ m < 16, begun? (.ofNat (m + 0xE0)) =
    some ⟨2, if m = 0 then 0xA0 else 0x80, if m = 0xD then 0x9F else 0xBF, m⟩ := by
  decide

theorem begun?_four : ∀ m < 5, begun? (.ofNat (m + 0xF0)) =
    some ⟨3, if m = 0 then 0x90 else 0x80, if m = 4 then 0x8F else 0xBF, m⟩ := by
  decide

/-- The leading byte of a code point begins a character that can become this code point. -/
theorem begun?_lead (hn : n.isValidChar) (h : ¬ lead n < 0x80) :
    ∃ s, begun? (lead n) = some s ∧ s.lacking = extra n ∧ s.Covers n := by
  rw [UInt8.lt_iff_toNat_lt, toNat_lead hn] at h
  unfold Nat.isValidChar at hn
  simp only [covers_iff]
  rw [lead, extra]
  unfold leadNat at h ⊢
  split_ifs at h ⊢
  · exact absurd h (by simp only [UInt8.reduceToNat]; omega)
  · refine ⟨_, begun?_two _ (by omega) (by omega), rfl, rfl, ?_⟩
    simp only [UInt8.reduceToNat]
    omega
  · refine ⟨_, begun?_three _ (by omega), rfl, rfl, ?_⟩
    simp only [above]
    split_ifs <;> simp only [UInt8.reduceToNat] <;> omega
  · refine ⟨_, begun?_four _ (by omega), rfl, rfl, ?_⟩
    simp only [above]
    split_ifs <;> simp only [UInt8.reduceToNat] <;> omega

def Begins (p : List UInt8) : Prop := ∃ c, p <+: encodeChar c

/-- The bytes of a begun character so far. The characters that begin with them are the ones that it
can still become. -/
structure Begun.Spells (s : Begun) (p : List UInt8) : Prop where
  ne_nil : p ≠ []
  awaits : s.Awaits
  low_le_high : s.low ≤ s.high
  lacking_pos : 0 < s.lacking
  valid : ∀ n, s.Covers n → n.isValidChar
  eq_append_iff : ∀ c rest, encodeChar c = p ++ rest ↔
    s.Covers c.toNat ∧ rest = tail s.lacking c.toNat

theorem shape_of_begun? (h : begun? b = some s) : s.low ≤ s.high ∧ 0 < s.lacking := by
  revert h
  fun_cases begun? b
  all_goals
    rintro ⟨⟩
  all_goals
    dsimp only
    decide

theorem not_lt_of_begun? (h : begun? b = some s) : ¬ b < 0x80 := by
  intro hb
  rw [begun?, if_pos (UInt8.lt_trans hb (by decide))] at h
  cases h

theorem spells_of_begun? (h : begun? b = some s) : s.Spells [b] where
  ne_nil := by simp
  awaits := awaits_of_begun? h
  low_le_high := (shape_of_begun? h).1
  lacking_pos := (shape_of_begun? h).2
  valid n hn := (valid_of_covers h hn).1
  eq_append_iff c rest := by
    have hbegun (hlead : lead c.toNat = b) : s.lacking = extra c.toNat ∧ s.Covers c.toNat := by
      subst hlead
      obtain ⟨r, hr, hc⟩ := begun?_lead c.valid (not_lt_of_begun? h)
      cases h.symm.trans hr
      exact hc
    rw [encodeChar_eq, List.singleton_append, List.cons.injEq]
    constructor
    · rintro ⟨hlead, rfl⟩
      obtain ⟨hlacking, hcovers⟩ := hbegun hlead
      exact ⟨hcovers, by rw [hlacking]⟩
    · rintro ⟨hcovers, rfl⟩
      have hlead := (valid_of_covers h hcovers).2
      exact ⟨hlead, by rw [(hbegun hlead).1]⟩

namespace Begun.Spells

theorem eq_append_cons_iff (hs : s.Spells p) (hlacking : s.lacking = k + 1) :
    encodeChar c = p ++ b :: rest ↔
      (s.Fits b ∧ above k c.toNat = s.bitsWith b) ∧ rest = tail k c.toNat := by
  rw [hs.eq_append_iff, hlacking, tail, List.cons.injEq, ← and_assoc,
    covers_and_iff hs.awaits hlacking]

theorem begins_iff (hs : s.Spells p) : Begins (p ++ [b]) ↔ s.Fits b := by
  obtain ⟨k, hk⟩ := Nat.exists_eq_add_one.2 hs.lacking_pos
  constructor
  · rintro ⟨c, rest, hc⟩
    rw [List.append_assoc, List.singleton_append] at hc
    exact ((hs.eq_append_cons_iff hk).1 hc.symm).1.1
  · intro hb
    obtain ⟨n, hn⟩ := exists_above k (s.bitsWith b)
    have hcovers := ((covers_and_iff hs.awaits hk).2 ⟨hb, hn⟩).1
    have hc := toNat_ofNat (hs.valid n hcovers)
    refine ⟨Char.ofNat n, tail k n, ?_⟩
    rw [List.append_assoc, List.singleton_append, eq_comm, hs.eq_append_cons_iff hk, hc]
    exact ⟨⟨hb, hn⟩, rfl⟩

theorem begins (hs : s.Spells p) : Begins p := by
  obtain ⟨c, hc⟩ := hs.begins_iff.2 ⟨UInt8.le_refl _, hs.low_le_high⟩
  exact ⟨c, (List.prefix_append _ _).trans hc⟩

theorem ne_encodeChar (hs : s.Spells p) (c : Char) : encodeChar c ≠ p := by
  obtain ⟨k, hk⟩ := Nat.exists_eq_add_one.2 hs.lacking_pos
  intro h
  have htail := ((hs.eq_append_iff c []).1 (by rw [h, List.append_nil])).2
  rw [hk, tail] at htail
  cases htail

theorem last (hs : s.Spells p) (hb : s.Fits b) (hlacking : s.lacking = 1) :
    encodeChar (Char.ofNat (s.bitsWith b)) = p ++ [b] := by
  have hcovers : s.Covers (s.bitsWith b) :=
    ((covers_and_iff hs.awaits hlacking).2 ⟨hb, rfl⟩).1
  have hc := toNat_ofNat (hs.valid _ hcovers)
  rw [hs.eq_append_cons_iff hlacking, hc]
  exact ⟨⟨hb, rfl⟩, rfl⟩

theorem next (hs : s.Spells p) (hb : s.Fits b) (hlacking : s.lacking ≠ 1) :
    (s.next b).Spells (p ++ [b]) := by
  obtain ⟨k, hk⟩ : ∃ k, s.lacking = k + 2 := ⟨s.lacking - 2, by have := hs.lacking_pos; omega⟩
  have hnext : (s.next b).lacking = k + 1 := by
    rw [Begun.next, hk]
    rfl
  refine ⟨by simp, awaits_next, (by decide : (0x80 : UInt8) ≤ 0xBF), by omega, ?_, ?_⟩
  · intro n hn
    rw [covers_next hk] at hn
    exact hs.valid n ((covers_and_iff hs.awaits hk).2 ⟨hb, hn⟩).1
  · intro c rest
    rw [List.append_assoc, List.singleton_append, hs.eq_append_cons_iff hk, covers_next hk, hnext,
      and_iff_right hb]

end Begun.Spells

end ComponentSurvey.Utf8
