import Mathlib.Tactic.SplitIfs
import ComponentSurvey.Text.Utf8

/-!
Bytes read in pieces. A byte that cannot go on with a character ends the one before it, so a piece that
begins with no such byte reads the same wherever it stands.
-/

set_option autoImplicit false

namespace ComponentSurvey.Utf8

def isContinuation (b : UInt8) : Bool := 0x80 ≤ b && b ≤ 0xBF

def Begun.Awaits (s : Begun) : Prop := 0x80 ≤ s.low ∧ s.high ≤ 0xBF

theorem awaits_of_begun? {b : UInt8} {s : Begun} (h : begun? b = some s) : s.Awaits := by
  unfold begun? at h
  split_ifs at h <;> cases h <;> dsimp only [Begun.Awaits] <;> decide

theorem not_awaited {s : Begun} (hs : s.Awaits) {b : UInt8} (hb : isContinuation b = false) :
    ¬ (s.low ≤ b ∧ b ≤ s.high) := by
  rintro ⟨hlow, hhigh⟩
  have h : isContinuation b := by
    simp only [isContinuation, Bool.and_eq_true, decide_eq_true_eq]
    exact ⟨UInt8.le_trans hs.1 hlow, UInt8.le_trans hhigh hs.2⟩
  simp [h] at hb

variable {state : Option Begun} {bs : List UInt8}

theorem read_of_head (hstate : ∀ s ∈ state, s.Awaits)
    (h : ∀ b ∈ bs.head?, isContinuation b = false) : read state bs = read none bs := by
  match state, bs with
  | _, [] => simp only [read]
  | none, b :: bs => rfl
  | some s, b :: bs => simp only [read, if_neg (not_awaited (hstate s rfl) (h b rfl))]

/-- What stands behind such a piece boundary is read on its own. -/
theorem read_append (hstate : ∀ s ∈ state, s.Awaits) (as : List UInt8)
    (h : ∀ b ∈ bs.head?, isContinuation b = false) :
    read state (as ++ bs) = read state as ++ read none bs := by
  fun_induction read state as with
  | case1 state => exact read_of_head hstate h
  | case2 b as hb ih => simp only [List.cons_append, read, if_pos hb, ih (by simp)]
  | case3 b as hb ih =>
    simp only [List.cons_append, read, if_neg hb, ih fun s hs => awaits_of_begun? hs]
  | case4 s b as hfits bits hlast ih =>
    simp only [List.cons_append, read, if_pos hfits, if_pos hlast, bits, ih (by simp)]
  | case5 s b as hfits bits hlast ih =>
    have hnext : ∀ r ∈ some (⟨s.lacking - 1, 0x80, 0xBF, bits⟩ : Begun), r.Awaits := by
      rintro r ⟨⟩
      exact ⟨UInt8.le_refl _, UInt8.le_refl _⟩
    simp only [List.cons_append, read, if_pos hfits, if_neg hlast, bits] at ih ⊢
    exact ih hnext
  | case6 s b as hfits hb ih =>
    simp only [List.cons_append, read, if_neg hfits, if_pos hb, ih (by simp)]
  | case7 s b as hfits hb ih =>
    simp only [List.cons_append, read, if_neg hfits, if_neg hb,
      ih fun s hs => awaits_of_begun? hs]

theorem decode_append (as : List UInt8) (h : ∀ b ∈ bs.head?, isContinuation b = false) :
    decode (as ++ bs) = decode as ++ decode bs := by
  rw [decode, read_append (by simp) as h, String.ofList_append, decode, decode]

theorem head?_flatten {pieces : List (List UInt8)}
    (h : ∀ piece ∈ pieces, ∀ b ∈ piece.head?, isContinuation b = false) :
    ∀ b ∈ pieces.flatten.head?, isContinuation b = false := by
  induction pieces with
  | nil => simp
  | cons piece pieces ih =>
    obtain ⟨hpiece, hpieces⟩ := List.forall_mem_cons.1 h
    cases piece with
    | nil => simpa using ih hpieces
    | cons b bs => exact hpiece

/-- Bytes in pieces, none of which begins inside a character. -/
theorem decode_flatten {pieces : List (List UInt8)}
    (h : ∀ piece ∈ pieces, ∀ b ∈ piece.head?, isContinuation b = false) :
    decode pieces.flatten = String.join (pieces.map decode) := by
  induction pieces with
  | nil => rfl
  | cons piece pieces ih =>
    have hpieces := (List.forall_mem_cons.1 h).2
    rw [List.flatten_cons, decode_append piece (head?_flatten hpieces), ih hpieces, List.map_cons,
      String.join_cons]

end ComponentSurvey.Utf8
