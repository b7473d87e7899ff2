import ComponentSurvey.Proofs.Json.Writing

/-!
The text of a document consists of printable ASCII characters, whatever characters the strings of the
document have, and of line breaks where there is an indent.
-/

set_option autoImplicit false

namespace ComponentSurvey

def Text.IsPrintableAscii (c : Char) : Prop := 0x20 ≤ c.toNat ∧ c.toNat ≤ 0x7E

instance : DecidablePred Text.IsPrintableAscii := fun c =>
  inferInstanceAs (Decidable (0x20 ≤ c.toNat ∧ c.toNat ≤ 0x7E))

open Text

theorem Text.isPrintableAscii_of_isDigit {c : Char} (h : c.isDigit) : IsPrintableAscii c := by
  simp only [Char.isDigit, Bool.and_eq_true, decide_eq_true_eq] at h
  exact ⟨le_trans (by decide) (UInt32.le_iff_toNat_le.1 h.1),
    le_trans (UInt32.le_iff_toNat_le.1 h.2) (by decide)⟩

theorem Text.isPrintableAscii_of_all {cs : List Char}
    (h : cs.all fun c => decide (IsPrintableAscii c)) : ∀ c ∈ cs, IsPrintableAscii c := by
  simpa using h

theorem Text.isPrintableAscii_hex (width n : Nat) : ∀ c ∈ hex width n, IsPrintableAscii c := by
  have hd : ∀ n < 16, IsPrintableAscii (hexDigit n) := by decide
  induction width generalizing n with
  | zero => exact List.forall_mem_nil _
  | succ width ih =>
    rw [hex, List.forall_mem_append, List.forall_mem_singleton]
    exact ⟨ih (n / 16), hd (n % 16) (Nat.mod_lt n (by decide))⟩

namespace Number

variable {ds : List Char}

theorem isPrintableAscii_zeros (n : Nat) : ∀ c ∈ zeros n, IsPrintableAscii c :=
  fun _ hc => isPrintableAscii_of_isDigit (Json.isDigit_of_mem_zeros hc)

theorem isPrintableAscii_digitsOf (n : Nat) : ∀ c ∈ digitsOf n, IsPrintableAscii c :=
  fun c hc => isPrintableAscii_of_isDigit ((Json.digits_digitsOf n).2 c hc)

theorem isPrintableAscii_positional (h : ∀ c ∈ ds, IsPrintableAscii c) (point : Int) :
    ∀ c ∈ positional ds point, IsPrintableAscii c := by
  have ht (c : Char) (hc : c ∈ ds.take point.toNat) := h c (List.mem_of_mem_take hc)
  have hd (c : Char) (hc : c ∈ ds.drop point.toNat) := h c (List.mem_of_mem_drop hc)
  have h0 : IsPrintableAscii '0' := by decide
  have hp : IsPrintableAscii '.' := by decide
  unfold positional
  split_ifs <;> simp only [List.forall_mem_append, List.forall_mem_cons]
  · exact ⟨⟨h0, hp, isPrintableAscii_zeros _⟩, h⟩
  · exact ⟨⟨h, isPrintableAscii_zeros _⟩, hp, h0, List.forall_mem_nil _⟩
  · exact ⟨ht, hp, hd⟩

theorem isPrintableAscii_exponential (style : NumberStyle) (h : ∀ c ∈ ds, IsPrintableAscii c)
    (point : Int) : ∀ c ∈ exponential style ds point, IsPrintableAscii c := by
  have ht (c : Char) (hc : c ∈ ds.take 1) := h c (List.mem_of_mem_take hc)
  have hd (c : Char) (hc : c ∈ ds.drop 1) := h c (List.mem_of_mem_drop hc)
  have hs : IsPrintableAscii (if point - 1 < 0 then '-' else '+') := by
    split_ifs <;> decide
  simp only [exponential, List.forall_mem_append, List.forall_mem_cons]
  refine ⟨⟨⟨ht, ?_⟩, by decide, hs, isPrintableAscii_zeros _⟩, isPrintableAscii_digitsOf _⟩
  split
  · exact List.forall_mem_nil _
  · exact List.forall_mem_cons.2 ⟨by decide, hd⟩

theorem isPrintableAscii_written (n : Number) : ∀ c ∈ n.written, IsPrintableAscii c := by
  have hm {cs : List Char} (b : Bool) (h : ∀ c ∈ cs, IsPrintableAscii c) :
      ∀ c ∈ if b then '-' :: cs else cs, IsPrintableAscii c := by
    cases b
    · exact h
    · exact List.forall_mem_cons.2 ⟨by decide, h⟩
  cases n with
  | whole n =>
    rw [written, Json.writtenWhole_eq, List.forall_mem_append]
    refine ⟨?_, isPrintableAscii_digitsOf _⟩
    cases decide (n < 0) <;> exact isPrintableAscii_of_all (by decide)
  | real x =>
    simp only [written, writtenReal]
    refine hm _ ?_
    split_ifs
    · exact isPrintableAscii_positional (isPrintableAscii_digitsOf _) _
    · exact isPrintableAscii_exponential _ (isPrintableAscii_digitsOf _) _

end Number

namespace Json

theorem isPrintableAscii_unitEscape (n : Nat) : ∀ c ∈ unitEscape n, IsPrintableAscii c :=
  List.forall_mem_cons.2 ⟨by decide, List.forall_mem_cons.2 ⟨by decide, isPrintableAscii_hex 4 n⟩⟩

theorem isPrintableAscii_escapedChar (c : Char) : ∀ d ∈ escapedChar c, IsPrintableAscii d := by
  unfold escapedChar
  split_ifs with hq hn hr ht hb hf hp hu
  · rcases (by simpa using hq : c = '"' ∨ c = '\\') with rfl | rfl <;>
      exact isPrintableAscii_of_all (by decide)
  · exact isPrintableAscii_of_all (by decide)
  · exact isPrintableAscii_of_all (by decide)
  · exact isPrintableAscii_of_all (by decide)
  · exact isPrintableAscii_of_all (by decide)
  · exact isPrintableAscii_of_all (by decide)
  · exact List.forall_mem_singleton.2 (by simpa [IsPrintableAscii] using hp)
  · exact isPrintableAscii_unitEscape _
  · exact List.forall_mem_append.2 ⟨isPrintableAscii_unitEscape _, isPrintableAscii_unitEscape _⟩

theorem isPrintableAscii_writtenString (s : String) :
    ∀ c ∈ writtenString s, IsPrintableAscii c := by
  simp only [writtenString, List.forall_mem_append, List.forall_mem_cons, List.mem_flatMap]
  refine ⟨⟨by decide, ?_⟩, by decide, List.forall_mem_nil _⟩
  rintro c ⟨d, -, hc⟩
  exact isPrintableAscii_escapedChar d c hc

/-- Characters that may stand in the text of a document: line breaks only where there is an indent. -/
def IsPlain (indent : Option Nat) (c : Char) : Prop :=
  IsPrintableAscii c ∨ c = '\n' ∧ indent ≠ none

variable {indent : Option Nat} {level : Nat}

theorem IsPlain.of_forall {cs : List Char} (h : ∀ c ∈ cs, IsPrintableAscii c) :
    ∀ c ∈ cs, IsPlain indent c := fun c hc => .inl (h c hc)

theorem isPlain_lineStart (indent : Option Nat) (level : Nat) :
    ∀ c ∈ lineStart indent level, IsPlain indent c := by
  cases indent with
  | none => exact List.forall_mem_nil _
  | some n =>
    refine List.forall_mem_cons.2 ⟨.inr ⟨rfl, Option.some_ne_none n⟩, fun c hc => ?_⟩
    rw [List.eq_of_mem_replicate hc]
    exact .inl (by decide)

theorem isPlain_itemEnd (indent : Option Nat) (level : Nat) :
    ∀ c ∈ itemEnd indent level, IsPlain indent c := by
  cases indent with
  | none =>
    rw [itemEnd]
    exact .of_forall (isPrintableAscii_of_all (by decide))
  | some n =>
    exact List.forall_mem_cons.2 ⟨.inl (by decide), isPlain_lineStart (some n) level⟩

theorem isPlain_writtenItems {xs : List Json}
    (h : ∀ x ∈ xs, ∀ c ∈ writtenAt indent level x, IsPlain indent c) :
    ∀ c ∈ writtenItems indent level xs, IsPlain indent c := by
  induction xs with
  | nil => exact List.forall_mem_nil _
  | cons x xs ih =>
    obtain ⟨hx, hxs⟩ := List.forall_mem_cons.1 h
    simp only [writtenItems, List.forall_mem_append]
    exact ⟨⟨isPlain_itemEnd indent level, hx⟩, ih hxs⟩

theorem isPlain_writtenFields {fs : List (String × Json)}
    (h : ∀ f ∈ fs, ∀ c ∈ writtenAt indent level f.2, IsPlain indent c) :
    ∀ c ∈ writtenFields indent level fs, IsPlain indent c := by
  induction fs with
  | nil => exact List.forall_mem_nil _
  | cons f fs ih =>
    obtain ⟨hf, hfs⟩ := List.forall_mem_cons.1 h
    simp only [writtenFields, List.forall_mem_append, List.forall_mem_cons]
    exact ⟨⟨⟨isPlain_itemEnd indent level, .of_forall (isPrintableAscii_writtenString f.1)⟩,
      .inl (by decide), .inl (by decide), hf⟩, ih hfs⟩

theorem isPlain_writtenAt (indent : Option Nat) (j : Json) (level : Nat) :
    ∀ c ∈ writtenAt indent level j, IsPlain indent c := by
  induction j using by_values generalizing level with
  | null =>
    rw [writtenAt]
    exact .of_forall (isPrintableAscii_of_all (by decide))
  | bool b =>
    cases b <;> rw [writtenAt] <;> exact .of_forall (isPrintableAscii_of_all (by decide))
  | number n =>
    rw [writtenAt]
    exact .of_forall n.isPrintableAscii_written
  | string s =>
    rw [writtenAt]
    exact .of_forall (isPrintableAscii_writtenString s)
  | array xs ih =>
    cases xs with
    | nil =>
      rw [writtenAt]
      exact .of_forall (isPrintableAscii_of_all (by decide))
    | cons x xs =>
      obtain ⟨hx, hxs⟩ := List.forall_mem_cons.1 ih
      have hi := isPlain_writtenItems fun y hy => hxs y hy (level + 1)
      have hl := isPlain_lineStart indent
      simp only [writtenAt, List.forall_mem_append, List.forall_mem_cons]
      exact ⟨⟨⟨⟨⟨.inl (by decide), hl _⟩, hx _⟩, hi⟩, hl _⟩, .inl (by decide), List.forall_mem_nil _⟩
  | object fs ih =>
    cases fs with
    | nil =>
      rw [writtenAt]
      exact .of_forall (isPrintableAscii_of_all (by decide))
    | cons f fs =>
      obtain ⟨k, v⟩ := f
      obtain ⟨hv, hfs⟩ := List.forall_mem_cons.1 ih
      have hk := @IsPlain.of_forall indent _ (isPrintableAscii_writtenString k)
      have hi := isPlain_writtenFields fun f hf => hfs f hf (level + 1)
      have hl := isPlain_lineStart indent
      simp only [writtenAt, List.forall_mem_append, List.forall_mem_cons]
      exact ⟨⟨⟨⟨⟨⟨.inl (by decide), hl _⟩, hk⟩, .inl (by decide), .inl (by decide), hv _⟩, hi⟩, hl _⟩,
        .inl (by decide), List.forall_mem_nil _⟩

theorem isPlain_written (indent : Option Int) (j : Json) :
    ∀ c ∈ (j.written indent).toList, IsPlain (indent.map Int.toNat) c := by
  rw [written, String.toList_ofList]
  exact isPlain_writtenAt _ j 0

end Json

end ComponentSurvey
