import ComponentSurvey.Json.Written
import ComponentSurvey.Proofs.Json.Numerals

/-!
Whatever is written of a document stands for it in the standard grammar, at every indent. It consists
of printable ASCII characters and, where there is an indent, of line breaks.
-/

set_option autoImplicit false

namespace ComponentSurvey.Json

open Grammar

theorem hexValue?_hexDigit : ∀ n < 16, hexValue? (Text.hexDigit n) = some n := by decide

theorem hex4?_hex {n : Nat} (h : n < 0x10000) :
    ∃ a b c d, Text.hex 4 n = [a, b, c, d] ∧ hex4? a b c d = some n := by
  refine ⟨_, _, _, _, rfl, ?_⟩
  have hd (m : Nat) := hexValue?_hexDigit (m % 16) (Nat.mod_lt m (by decide))
  simp only [hex4?, hd, Option.bind_eq_bind, Option.bind_some, Option.pure_def, Option.some.injEq]
  omega

variable {cs s : List Char}

theorem characters_unitEscape {c : Char} (hc : c.toNat < 0x10000) (h : Characters cs s) :
    Characters (unitEscape c.toNat ++ cs) (c :: s) := by
  obtain ⟨h₁, h₂, h₃, h₄, he, hv⟩ := hex4?_hex hc
  have hu := Characters.unit hv (not_surrogate c).1 (not_surrogate c).2 h
  rw [Char.ofNat_toNat] at hu
  simpa [unitEscape, he] using hu

theorem characters_pair {c : Char} (hc : 0x10000 ≤ c.toNat) (h : Characters cs s) :
    Characters (unitEscape (0xD800 + (c.toNat - 0x10000) / 0x400) ++
      unitEscape (0xDC00 + (c.toNat - 0x10000) % 0x400) ++ cs) (c :: s) := by
  have hb : c.toNat < 0x110000 := by
    have h : c.toNat < 0xD800 ∨ 0xDFFF < c.toNat ∧ c.toNat < 0x110000 := c.valid
    omega
  generalize hn : c.toNat - 0x10000 = n
  obtain ⟨h₁, h₂, h₃, h₄, hh, hm⟩ := hex4?_hex (n := 0xD800 + n / 0x400) (by omega)
  obtain ⟨l₁, l₂, l₃, l₄, hl, hk⟩ := hex4?_hex (n := 0xDC00 + n % 0x400) (by omega)
  have hhigh : isHighSurrogate (0xD800 + n / 0x400) := by
    simp [isHighSurrogate]
    omega
  have hlow : isLowSurrogate (0xDC00 + n % 0x400) := by
    simp [isLowSurrogate]
    omega
  have hp := Characters.pair hm hhigh hk hlow h
  have hv : 0x10000 + (0xD800 + n / 0x400 - 0xD800) * 0x400 + (0xDC00 + n % 0x400 - 0xDC00) =
      c.toNat := by omega
  rw [hv, Char.ofNat_toNat] at hp
  rw [unitEscape, unitEscape, hh, hl]
  exact hp

theorem characters_escapedChar (c : Char) (h : Characters cs s) :
    Characters (escapedChar c ++ cs) (c :: s) := by
  unfold escapedChar
  split_ifs with hq hn hr ht hb hf hp hu
  · rcases (by simpa using hq : c = '"' ∨ c = '\\') with rfl | rfl <;> exact .escape rfl h
  · exact (beq_iff_eq.1 hn) ▸ .escape rfl h
  · exact (beq_iff_eq.1 hr) ▸ .escape rfl h
  · exact (beq_iff_eq.1 ht) ▸ .escape rfl h
  · exact (beq_iff_eq.1 hb) ▸ .escape rfl h
  · exact (beq_iff_eq.1 hf) ▸ .escape rfl h
  · simp only [Bool.and_eq_true, decide_eq_true_eq, Bool.or_eq_true, beq_iff_eq, not_or] at hp hq
    exact .plain hp.1 hq.1 hq.2 h
  · exact characters_unitEscape hu h
  · exact characters_pair (Nat.not_lt.1 hu) h

theorem characters_escaped (cs : List Char) : Characters (cs.flatMap escapedChar) cs := by
  induction cs with
  | nil => exact .nil
  | cons c cs ih => exact characters_escapedChar c ih

theorem quoted_writtenString (s : String) : Quoted (writtenString s) s := by
  have h := Quoted.mk (characters_escaped s.toList)
  rwa [String.ofList_toList] at h

mutual
def reals : Json → List Binary64
  | .number (.real x) => [x]
  | .array xs => realsOfItems xs
  | .object fs => realsOfFields fs
  | _ => []
def realsOfItems : List Json → List Binary64
  | [] => []
  | x :: xs => x.reals ++ realsOfItems xs
def realsOfFields : List (String × Json) → List Binary64
  | [] => []
  | (_, v) :: fs => v.reals ++ realsOfFields fs
end

theorem realsOfItems_eq (xs : List Json) : realsOfItems xs = xs.flatMap reals := by
  induction xs with
  | nil => rfl
  | cons x xs ih => rw [realsOfItems, ih, List.flatMap_cons]

theorem realsOfFields_eq (fs : List (String × Json)) :
    realsOfFields fs = fs.flatMap (·.2.reals) := by
  induction fs with
  | nil => rfl
  | cons f fs ih => rw [realsOfFields, ih, List.flatMap_cons]

mutual
/-- Induction over all parts of a document at once. -/
theorem by_values {P : Json → Prop} (null : P .null) (bool : ∀ b, P (.bool b))
    (number : ∀ n, P (.number n)) (string : ∀ s, P (.string s))
    (array : ∀ xs, (∀ x ∈ xs, P x) → P (.array xs))
    (object : ∀ fs, (∀ f ∈ fs, P f.2) → P (.object fs)) (j : Json) : P j := by
  match j with
  | .null => exact null
  | .bool b => exact bool b
  | .number n => exact number n
  | .string s => exact string s
  | .array xs => exact array xs (by_items null bool number string array object xs)
  | .object fs => exact object fs (by_fields null bool number string array object fs)
theorem by_items {P : Json → Prop} (null : P .null) (bool : ∀ b, P (.bool b))
    (number : ∀ n, P (.number n)) (string : ∀ s, P (.string s))
    (array : ∀ xs, (∀ x ∈ xs, P x) → P (.array xs))
    (object : ∀ fs, (∀ f ∈ fs, P f.2) → P (.object fs)) (xs : List Json) : ∀ x ∈ xs, P x := by
  match xs with
  | [] => exact fun x hx => absurd hx List.not_mem_nil
  | x :: xs =>
    exact List.forall_mem_cons.2 ⟨by_values null bool number string array object x,
      by_items null bool number string array object xs⟩
theorem by_fields {P : Json → Prop} (null : P .null) (bool : ∀ b, P (.bool b))
    (number : ∀ n, P (.number n)) (string : ∀ s, P (.string s))
    (array : ∀ xs, (∀ x ∈ xs, P x) → P (.array xs))
    (object : ∀ fs, (∀ f ∈ fs, P f.2) → P (.object fs)) (fs : List (String × Json)) :
    ∀ f ∈ fs, P f.2 := by
  match fs with
  | [] => exact fun f hf => absurd hf List.not_mem_nil
  | (k, v) :: fs =>
    exact List.forall_mem_cons.2 ⟨by_values null bool number string array object v,
      by_fields null bool number string array object fs⟩
end

variable {indent : Option Nat} {level : Nat}

theorem blanks_lineStart (indent : Option Nat) (level : Nat) : Blanks (lineStart indent level) := by
  cases indent with
  | none => exact fun c hc => by cases hc
  | some n =>
    intro c hc
    rcases List.mem_cons.1 hc with rfl | hc
    · rfl
    · rw [List.eq_of_mem_replicate hc]
      rfl

/-- Items and fields are divided by commas, with blanks behind them. -/
theorem itemEnd_eq (indent : Option Nat) (level : Nat) :
    ∃ ws, Blanks ws ∧ itemEnd indent level = ',' :: ws := by
  cases indent with
  | none => exact ⟨[' '], blanks_space, rfl⟩
  | some n => exact ⟨_, blanks_lineStart (some n) level, rfl⟩

theorem items_written {before after : List Char} {x : Json} {xs : List Json} (hb : Blanks before)
    (ha : Blanks after) (h : ∀ y ∈ x :: xs, Value (writtenAt indent level y) y) :
    Items (before ++ writtenAt indent level x ++ writtenItems indent level xs ++ after)
      (x :: xs) := by
  obtain ⟨hx, hxs⟩ := List.forall_mem_cons.1 h
  induction xs generalizing x before with
  | nil =>
    rw [writtenItems, List.append_nil]
    exact .last (.mk hb hx ha)
  | cons y xs ih =>
    obtain ⟨ws, hw, he⟩ := itemEnd_eq indent level
    obtain ⟨hy, hys⟩ := List.forall_mem_cons.1 hxs
    have hi := Items.more (.mk hb hx blanks_nil) (ih hw hxs hy hys)
    simpa [writtenItems, he] using hi

theorem fields_written {before after : List Char} {k : String} {v : Json}
    {fs : List (String × Json)} (hb : Blanks before) (ha : Blanks after)
    (h : ∀ f ∈ (k, v) :: fs, Value (writtenAt indent level f.2) f.2) :
    Fields (before ++ writtenString k ++ ':' :: ' ' :: writtenAt indent level v ++
      writtenFields indent level fs ++ after) ((k, v) :: fs) := by
  obtain ⟨hx, hxs⟩ := List.forall_mem_cons.1 h
  have hk := quoted_writtenString k
  induction fs generalizing k v before with
  | nil =>
    have hf := Grammar.Field.mk hb hk blanks_nil (.mk blanks_space hx ha)
    simpa [writtenFields] using Fields.last hf
  | cons f fs ih =>
    obtain ⟨l, w⟩ := f
    obtain ⟨ws, hw, he⟩ := itemEnd_eq indent level
    obtain ⟨hy, hys⟩ := List.forall_mem_cons.1 hxs
    have hf := Grammar.Field.mk hb hk blanks_nil (.mk blanks_space hx blanks_nil)
    have hi := Fields.more hf (ih hw hxs hy hys (quoted_writtenString l))
    simpa [writtenFields, he] using hi

theorem value_writtenAt (indent : Option Nat) (j : Json)
    (h : ∀ x ∈ j.reals, x.IsReadBack) (level : Nat) :
    Value (writtenAt indent level j) j := by
  induction j using by_values generalizing level with
  | null => exact .null
  | bool b => cases b <;> constructor
  | number n =>
    cases n with
    | whole n => exact .number (numeral_writtenWhole n)
    | real x => exact .number (numeral_writtenReal .document (h x (by simp [reals])))
  | string s => exact .string (quoted_writtenString s)
  | array xs ih =>
    cases xs with
    | nil => exact .noItems blanks_nil
    | cons x xs =>
      rw [reals, realsOfItems_eq] at h
      have hi (y : Json) (hy : y ∈ x :: xs) := ih y hy
        (fun z hz => h z (List.mem_flatMap_of_mem hy hz)) (level + 1)
      have hv := Value.array (items_written (blanks_lineStart indent (level + 1))
        (blanks_lineStart indent level) hi)
      simpa [writtenAt] using hv
  | object fs ih =>
    cases fs with
    | nil => exact .noFields blanks_nil
    | cons f fs =>
      obtain ⟨k, v⟩ := f
      rw [reals, realsOfFields_eq] at h
      have hi (f : String × Json) (hf : f ∈ (k, v) :: fs) := ih f hf
        (fun z hz => h z (List.mem_flatMap_of_mem hf hz)) (level + 1)
      have hv := Value.object (fields_written (blanks_lineStart indent (level + 1))
        (blanks_lineStart indent level) hi)
      simpa [writtenAt] using hv

theorem document_written (indent : Option Int) {j : Json}
    (h : ∀ x ∈ j.reals, x.IsReadBack) : Document (j.written indent) j := by
  have he := Element.mk blanks_nil (value_writtenAt (indent.map Int.toNat) j h 0) blanks_nil
  simpa [Document, written] using he

end ComponentSurvey.Json
