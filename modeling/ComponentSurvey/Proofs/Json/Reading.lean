import ComponentSurvey.Json.Grammar
import Mathlib.Data.List.DropRight

/-!
The reader accepts every text of the standard grammar, and gives the document that it stands for.
-/

set_option autoImplicit false

namespace ComponentSurvey.Json

namespace Grammar

variable {cs ds s rest : List Char}

def NoDigit (rest : List Char) : Prop := ∀ c ∈ rest.head?, c.isDigit = false

/-- Nothing comes next with which a number could go on. -/
def NumberEnds (rest : List Char) : Prop :=
  ∀ c ∈ rest.head?, c.isDigit = false ∧ c ≠ '.' ∧ c ≠ 'e' ∧ c ≠ 'E'

theorem NumberEnds.noDigit (h : NumberEnds rest) : NoDigit rest := fun c hc => (h c hc).1

theorem ne_of_isDigit {c d : Char} (hd : d.isDigit) (hc : c.isDigit = false) : d ≠ c := by
  rintro rfl
  simp [hd] at hc

theorem Digits.exists_cons (h : Digits ds) : ∃ d ds', ds = d :: ds' ∧ d.isDigit := by
  obtain ⟨d, ds', rfl⟩ := List.exists_cons_of_ne_nil h.1
  exact ⟨d, ds', rfl, h.2 d List.mem_cons_self⟩

theorem Digits.read (h : Digits ds) (hr : NoDigit rest) :
    digits? (ds ++ rest) = some (ds, rest) := by
  have ht : rest.takeWhile Char.isDigit = [] ∧ rest.dropWhile Char.isDigit = rest := by
    cases rest with
    | nil => exact ⟨rfl, rfl⟩
    | cons c rest => simp [hr c rfl]
  rw [digits?, List.takeWhile_append_of_pos h.2, List.dropWhile_append_of_pos h.2, ht.1, ht.2,
    List.append_nil]
  obtain ⟨d, ds', rfl⟩ := List.exists_cons_of_ne_nil h.1
  rfl

theorem signed_minus (negative : Bool) (h : Digits ds) (rest : List Char) :
    signed (minus negative ++ (ds ++ rest)) = (negative, ds ++ rest) := by
  cases negative with
  | true => rfl
  | false =>
    obtain ⟨d, ds, rfl, hd⟩ := h.exists_cons
    simp [signed, minus, ne_of_isDigit hd (by decide : '-'.isDigit = false)]

theorem WholePart.no_leading_zero (h : WholePart ds) :
    ¬ (1 < ds.length ∧ ds.head? = some '0') := by
  rintro ⟨hl, hd⟩
  rw [h.2 hd] at hl
  exact absurd hl (by decide)

theorem Fraction.read {fraction fs : List Char} (h : Fraction fraction fs) (hr : NoDigit rest)
    (hp : rest.head? ≠ some '.') : fraction? (fraction ++ rest) = some (fs, rest) := by
  cases h with
  | absent =>
    cases rest with
    | nil => rfl
    | cons c rest =>
      have hc : c ≠ '.' := fun he => hp (he ▸ rfl)
      simp [fraction?, hc]
  | given hd => exact hd.read hr

theorem Exponent.read {exponent : List Char} {e : Option Int} (h : Exponent exponent e)
    (hr : NumberEnds rest) : exponent? (exponent ++ rest) = some (e, rest) := by
  cases h with
  | absent =>
    cases rest with
    | nil => rfl
    | cons c rest =>
      obtain ⟨-, -, hc⟩ := hr c rfl
      simp [exponent?, hc]
  | @given mark sign ds negative hm hs hd =>
    have hds := hd.read hr.noDigit
    cases hs with
    | absent =>
      obtain ⟨d, ds', rfl, hd'⟩ := hd.exists_cons
      have hminus := ne_of_isDigit hd' (by decide : '-'.isDigit = false)
      have hplus := ne_of_isDigit hd' (by decide : '+'.isDigit = false)
      rw [List.cons_append] at hds
      rcases hm with rfl | rfl <;> simp [exponent?, hminus, hplus, hds, withSign]
    | plus => rcases hm with rfl | rfl <;> simp [exponent?, hds, withSign]
    | minus => rcases hm with rfl | rfl <;> simp [exponent?, hds, withSign]

/-- What begins with an exponent or ends a number does not go on with a digit or a point. -/
theorem Exponent.ends {exponent : List Char} {e : Option Int} (h : Exponent exponent e)
    (hr : NumberEnds rest) :
    NoDigit (exponent ++ rest) ∧ (exponent ++ rest).head? ≠ some '.' := by
  cases h with
  | absent => exact ⟨hr.noDigit, fun hp => (hr '.' hp).2.1 rfl⟩
  | given hm _ _ =>
    rcases hm with rfl | rfl <;> exact ⟨fun c hc => by cases hc; rfl, by simp⟩

theorem Fraction.ends {fraction fs : List Char} (h : Fraction fraction fs) (hr : NoDigit rest) :
    NoDigit (fraction ++ rest) := by
  cases h with
  | absent => exact hr
  | given _ => exact fun c hc => by cases hc; rfl

theorem Numeral.read {n : Number} (h : Numeral cs n) (hr : NumberEnds rest) :
    number? (cs ++ rest) = some (n, rest) := by
  cases h with
  | whole negative hw =>
    have hm := signed_minus negative hw.1 rest
    have hf := Fraction.absent.read hr.noDigit fun hp => (hr '.' hp).2.1 rfl
    have he := Exponent.absent.read hr
    rw [List.nil_append] at hf he
    rw [List.append_assoc]
    simp [number?, hm, hw.1.read hr.noDigit, hw.no_leading_zero, hf, he, withSign]
  | @real negative ds fraction fs exponent e x hw hf he hs hx =>
    obtain ⟨hd, hp⟩ := he.ends hr
    have hm := signed_minus negative hw.1 (fraction ++ (exponent ++ rest))
    have hds := hw.1.read (hf.ends hd)
    have hn : ¬ (fs = [] ∧ e = none) := fun hn => hs.elim (· hn.1) (· hn.2)
    rw [List.append_assoc, List.append_assoc, List.append_assoc]
    simp [number?, hm, hds, hw.no_leading_zero, hf.read hd hp, he.read hr, hn, hx]

theorem charsOfUnits?_cons {n : Nat} (hh : isHighSurrogate n = false)
    (hl : isLowSurrogate n = false) (ns : List Nat) :
    charsOfUnits? (n :: ns) = (charsOfUnits? ns).map (Char.ofNat n :: ·) := by
  cases ns <;> simp [charsOfUnits?, hh, hl]

theorem charsOfUnits?_char (c : Char) (ns : List Nat) :
    charsOfUnits? (c.toNat :: ns) = (charsOfUnits? ns).map (c :: ·) := by
  rw [charsOfUnits?_cons (not_surrogate c).1 (not_surrogate c).2, Char.ofNat_toNat]

theorem Characters.read (h : Characters cs s) (rest : List Char) :
    ∃ units, stringUnits? (cs ++ '"' :: rest) = some (units, rest) ∧
      charsOfUnits? units = some s := by
  induction h with
  | nil => exact ⟨[], rfl, rfl⟩
  | @plain c _ _ hc hq hb _ ih =>
    obtain ⟨units, hu, hs⟩ := ih
    refine ⟨c.toNat :: units, ?_, by rw [charsOfUnits?_char, hs]; rfl⟩
    rw [List.cons_append]
    simp [stringUnits?, hb, Nat.not_lt.2 hc, hu]
  | @escape e c _ _ he _ ih =>
    obtain ⟨units, hu, hs⟩ := ih
    have hne : e ≠ 'u' := by
      rintro rfl
      cases he
    refine ⟨c.toNat :: units, ?_, by rw [charsOfUnits?_char, hs]; rfl⟩
    rw [List.cons_append, List.cons_append]
    simp [stringUnits?, hne, he, hu]
  | @unit _ _ _ _ n _ _ hn hh hl _ ih =>
    obtain ⟨units, hu, hs⟩ := ih
    refine ⟨n :: units, ?_, by rw [charsOfUnits?_cons hh hl, hs]; rfl⟩
    simp [stringUnits?, hn, hu]
  | @pair _ _ _ _ _ _ _ _ m n _ _ hm hh hn hl _ ih =>
    obtain ⟨units, hu, hs⟩ := ih
    refine ⟨m :: n :: units, ?_, by simp [charsOfUnits?, hh, hl, hs]⟩
    simp [stringUnits?, hm, hn, hu]

/-- The reader of strings comes behind the quote in front. -/
theorem Quoted.read {k : String} (h : Quoted cs k) (rest : List Char) :
    ∃ r, cs ++ rest = '"' :: r ∧ string? r = some (k, rest) := by
  cases h with
  | @mk cs s hc =>
    obtain ⟨units, hu, hs⟩ := hc.read rest
    exact ⟨cs ++ '"' :: rest, by simp, by simp [string?, hu, hs]⟩

theorem afterSpace_append {before : List Char} (h : Blanks before) (rest : List Char) :
    afterSpace (before ++ rest) = afterSpace rest := List.dropWhile_append_of_pos h

theorem afterSpace_cons {c : Char} (h : isSpace c = false) (rest : List Char) :
    afterSpace (c :: rest) = c :: rest := by
  simp [afterSpace, h]

theorem afterSpace_afterSpace (rest : List Char) :
    afterSpace (afterSpace rest) = afterSpace rest := List.dropWhile_idempotent isSpace rest

/-- Blanks in front of a value, an item or a field make no difference. -/
theorem value?_afterSpace (steps : Nat) (rest : List Char) :
    value? steps (afterSpace rest) = value? steps rest := by
  cases steps with
  | zero => rfl
  | succ steps => rw [value?, value?, afterSpace_afterSpace]

theorem items?_afterSpace (steps : Nat) (rest : List Char) :
    items? steps (afterSpace rest) = items? steps rest := by
  cases steps with
  | zero => rfl
  | succ steps => rw [items?, items?, value?_afterSpace]

theorem fields?_afterSpace (steps : Nat) (rest : List Char) :
    fields? steps (afterSpace rest) = fields? steps rest := by
  cases steps with
  | zero => rfl
  | succ steps => rw [fields?, fields?, afterSpace_afterSpace]

theorem numberEnds_cons {c : Char} (h : c ∈ [',', ']', '\x7d', ' ', '\t', '\n', '\r'])
    (rest : List Char) : NumberEnds (c :: rest) := by
  intro d hd
  cases hd
  simp only [List.mem_cons, List.not_mem_nil, or_false] at h
  rcases h with rfl | rfl | rfl | rfl | rfl | rfl | rfl <;> decide

theorem NumberEnds.append {after : List Char} (ha : Blanks after) (hr : NumberEnds rest) :
    NumberEnds (after ++ rest) := by
  cases after with
  | nil => exact hr
  | cons c after =>
    have hc : isSpace c := ha c List.mem_cons_self
    simp only [isSpace, Bool.or_eq_true, beq_iff_eq] at hc
    refine numberEnds_cons ?_ _
    rcases hc with ((rfl | rfl) | rfl) | rfl <;> simp

theorem Numeral.exists_cons {n : Number} (h : Numeral cs n) :
    ∃ c r, cs = c :: r ∧ (c = '-' ∨ c.isDigit) := by
  have hm (negative : Bool) {ds : List Char} (hd : Digits ds) (more : List Char) :
      ∃ c r, minus negative ++ ds ++ more = c :: r ∧ (c = '-' ∨ c.isDigit) := by
    cases negative with
    | true => exact ⟨_, _, rfl, .inl rfl⟩
    | false =>
      obtain ⟨d, ds', rfl, hd'⟩ := hd.exists_cons
      exact ⟨d, ds' ++ more, rfl, .inr hd'⟩
  cases h with
  | whole negative hw => simpa using hm negative hw.1 []
  | @real _ _ fraction _ exponent _ _ hw =>
    rw [List.append_assoc]
    exact hm _ hw.1 (fraction ++ exponent)

/-- A number begins neither with a blank nor as another value or the end of an array does. -/
theorem ne_of_mem {c d : Char} (h : c = '-' ∨ c.isDigit)
    (hd : d ∈ [' ', '\t', '\n', '\r', 'n', 't', 'f', '"', '[', ']', '\x7b']) : c ≠ d := by
  rintro rfl
  simp only [List.mem_cons, List.not_mem_nil, or_false] at hd
  rcases hd with rfl | rfl | rfl | rfl | rfl | rfl | rfl | rfl | rfl | rfl | rfl <;>
    exact absurd h (by decide)

theorem isSpace_of_number {c : Char} (h : c = '-' ∨ c.isDigit) : isSpace c = false := by
  simp [isSpace, ne_of_mem h]

theorem value?_number {c : Char} (h : c = '-' ∨ c.isDigit) (steps : Nat) (r : List Char) :
    value? (steps + 1) (c :: r) = (number? (c :: r)).map fun (n, r) => (.number n, r) := by
  have hne (d : Char) := ne_of_mem (d := d) h
  rw [value?, afterSpace_cons (isSpace_of_number h)]
  split <;> simp_all

/-- A value begins with neither a blank nor a closing bracket. -/
theorem Value.exists_cons {j : Json} (h : Value cs j) :
    ∃ c r, cs = c :: r ∧ isSpace c = false ∧ c ≠ ']' := by
  cases h with
  | number hn =>
    obtain ⟨c, r, rfl, hc⟩ := hn.exists_cons
    exact ⟨c, r, rfl, isSpace_of_number hc, ne_of_mem hc (by decide)⟩
  | string hs =>
    cases hs with
    | mk => exact ⟨_, _, rfl, by decide, by decide⟩
  | _ => exact ⟨_, _, rfl, by decide, by decide⟩

theorem Element.exists_cons {j : Json} (h : Element cs j) (rest : List Char) :
    ∃ c r, afterSpace (cs ++ rest) = c :: r ∧ c ≠ ']' := by
  cases h with
  | mk hb hv ha =>
    obtain ⟨c, r, rfl, hc, hne⟩ := hv.exists_cons
    rw [List.append_assoc, List.append_assoc, afterSpace_append hb, List.cons_append,
      afterSpace_cons hc]
    exact ⟨c, _, rfl, hne⟩

theorem Items.exists_cons {xs : List Json} (h : Items cs xs) (rest : List Char) :
    ∃ c r, afterSpace (cs ++ rest) = c :: r ∧ c ≠ ']' := by
  cases h with
  | last he => exact he.exists_cons rest
  | more he _ =>
    rw [List.append_assoc]
    exact he.exists_cons _

theorem Field.exists_cons {k : String} {v : Json} (h : Field cs k v) (rest : List Char) :
    ∃ r, afterSpace (cs ++ rest) = '"' :: r := by
  cases h with
  | mk hb hq _ _ =>
    cases hq with
    | mk =>
      simp only [List.append_assoc, afterSpace_append hb, List.cons_append]
      exact ⟨_, afterSpace_cons (by decide) _⟩

theorem Fields.exists_cons {fs : List (String × Json)} (h : Fields cs fs) (rest : List Char) :
    ∃ r, afterSpace (cs ++ rest) = '"' :: r := by
  cases h with
  | last hf => exact hf.exists_cons rest
  | more hf _ =>
    rw [List.append_assoc]
    exact hf.exists_cons _

theorem value?_array {xs : List Json} (h : Items cs xs) (steps : Nat) (rest : List Char) :
    value? (steps + 1) ('[' :: (cs ++ rest)) =
      (items? steps (cs ++ rest)).map fun (xs, r) => (.array xs, r) := by
  obtain ⟨c, r, hc, hne⟩ := h.exists_cons rest
  rw [← items?_afterSpace, value?, afterSpace_cons (by decide)]
  simp [hc, hne]

theorem value?_object {fs : List (String × Json)} (h : Fields cs fs) (steps : Nat)
    (rest : List Char) :
    value? (steps + 1) ('\x7b' :: (cs ++ rest)) =
      (fields? steps (cs ++ rest)).map fun (fs, r) => (.object fs, r) := by
  obtain ⟨r, hr⟩ := h.exists_cons rest
  rw [← fields?_afterSpace, value?, afterSpace_cons (by decide)]
  simp [hr]

mutual
/-- Every nesting and every item takes a character, so there are steps enough. -/
theorem Value.read {cs rest : List Char} {j : Json} (h : Value cs j) (hr : NumberEnds rest)
    (steps : Nat) (hs : cs.length ≤ steps) : value? steps (cs ++ rest) = some (j, rest) := by
  obtain ⟨c, r, hc, -⟩ := h.exists_cons
  obtain ⟨steps, rfl⟩ : ∃ n, steps = n + 1 := ⟨steps - 1, by rw [hc] at hs; simp at hs; omega⟩
  match h with
  | .null => rfl
  | .yes => rfl
  | .no => rfl
  | .number hn =>
    obtain ⟨c, r, rfl, hn'⟩ := hn.exists_cons
    rw [List.cons_append, value?_number hn', ← List.cons_append, hn.read hr]
    rfl
  | .string hq =>
    obtain ⟨r, hr, hq⟩ := hq.read rest
    rw [hr, value?, afterSpace_cons (by decide)]
    simp [hq]
  | .noItems hb =>
    rw [List.cons_append, List.cons_append, List.append_assoc, value?, afterSpace_cons (by decide)]
    simp [afterSpace_append hb, afterSpace_cons (by decide : isSpace ']' = false)]
  | .array hi =>
    rw [List.cons_append, List.cons_append, List.append_assoc, value?_array hi, List.singleton_append,
      hi.read rest steps (by simp at hs; omega)]
    rfl
  | .noFields hb =>
    rw [List.cons_append, List.cons_append, List.append_assoc, value?, afterSpace_cons (by decide)]
    simp [afterSpace_append hb, afterSpace_cons (by decide : isSpace '\x7d' = false)]
  | .object hf =>
    rw [List.cons_append, List.cons_append, List.append_assoc, value?_object hf, List.singleton_append,
      hf.read rest steps (by simp at hs; omega)]
    rfl
theorem Element.read {cs rest : List Char} {j : Json} (h : Element cs j) (hr : NumberEnds rest)
    (steps : Nat) (hs : cs.length ≤ steps) :
    ∃ r, value? steps (cs ++ rest) = some (j, r) ∧ afterSpace r = afterSpace rest := by
  match h with
  | @Element.mk _ _ after _ hb hv ha =>
    refine ⟨after ++ rest, ?_, afterSpace_append ha rest⟩
    rw [← value?_afterSpace, List.append_assoc, List.append_assoc, afterSpace_append hb,
      value?_afterSpace]
    exact hv.read (hr.append ha) steps (by simp at hs; omega)
theorem Items.read {cs : List Char} {xs : List Json} (h : Items cs xs) (rest : List Char)
    (steps : Nat) (hs : cs.length < steps) :
    items? steps (cs ++ ']' :: rest) = some (xs, rest) := by
  obtain ⟨steps, rfl⟩ : ∃ n, steps = n + 1 := ⟨steps - 1, by omega⟩
  match h with
  | .last he =>
    obtain ⟨r, hr, ha⟩ := he.read (numberEnds_cons (by decide : ']' ∈ _) rest) steps (by omega)
    rw [afterSpace_cons (by decide)] at ha
    simp [items?, hr, ha]
  | .more he hi =>
    rw [List.length_append, List.length_cons] at hs
    obtain ⟨r, hr, ha⟩ := he.read (numberEnds_cons (by decide : ',' ∈ _) _) steps (by omega)
    rw [afterSpace_cons (by decide)] at ha
    rw [List.append_assoc, List.cons_append, items?, hr]
    simp [ha, hi.read rest steps (by omega)]
theorem Field.read {cs rest : List Char} {k : String} {v : Json} (h : Field cs k v)
    (hr : NumberEnds rest) (steps : Nat) (hs : cs.length ≤ steps) :
    ∃ r₁ r₂ r₃ r₄, afterSpace (cs ++ rest) = '"' :: r₁ ∧ string? r₁ = some (k, r₂) ∧
      afterSpace r₂ = ':' :: r₃ ∧ value? steps r₃ = some (v, r₄) ∧
      afterSpace r₄ = afterSpace rest := by
  match h with
  | @Field.mk before name after cs _ _ hb hq ha he =>
    obtain ⟨r₄, hr₄, ha₄⟩ := he.read hr steps (by simp at hs; omega)
    obtain ⟨r₁, hr₁, hk⟩ := hq.read (after ++ ':' :: (cs ++ rest))
    refine ⟨r₁, _, cs ++ rest, r₄, ?_, hk, ?_, hr₄, ha₄⟩
    · simp only [List.append_assoc, List.cons_append, afterSpace_append hb]
      rw [hr₁, afterSpace_cons (by decide)]
    · rw [afterSpace_append ha, afterSpace_cons (by decide)]
theorem Fields.read {cs : List Char} {fs : List (String × Json)} (h : Fields cs fs)
    (rest : List Char) (steps : Nat) (hs : cs.length < steps) :
    fields? steps (cs ++ '\x7d' :: rest) = some (fs, rest) := by
  obtain ⟨steps, rfl⟩ : ∃ n, steps = n + 1 := ⟨steps - 1, by omega⟩
  match h with
  | .last hf =>
    obtain ⟨r₁, r₂, r₃, r₄, hr₁, hk, hr₂, hv, ha⟩ :=
      hf.read (numberEnds_cons (by decide : '\x7d' ∈ _) rest) steps (by omega)
    rw [afterSpace_cons (by decide)] at ha
    simp [fields?, hr₁, hk, hr₂, hv, ha]
  | .more hf hfs =>
    rw [List.length_append, List.length_cons] at hs
    obtain ⟨r₁, r₂, r₃, r₄, hr₁, hk, hr₂, hv, ha⟩ :=
      hf.read (numberEnds_cons (by decide : ',' ∈ _) _) steps (by omega)
    rw [afterSpace_cons (by decide)] at ha
    rw [List.append_assoc, List.cons_append, fields?, hr₁]
    simp [hk, hr₂, hv, ha, hfs.read rest steps (by omega)]
end

end Grammar

theorem parse?_of_document {text : String} {j : Json} (h : Grammar.Document text j) :
    parse? text = some j := by
  have hn : Grammar.NumberEnds [] := fun c hc => by cases hc
  obtain ⟨r, hr, ha⟩ := Grammar.Element.read h hn (text.toList.length + 1) (Nat.le_succ _)
  rw [List.append_nil] at hr
  rw [parse?, hr]
  have he : (afterSpace r).isEmpty = true := by rw [ha]; rfl
  simp [he]

end ComponentSurvey.Json
