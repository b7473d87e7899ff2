import ComponentSurvey.Analysis
import Mathlib.Data.List.TakeWhile

/-!
Excerpts of texts. An excerpt is the beginning of the first line of a text without the blanks at its
ends. A line break is a blank, so the first line is empty only when nothing but blanks is there.
-/

set_option autoImplicit false

namespace ComponentSurvey

namespace Text

variable {p : Char → Bool} {cs line : List Char}

structure IsStripped (p : Char → Bool) (cs before kept after : List Char) : Prop where
  eq_append : cs = before ++ kept ++ after
  before_all : ∀ c ∈ before, p c
  after_all : ∀ c ∈ after, p c
  head : ∀ c ∈ kept.head?, p c = false
  last : ∀ c ∈ kept.getLast?, p c = false

theorem head?_dropWhile (p : Char → Bool) (cs : List Char) :
    ∀ c ∈ (cs.dropWhile p).head?, p c = false := by
  intro c hc
  simpa [Option.mem_def.1 hc] using List.head?_dropWhile_not p cs

theorem isStripped_stripped (p : Char → Bool) (cs : List Char) :
    ∃ before after, IsStripped p cs before (stripped p cs) after := by
  have hfront : cs.takeWhile p ++ cs.dropWhile p = cs := List.takeWhile_append_dropWhile
  have hback : stripped p cs ++ ((cs.dropWhile p).reverse.takeWhile p).reverse =
      cs.dropWhile p := by
    rw [stripped, ← List.reverse_append, List.takeWhile_append_dropWhile, List.reverse_reverse]
  refine ⟨cs.takeWhile p, ((cs.dropWhile p).reverse.takeWhile p).reverse, ?_, ?_, ?_, ?_, ?_⟩
  · rw [List.append_assoc, hback, hfront]
  · exact fun c hc => List.mem_takeWhile_imp hc
  · exact fun c hc => List.mem_takeWhile_imp (List.mem_reverse.1 hc)
  · intro c hc
    -- The front of what is left is the front of what remains when only the front is stripped.
    refine head?_dropWhile p cs c ?_
    rw [← hback, List.head?_append, Option.mem_def.1 hc]
    rfl
  · intro c hc
    rw [stripped, List.getLast?_reverse] at hc
    exact head?_dropWhile p _ c hc

theorem stripped_cons {c : Char} (h : p c) (cs : List Char) :
    stripped p (c :: cs) = stripped p cs := by
  rw [stripped, List.dropWhile_cons_of_pos h, stripped]

theorem stripped_concat {c : Char} (h : p c) (cs : List Char) :
    stripped p (cs ++ [c]) = stripped p cs := by
  rw [stripped, List.dropWhile_append, stripped]
  cases hcs : cs.dropWhile p with
  | nil => simp [h]
  | cons d ds => simp [List.dropWhile_cons_of_pos h]

theorem dropWhile_eq_self (h : ∀ c ∈ cs.head?, p c = false) : cs.dropWhile p = cs := by
  cases cs with
  | nil => rfl
  | cons c cs => exact List.dropWhile_cons_of_neg (by simpa using h c rfl)

/-- A text is its own stripped form when it neither begins nor ends with the class. -/
theorem stripped_eq_self_iff : stripped p cs = cs ↔
    (∀ c ∈ cs.head?, p c = false) ∧ ∀ c ∈ cs.getLast?, p c = false := by
  constructor
  · intro h
    obtain ⟨before, after, hs⟩ := isStripped_stripped p cs
    rw [h] at hs
    exact ⟨hs.head, hs.last⟩
  · rintro ⟨hhead, hlast⟩
    rw [← List.head?_reverse] at hlast
    rw [stripped, dropWhile_eq_self hhead, dropWhile_eq_self hlast, List.reverse_reverse]

/-- The text, without the blanks at its ends, goes on after `line` with a line break or not at all. -/
def IsFirstLine (cs line : List Char) : Prop :=
  ∃ before rest after, IsStripped isBlank cs before (line ++ rest) after ∧
    (∀ c ∈ line, isLineBreak c = false) ∧ ∀ c ∈ rest.head?, isLineBreak c

theorem isFirstLine_firstLine (s : String) :
    IsFirstLine s.toList (firstLine (trimmed s)).toList := by
  obtain ⟨before, after, h⟩ := isStripped_stripped isBlank s.toList
  have hl : (firstLine (trimmed s)).toList =
      (stripped isBlank s.toList).takeWhile (!isLineBreak ·) := by
    rw [firstLine, trimmed, String.toList_ofList, String.toList_ofList]
  rw [hl]
  refine ⟨before, (stripped isBlank s.toList).dropWhile (!isLineBreak ·), after, ?_, ?_, ?_⟩
  · rwa [List.takeWhile_append_dropWhile]
  · intro c hc
    simpa using List.mem_takeWhile_imp hc
  · intro c hc
    simpa using head?_dropWhile (!isLineBreak ·) _ c hc

theorem IsFirstLine.eq_nil_iff (h : IsFirstLine cs line) : line = [] ↔ ∀ c ∈ cs, isBlank c := by
  obtain ⟨before, rest, after, hs, -, hrest⟩ := h
  constructor
  · rintro rfl
    have hr : rest = [] := by
      cases rest with
      | nil => rfl
      | cons c rest =>
        have hb : isBlank c := isBlank_of_isLineBreak (hrest c rfl)
        have hn : isBlank c = false := hs.head c rfl
        rw [hb] at hn
        cases hn
    intro c hc
    rw [hs.eq_append, hr, List.append_nil, List.append_nil, List.mem_append] at hc
    exact hc.elim (hs.before_all c) (hs.after_all c)
  · intro hall
    cases line with
    | nil => rfl
    | cons c line =>
      have hn : isBlank c = false := hs.head c rfl
      have hb : isBlank c := hall c (by simp [hs.eq_append])
      rw [hb] at hn
      cases hn

end Text

/-- A snippet is the beginning of a line, with three dots when that is not all of the line. -/
theorem snippet_eq (s : String) :
    let line := (Text.firstLine (Text.trimmed s)).toList
    snippet s = String.ofList (line.take snippetLength) ++
      if snippetLength < line.length then "..." else "" := by
  intro line
  rw [snippet]
  by_cases h : line.length ≤ snippetLength
  · rw [if_pos h, if_neg (Nat.not_lt.2 h), List.take_of_length_le h, String.append_empty]
  · rw [if_neg h, if_pos (Nat.lt_of_not_le h)]

end ComponentSurvey
