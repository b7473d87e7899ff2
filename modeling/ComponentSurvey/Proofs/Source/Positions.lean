import ComponentSurvey.Source
import Mathlib.Algebra.Order.Ring.Int
import Mathlib.Data.Prod.Lex

/-!
Order of the places in a source. Each byte leads to a later place, so up to the end of the source
line and column tell the offset, and beyond it they stay where they are.
-/

set_option autoImplicit false

namespace ComponentSurvey

namespace Place

def position (p : Place) : Int ×ₗ Int := toLex ((p.row : Int) + 1, (p.column : Int) + 1)

theorem position_lt_next (p : Place) (b : UInt8) : p.position < (p.next b).position := by
  rw [position, position, Prod.Lex.toLex_lt_toLex, next]
  split
  · exact .inl (by simp)
  · exact .inr ⟨rfl, by simp⟩

end Place

namespace Location

def start (l : Location) : Int ×ₗ Int := toLex (l.line, l.column)

def stop (l : Location) : Int ×ₗ Int := toLex (l.endLine, l.endColumn)

structure Within (lines : Int) (l : Location) : Prop where
  line_pos : 1 ≤ l.line
  column_pos : 1 ≤ l.column
  start_le_stop : l.start ≤ l.stop
  endLine_le : l.endLine ≤ lines

end Location

namespace Source

variable {s : Source} {i j : Nat} {a b : Span}

def position (s : Source) (offset : Nat) : Int ×ₗ Int := (s.place offset).position

theorem start_location (s : Source) (a : Span) : (s.location a).start = s.position a.start := rfl

theorem stop_location (s : Source) (a : Span) : (s.location a).stop = s.position a.stop := rfl

theorem place_succ (h : i < s.bytes.size) : s.place (i + 1) = (s.place i).next s.bytes[i] := by
  rw [place_eq, place_eq, List.take_succ_eq_append_getElem (by simpa using h), Place.after,
    List.foldl_append, Place.after, Array.getElem_toList]
  rfl

theorem place_beyond (h : s.bytes.size ≤ i) : s.place i = s.place s.bytes.size := by
  rw [place_eq, place_eq, List.take_of_length_le (by simpa using h),
    List.take_of_length_le (by simp)]

theorem position_lt_succ (h : i < s.bytes.size) : s.position i < s.position (i + 1) := by
  rw [position, position, place_succ h]
  exact Place.position_lt_next _ _

/-- Up to the end of the source, later offsets have later positions. -/
theorem position_lt (h : i < j) (hj : j ≤ s.bytes.size) : s.position i < s.position j := by
  induction j, h using Nat.le_induction with
  | base => exact position_lt_succ hj
  | succ j _ ih => exact (ih (by omega)).trans (position_lt_succ hj)

theorem position_le (h : i ≤ j) : s.position i ≤ s.position j := by
  rcases h.eq_or_lt with rfl | hlt
  · exact le_rfl
  -- Beyond the end of the source every offset has the position of the end.
  rcases le_total j s.bytes.size with hj | hj
  · exact (position_lt hlt hj).le
  rcases lt_or_ge i s.bytes.size with hi | hi
  · rw [position, position, place_beyond hj]
    exact (position_lt hi le_rfl).le
  · rw [position, position, place_beyond hi, place_beyond hj]

theorem position_inj (hi : i ≤ s.bytes.size) (hj : j ≤ s.bytes.size)
    (h : s.position i = s.position j) : i = j := by
  rcases lt_trichotomy i j with hlt | heq | hlt
  · exact absurd h (position_lt hlt hj).ne
  · exact heq
  · exact absurd h (position_lt hlt hi).ne'

theorem row_lt_lineCount (s : Source) (i : Nat) : s.row i < s.lineCount := by
  rw [row_eq, lineCount, Nat.lt_succ_iff]
  exact (List.take_sublist i _).count_le _

theorem within_location (s : Source) (h : a.start ≤ a.stop) :
    (s.location a).Within s.lineCount where
  line_pos := by simp [location]
  column_pos := by simp [location]
  start_le_stop := by
    rw [start_location, stop_location]
    exact position_le h
  endLine_le := by
    have hr := s.row_lt_lineCount a.stop
    simp only [location]
    omega

/-- Inside a source, a location tells its span. -/
theorem span_eq_of_location_eq (ha : a.start ≤ a.stop ∧ a.stop ≤ s.bytes.size)
    (hb : b.start ≤ b.stop ∧ b.stop ≤ s.bytes.size) (h : s.location a = s.location b) : a = b := by
  have hstart : s.position a.start = s.position b.start := by
    rw [← start_location, h, start_location]
  have hstop : s.position a.stop = s.position b.stop := by
    rw [← stop_location, h, stop_location]
  obtain ⟨start, stop⟩ := a
  obtain ⟨start', stop'⟩ := b
  rw [Span.mk.injEq]
  exact ⟨position_inj (ha.1.trans ha.2) (hb.1.trans hb.2) hstart, position_inj ha.2 hb.2 hstop⟩

end Source

end ComponentSurvey
