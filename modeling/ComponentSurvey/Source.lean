import ComponentSurvey.Tree
import ComponentSurvey.Text.Utf8

/-!
Source texts as bytes, and the places in them. Lines and columns count from one; a column counts
bytes, not characters. A source knows the place of each of its offsets. Main statements: the row of
an offset is the number of line ends before it, its column the number of bytes since the last one.
-/

set_option autoImplicit false

namespace ComponentSurvey

structure Location where
  line : Int
  column : Int
  endLine : Int
  endColumn : Int
  deriving DecidableEq, Repr, Inhabited

structure Place where
  row : Nat
  column : Nat
  deriving DecidableEq, Repr, Inhabited

namespace Place

def newline : UInt8 := 10

def start : Place := ⟨0, 0⟩

def next (p : Place) (b : UInt8) : Place :=
  if b == newline then ⟨p.row + 1, 0⟩ else ⟨p.row, p.column + 1⟩

def after (p : Place) (bs : List UInt8) : Place := bs.foldl next p

def collect : List UInt8 → Place → Array Place → Array Place
  | [], p, listed => listed.push p
  | b :: bs, p, listed => collect bs (p.next b) (listed.push p)

theorem collect_toList (bs : List UInt8) (p : Place) (listed : Array Place) :
    (collect bs p listed).toList =
      listed.toList ++ (List.range (bs.length + 1)).map fun i => p.after (bs.take i) := by
  induction bs generalizing p listed with
  | nil => simp [collect, after]
  | cons b bs ih =>
    rw [collect, ih, List.length_cons, List.range_succ_eq_map (n := bs.length + 1)]
    simp [after, Function.comp_def]

theorem row_after (p : Place) (bs : List UInt8) :
    (p.after bs).row = p.row + bs.count newline := by
  induction bs generalizing p with
  | nil => simp [after]
  | cons b bs ih =>
    have h := ih (p.next b)
    simp only [after, List.foldl_cons] at h ⊢
    rw [h, List.count_cons]
    by_cases hb : b == newline
    · simp [next, hb]
      omega
    · simp [next, hb]

theorem column_after (bs : List UInt8) :
    (start.after bs).column = (bs.reverse.takeWhile (· != newline)).length := by
  have step : ∀ cs : List UInt8,
      (start.after cs.reverse).column = (cs.takeWhile (· != newline)).length := by
    intro cs
    induction cs with
    | nil => rfl
    | cons b cs ih =>
      have h : start.after (b :: cs).reverse = (start.after cs.reverse).next b := by
        rw [List.reverse_cons, after, List.foldl_append]
        rfl
      rw [h]
      by_cases hb : b == newline
      · simp [next, hb, bne]
      · simp [next, hb, bne, ih]
  have h := step bs.reverse
  rwa [List.reverse_reverse] at h

end Place

/-- A source text. Its places follow from its bytes. -/
structure Source where
  bytes : Array UInt8
  places : Array Place
  places_eq : places = Place.collect bytes.toList .start #[]

namespace Source

def ofBytes (bs : List UInt8) : Source := ⟨bs.toArray, Place.collect bs .start #[], by simp⟩

/-- Place of an offset. Beyond the end of the source it is the place of the end. -/
def place (s : Source) (offset : Nat) : Place :=
  (s.places[offset]?).getD (s.places.back?.getD .start)

theorem places_toList (s : Source) :
    s.places.toList = (List.range (s.bytes.size + 1)).map fun i =>
      Place.start.after (s.bytes.toList.take i) := by
  rw [s.places_eq, Place.collect_toList]
  simp

theorem back?_places (s : Source) :
    s.places.back? = some (Place.start.after s.bytes.toList) := by
  rw [← Array.getLast?_toList, places_toList, List.range_succ, List.map_append,
    List.map_singleton, List.getLast?_concat, List.take_of_length_le (by simp)]

theorem place_eq (s : Source) (offset : Nat) :
    s.place offset = Place.start.after (s.bytes.toList.take offset) := by
  rw [place, back?_places, ← Array.getElem?_toList, places_toList, List.getElem?_map]
  by_cases ho : offset < s.bytes.size + 1
  · rw [List.getElem?_range ho]
    rfl
  · rw [List.getElem?_eq_none (by simpa using ho), List.take_of_length_le (by simp; omega)]
    rfl

def row (s : Source) (offset : Nat) : Nat := (s.place offset).row

def column (s : Source) (offset : Nat) : Nat := (s.place offset).column

/-- The row is the number of lines that end before the offset. -/
theorem row_eq (s : Source) (offset : Nat) :
    s.row offset = (s.bytes.toList.take offset).count Place.newline := by
  rw [row, place_eq, Place.row_after]
  simp [Place.start]

/-- The column is the number of bytes since the last line end before the offset. -/
theorem column_eq (s : Source) (offset : Nat) :
    s.column offset =
      ((s.bytes.toList.take offset).reverse.takeWhile (· != Place.newline)).length := by
  rw [column, place_eq, Place.column_after]

def location (s : Source) (span : Span) : Location where
  line := s.row span.start + 1
  column := s.column span.start + 1
  endLine := s.row span.stop + 1
  endColumn := s.column span.stop + 1

def slice (s : Source) (span : Span) : List UInt8 :=
  (s.bytes.extract span.start span.stop).toList

theorem slice_eq (s : Source) (span : Span) :
    s.slice span = (s.bytes.toList.take span.stop).drop span.start := by
  rw [slice, Array.toList_extract, List.extract_eq_take_drop, List.drop_take]

/-- Text of a span; bytes that are no part of a character are left out. -/
def text (s : Source) (span : Span) : String := Utf8.decode (s.slice span)

def lineCount (s : Source) : Nat := s.bytes.toList.count Place.newline + 1

end Source

namespace Tree

def text (source : Source) (t : Tree) : String := source.text t.span

def location (source : Source) (t : Tree) : Location := source.location t.span

def textOf (source : Source) : Option Tree → String
  | none => ""
  | some t => t.text source

end Tree

end ComponentSurvey
