import Mathlib.Data.List.Flatten
import ComponentSurvey.Proofs.Text.Decoding
import ComponentSurvey.Proofs.Text.Excerpt
import ComponentSurvey.Signature

/-!
String literals. Between the quotes of a literal stand fragments and escapes. A literal with a fragment
is read as its fragments alone, so its escapes are lost; one without is read as its text without the
quote characters at both ends, so quote characters that belong to it are lost.
-/

set_option autoImplicit false

namespace ComponentSurvey

namespace Source

variable (source : Source) {a b c : Nat}

theorem slice_append (hab : a ≤ b) (hbc : b ≤ c) :
    source.slice ⟨a, b⟩ ++ source.slice ⟨b, c⟩ = source.slice ⟨a, c⟩ := by
  simp only [slice, ← Array.toList_append, Array.extract_append_extract, Nat.min_eq_left hab,
    Nat.max_eq_right hbc]

theorem slice_self (a : Nat) : source.slice ⟨a, a⟩ = [] := by simp [slice]

theorem slice_succ {byte : UInt8} (h : source.bytes[a]? = some byte) :
    source.slice ⟨a, a + 1⟩ = [byte] := by
  obtain ⟨ha, rfl⟩ := Array.getElem?_eq_some_iff.1 h
  rw [slice_eq, List.drop_take, Nat.add_sub_cancel_left, ← Array.getElem_toList,
    List.drop_eq_getElem_cons (by simpa using ha), List.take_succ_cons, List.take_zero]

end Source

theorem flatMap_filter_eq_iff {α β : Type} (p : α → Bool) (f : α → List β) (xs : List α) :
    (xs.filter p).flatMap f = xs.flatMap f ↔ ∀ x ∈ xs, p x = false → f x = [] := by
  induction xs with
  | nil => simp
  | cons x xs ih =>
    rw [List.forall_mem_cons, ← ih, List.flatMap_cons]
    by_cases hx : p x
    · simp [hx]
    · have hle : ((xs.filter p).flatMap f).length ≤ (xs.flatMap f).length :=
        (List.filter_sublist.flatMap f).length_le
      rw [List.filter_cons_of_neg hx]
      constructor
      · intro h
        have hlength := congrArg List.length h
        rw [List.length_append] at hlength
        have hnil : f x = [] := List.eq_nil_of_length_eq_zero (by omega)
        exact ⟨fun _ => hnil, by simpa [hnil] using h⟩
      · rintro ⟨hnil, hxs⟩
        rw [hnil (by simpa using hx), hxs, List.nil_append]

namespace Text

def isQuote (c : Char) : Bool := c == '\'' || c == '"' || c == '\x60'

theorem toList_unquoted (s : String) : (unquoted s).toList = stripped isQuote s.toList :=
  String.toList_ofList

end Text

namespace Tree

/-- The trees follow one another from the first offset to the second, and leave nothing out. -/
def Tiled : Nat → List Tree → Nat → Prop
  | start, [], stop => start = stop
  | start, t :: ts, stop =>
    t.span.start = start ∧ start ≤ t.span.stop ∧ Tiled t.span.stop ts stop

def fragments (t : Tree) : List Tree := t.namedChildren.filter (·.type == "string_fragment")

def literalParts (t : Tree) : List Tree :=
  t.namedChildren.filter fun c => c.type == "string_fragment" || c.type == "escape_sequence"

def between (source : Source) (t : Tree) : String :=
  source.text ⟨t.span.start + 1, t.span.stop - 1⟩

/-- A string literal: a quote character at each end, and its parts in between. No part begins inside a
character. -/
structure IsLiteral (source : Source) (quote : UInt8) (t : Tree) : Prop where
  quote_mem : quote ∈ ([0x22, 0x27, 0x60] : List UInt8)
  first : source.bytes[t.span.start]? = some quote
  last : source.bytes[t.span.stop - 1]? = some quote
  tiled : Tiled (t.span.start + 1) t.literalParts (t.span.stop - 1)
  whole : ∀ part ∈ t.literalParts, ∀ b ∈ (source.slice part.span).head?,
    Utf8.isContinuation b = false

/-- A literal that the rules for reading it do justice: no escape beside a fragment, and without
fragments no further quote character beside the quotes. -/
structure IsReadWhole (source : Source) (t : Tree) : Prop where
  no_escape : t.fragments ≠ [] →
    ∀ part ∈ t.literalParts, part.type = "escape_sequence" → part.text source = ""
  no_quote : t.fragments = [] →
    (∀ c ∈ (t.between source).toList.head?, Text.isQuote c = false) ∧
      ∀ c ∈ (t.between source).toList.getLast?, Text.isQuote c = false

variable {source : Source} {t : Tree}

theorem Tiled.slice_eq (source : Source) {start stop : Nat} {ts : List Tree} (h : Tiled start ts stop) :
    start ≤ stop ∧
      source.slice ⟨start, stop⟩ = (ts.map fun t => source.slice t.span).flatten := by
  induction ts generalizing start with
  | nil =>
    obtain rfl : start = stop := h
    exact ⟨Nat.le_refl _, source.slice_self start⟩
  | cons t ts ih =>
    obtain ⟨rfl, hle, hts⟩ := h
    obtain ⟨hstop, hslice⟩ := ih hts
    refine ⟨Nat.le_trans hle hstop, ?_⟩
    rw [List.map_cons, List.flatten_cons, ← hslice, source.slice_append hle hstop]

theorem fragments_eq (t : Tree) :
    t.fragments = t.literalParts.filter (·.type == "string_fragment") := by
  rw [fragments, literalParts, List.filter_filter]
  refine List.filter_congr fun c _ => ?_
  cases c.type == "string_fragment" <;> rfl

theorem stringValue_of_fragments (h : t.fragments ≠ []) :
    stringValue source (some t) = String.join (t.fragments.map (text source)) :=
  if_neg (by rwa [List.isEmpty_iff])

theorem stringValue_of_no_fragments (h : t.fragments = []) :
    stringValue source (some t) = Text.unquoted (t.text source) :=
  if_pos (List.isEmpty_iff.2 h)

namespace IsLiteral

variable {quote : UInt8} (h : t.IsLiteral source quote)
include h

theorem between_eq : t.between source = String.join (t.literalParts.map (text source)) := by
  rw [between, Source.text, (h.tiled.slice_eq source).2, Utf8.decode_flatten, List.map_map]
  · rfl
  · intro piece hpiece
    obtain ⟨part, hpart, rfl⟩ := List.mem_map.1 hpiece
    exact h.whole part hpart

theorem slice_eq : source.slice t.span =
    quote :: source.slice ⟨t.span.start + 1, t.span.stop - 1⟩ ++ [quote] := by
  have hle := (h.tiled.slice_eq source).1
  have hstop : t.span.stop - 1 + 1 = t.span.stop := by omega
  have hlast := source.slice_succ h.last
  rw [hstop] at hlast
  rw [← source.slice_append (Nat.le_succ t.span.start) (by omega),
    ← source.slice_append hle (Nat.sub_le _ 1), source.slice_succ h.first, hlast]
  rfl

theorem quote_ascii : quote < 0x80 ∧ Utf8.isContinuation quote = false ∧
    Text.isQuote (Char.ofNat quote.toNat) := by
  have hq := h.quote_mem
  simp only [List.mem_cons, List.not_mem_nil, or_false] at hq
  rcases hq with rfl | rfl | rfl <;> decide

/-- The text of a literal is what stands between its quotes, between its quotes. -/
theorem toList_text : (t.text source).toList = Char.ofNat quote.toNat ::
    (t.between source).toList ++ [Char.ofNat quote.toNat] := by
  obtain ⟨hascii, hcontinuation, -⟩ := h.quote_ascii
  have hread : Utf8.read none [quote] = [Char.ofNat quote.toNat] := by
    rw [Utf8.read, if_pos hascii, Utf8.read]
  -- No quote character goes on with a character, so what stands before the last one ends there.
  rw [text, Source.text, Utf8.decode, String.toList_ofList, h.slice_eq, List.cons_append, Utf8.read,
    if_pos hascii, Utf8.read_append (by simp) _ (by simpa using hcontinuation), hread, between,
    Source.text, Utf8.decode, String.toList_ofList, List.cons_append]

theorem unquoted_text : Text.unquoted (t.text source) = Text.unquoted (t.between source) := by
  obtain ⟨-, -, hquote⟩ := h.quote_ascii
  rw [← String.toList_inj, Text.toList_unquoted, Text.toList_unquoted, h.toList_text,
    Text.stripped_concat hquote, Text.stripped_cons hquote]

theorem join_fragments_eq_iff :
    String.join (t.fragments.map (text source)) = t.between source ↔
      ∀ part ∈ t.literalParts, part.type = "escape_sequence" → part.text source = "" := by
  rw [h.between_eq, ← String.toList_inj, String.toList_join, String.toList_join, List.flatMap_map,
    List.flatMap_map, fragments_eq, flatMap_filter_eq_iff]
  refine forall₂_congr fun part hpart => ?_
  have htype : part.type = "string_fragment" ∨ part.type = "escape_sequence" := by
    simpa using (List.mem_filter.1 hpart).2
  rw [String.toList_eq_nil_iff]
  rcases htype with ht | ht <;> simp [ht]

theorem stringValue_eq_between_iff :
    stringValue source (some t) = t.between source ↔ t.IsReadWhole source := by
  by_cases hf : t.fragments = []
  · rw [stringValue_of_no_fragments hf, h.unquoted_text, ← String.toList_inj, Text.toList_unquoted,
      Text.stripped_eq_self_iff]
    exact ⟨fun hq => ⟨fun hne => absurd hf hne, fun _ => hq⟩, fun hw => hw.no_quote hf⟩
  · rw [stringValue_of_fragments hf, h.join_fragments_eq_iff]
    exact ⟨fun he => ⟨fun _ => he, fun hnil => absurd hnil hf⟩, fun hw => hw.no_escape hf⟩

end IsLiteral

/-- The value of a literal is the text between its quotes when it has no escape beside a fragment and,
without fragments, no quote character at an end of this text; and only then. In general it is the text
without its escapes or, without fragments, without the quote characters at its ends. Of literals that
are read whole no two with the same quotes have the same value. -/
theorem literal_read_whole_iff (source : Source) {quote : UInt8} {t : Tree}
    (h : t.IsLiteral source quote) :
    (stringValue source (some t) = t.between source ↔ t.IsReadWhole source) ∧
      t.between source = String.join (t.literalParts.map (text source)) ∧
      (t.fragments ≠ [] →
        stringValue source (some t) = String.join (t.fragments.map (text source))) ∧
      (t.fragments = [] → stringValue source (some t) = Text.unquoted (t.between source)) ∧
      ∀ (source' : Source) (t' : Tree), t'.IsLiteral source' quote → t.IsReadWhole source →
        t'.IsReadWhole source' → stringValue source (some t) = stringValue source' (some t') →
          t.text source = t'.text source' := by
  refine ⟨h.stringValue_eq_between_iff, h.between_eq, stringValue_of_fragments, fun hf => ?_,
    fun source' t' h' hw hw' hvalue => ?_⟩
  · rw [stringValue_of_no_fragments hf, h.unquoted_text]
  · have hbetween : t.between source = t'.between source' := by
      rw [← h.stringValue_eq_between_iff.2 hw, hvalue, h'.stringValue_eq_between_iff.2 hw']
    rw [← String.toList_inj, h.toList_text, h'.toList_text, hbetween]

def literalOf (parts : List Tree) (stop : Nat) : Tree :=
  .node ⟨"string", true, false, ⟨0, stop⟩, []⟩ parts

def literalPart (type : String) (start stop : Nat) : Tree :=
  .node ⟨type, true, false, ⟨start, stop⟩, []⟩ []

theorem literal_read_whole_of_escape :
    let source := Source.ofBytes "'\\n'".toUTF8.toList
    let t := literalOf [literalPart "escape_sequence" 1 3] 4
    t.IsLiteral source 0x27 ∧ stringValue source (some t) = t.between source ∧
      t.between source = "\\n" := by
  intro source t
  have h : t.IsLiteral source 0x27 := ⟨by decide, by decide +kernel, by decide +kernel,
    ⟨rfl, by decide, rfl⟩, by decide +kernel⟩
  have hbetween : t.between source = "\\n" := by decide +kernel
  have hw : t.IsReadWhole source :=
    ⟨fun hf => absurd rfl hf, fun _ => by rw [hbetween]; simp [Text.isQuote]⟩
  exact ⟨h, (literal_read_whole_iff source h).1.2 hw, hbetween⟩

/-- Two literals with the same quotes and different texts, and one value. -/
theorem literal_read_without_escape :
    let source := Source.ofBytes "'a\\nb'".toUTF8.toList
    let source' := Source.ofBytes "'ab'".toUTF8.toList
    let t := literalOf [literalPart "string_fragment" 1 2, literalPart "escape_sequence" 2 4,
      literalPart "string_fragment" 4 5] 6
    let t' := literalOf [literalPart "string_fragment" 1 3] 4
    t.IsLiteral source 0x27 ∧ t'.IsLiteral source' 0x27 ∧ t.between source = "a\\nb" ∧
      stringValue source (some t) = "ab" ∧ stringValue source' (some t') = "ab" := by
  intro source source' t t'
  refine ⟨⟨by decide, by decide +kernel, by decide +kernel, ?_, by decide +kernel⟩,
    ⟨by decide, by decide +kernel, by decide +kernel, ⟨rfl, by decide, rfl⟩, by decide +kernel⟩,
    by decide +kernel, by decide +kernel, by decide +kernel⟩
  exact ⟨rfl, by decide, rfl, by decide, rfl, by decide, rfl⟩

end Tree

end ComponentSurvey
