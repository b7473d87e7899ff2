import Mathlib.Data.List.Infix
import ComponentSurvey.Proofs.Text.Characters
import ComponentSurvey.Source

/-!
Lenient reading as a relation between bytes and characters that knows only the bytes of characters.
Where a character stands, it is read; elsewhere as many bytes are left out as one could begin with.
Main statements: the relation allows one text for any bytes, and the reader gives it; the bytes of
that text are some of those read, and all of them only when these are the bytes of a text.
-/

set_option autoImplicit false

namespace ComponentSurvey

namespace Utf8

variable {b : UInt8} {p q bs bs' : List UInt8} {c c' : Char} {cs cs' : List Char} {s : Begun}

/-- Bytes to be left out before `rest`. No character stands there, and they are either as many as one
could begin with or a single byte with which none begins. -/
structure IsBroken (p rest : List UInt8) : Prop where
  ne_nil : p ≠ []
  no_character : ∀ c, ¬ encodeChar c <+: p ++ rest
  begins : 1 < p.length → Begins p
  maximal : ∀ b ∈ rest.head?, ¬ Begins (p ++ [b])

/-- The characters in some bytes, without what is broken. -/
inductive Reads : List UInt8 → List Char → Prop
  | nil : Reads [] []
  | char {bs : List UInt8} {cs : List Char} (c : Char) (rest : Reads bs cs) :
      Reads (encodeChar c ++ bs) (c :: cs)
  | broken {p bs : List UInt8} {cs : List Char} (broken : IsBroken p bs) (rest : Reads bs cs) :
      Reads (p ++ bs) cs

/-- The bytes of no character begin with those of another one. -/
theorem eq_of_encodeChar_append (h : encodeChar c ++ bs = encodeChar c' ++ bs') : c = c' := by
  have hd := congrArg (fun l : List UInt8 => l.toByteArray.utf8DecodeChar? 0) h
  simp only [encodeChar, List.toByteArray_append, ByteArray.utf8DecodeChar?_utf8EncodeChar_append,
    Option.some.injEq] at hd
  exact hd

theorem Begins.of_append (h : Begins (p ++ q)) : Begins p :=
  h.imp fun _ => (List.prefix_append p q).trans

theorem IsBroken.eq_nil_of_append (hp : IsBroken p (q ++ bs)) (hq : IsBroken (p ++ q) bs) :
    q = [] := by
  cases q with
  | nil => rfl
  | cons b q =>
    have hlong : 1 < (p ++ b :: q).length := by
      have := List.length_pos_iff.2 hp.ne_nil
      simp only [List.length_append, List.length_cons]
      omega
    have hbegins := hq.begins hlong
    rw [List.append_cons] at hbegins
    exact absurd hbegins.of_append (hp.maximal b rfl)

theorem IsBroken.unique (hp : IsBroken p bs) (hq : IsBroken q bs') (h : p ++ bs = q ++ bs') :
    p = q ∧ bs = bs' := by
  obtain ⟨r, rfl, rfl⟩ | ⟨r, rfl, rfl⟩ := List.append_eq_append_iff.1 h
  · cases hp.eq_nil_of_append hq
    simp
  · cases hq.eq_nil_of_append hp
    simp

theorem Reads.of_nil (h : Reads [] cs) : cs = [] := by
  generalize hx : ([] : List UInt8) = x at h
  cases h with
  | nil => rfl
  | char c h => exact absurd (List.append_eq_nil_iff.1 hx.symm).1 String.utf8EncodeChar_ne_nil
  | broken hp h => exact absurd (List.append_eq_nil_iff.1 hx.symm).1 hp.ne_nil

theorem Reads.of_char (h : Reads (encodeChar c ++ bs) cs) : ∃ cs', cs = c :: cs' ∧ Reads bs cs' := by
  generalize hx : encodeChar c ++ bs = x at h
  cases h with
  | nil => exact absurd (List.append_eq_nil_iff.1 hx).1 String.utf8EncodeChar_ne_nil
  | char c' h =>
    cases eq_of_encodeChar_append hx
    cases List.append_cancel_left hx
    exact ⟨_, rfl, h⟩
  | broken hp h => exact absurd ⟨bs, hx⟩ (hp.no_character c)

theorem Reads.of_broken (hp : IsBroken p bs) (h : Reads (p ++ bs) cs) : Reads bs cs := by
  generalize hx : p ++ bs = x at h
  cases h with
  | nil => exact absurd (List.append_eq_nil_iff.1 hx).1 hp.ne_nil
  | char c h => exact absurd ⟨_, hx.symm⟩ (hp.no_character c)
  | broken hq h =>
    obtain ⟨-, rfl⟩ := hp.unique hq hx
    exact h

theorem Reads.unique (h : Reads bs cs) (h' : Reads bs cs') : cs = cs' := by
  induction h generalizing cs' with
  | nil => exact h'.of_nil.symm
  | char c h ih =>
    obtain ⟨ds, rfl, hds⟩ := h'.of_char
    rw [ih hds]
  | broken hp h ih => exact ih (h'.of_broken hp)

theorem encodeChar_ofNat_of_lt (h : b < 0x80) : encodeChar (Char.ofNat b.toNat) = [b] := by
  have hb : b.toNat < 128 := UInt8.lt_iff_toNat_lt.1 h
  have hc : (Char.ofNat b.toNat).toNat = b.toNat := toNat_ofNat (.inl (by omega))
  rw [encodeChar_ascii (by rwa [hc]), hc, UInt8.ofNat_toNat]

/-- A byte that is no character and begins none is left out alone. -/
theorem isBroken_of_begun? (h : begun? b = none) (hb : ¬ b < 0x80) : IsBroken [b] bs := by
  have hlead (c : Char) : lead c.toNat ≠ b := by
    rintro rfl
    obtain ⟨s, hs, -⟩ := begun?_lead c.valid hb
    cases h.symm.trans hs
  have hhead {c : Char} {p q : List UInt8} (hc : encodeChar c ++ p = b :: q) : False := by
    rw [encodeChar_eq] at hc
    exact hlead c (List.cons.inj hc).1
  refine ⟨by simp, fun c hc => ?_, by simp, fun a _ ha => ?_⟩
  · obtain ⟨q, hq⟩ := hc
    exact hhead hq
  · obtain ⟨c, q, hq⟩ := ha
    exact hhead (p := []) (by simpa using hq.symm)

/-- The bytes of a begun character, before one that does not fit or at the end. -/
theorem Begun.Spells.isBroken (hs : s.Spells p) (h : ∀ b ∈ bs.head?, ¬ s.Fits b) :
    IsBroken p bs where
  ne_nil := hs.ne_nil
  begins _ := hs.begins
  maximal b hb hbegins := h b hb (hs.begins_iff.1 hbegins)
  no_character c hc := by
    -- The begun character is not at its end, so one that stands there would go on with a byte behind.
    have hp : p <+: encodeChar c := by
      rcases List.prefix_or_prefix_of_prefix hc (List.prefix_append p bs) with hcp | hpc
      · obtain ⟨d, q, hd⟩ := hs.begins
        obtain ⟨r, hr⟩ := hcp
        have hcd : encodeChar c ++ (r ++ q) = encodeChar d ++ [] := by
          rw [← List.append_assoc, hr, hd, List.append_nil]
        cases eq_of_encodeChar_append hcd
        exact ⟨q, hd⟩
      · exact hpc
    obtain ⟨rest, hrest⟩ := hp
    rw [← hrest, List.prefix_append_right_inj] at hc
    cases rest with
    | nil => exact hs.ne_encodeChar c (by simpa using hrest.symm)
    | cons b rest =>
      obtain ⟨q, rfl⟩ := hc
      exact h b rfl (hs.begins_iff.1 ⟨c, rest, by simpa using hrest⟩)

def Holds : Option Begun → List UInt8 → Prop
  | none, p => p = []
  | some s, p => s.Spells p

theorem reads_begun? (hb : ¬ b < 0x80)
    (ih : ∀ p, Holds (begun? b) p → Reads (p ++ bs) (read (begun? b) bs)) :
    Reads (b :: bs) (read (begun? b) bs) := by
  cases h : begun? b with
  | none =>
    rw [h] at ih
    exact Reads.broken (isBroken_of_begun? h hb) (ih [] rfl)
  | some s =>
    rw [h] at ih
    exact ih [b] (spells_of_begun? h)

theorem reads_ascii (hb : b < 0x80) (h : Reads bs cs) :
    Reads (b :: bs) (Char.ofNat b.toNat :: cs) := by
  have h' := Reads.char (Char.ofNat b.toNat) h
  rwa [encodeChar_ofNat_of_lt hb] at h'

/-- What is still read in a state is the text of all the bytes, those of the state included. -/
theorem reads_read (state : Option Begun) (bs : List UInt8) :
    ∀ p, Holds state p → Reads (p ++ bs) (read state bs) := by
  fun_induction read state bs with
  | case1 state =>
    intro p h
    cases state with
    | none =>
      cases h
      exact .nil
    | some s => exact .broken (Begun.Spells.isBroken h (by simp)) .nil
  | case2 b bs hb ih =>
    rintro _ rfl
    exact reads_ascii hb (ih [] rfl)
  | case3 b bs hb ih =>
    rintro _ rfl
    exact reads_begun? hb ih
  | case4 s b bs hfits bits hlast ih =>
    intro p h
    have hc := Reads.char (Char.ofNat (s.bitsWith b)) (ih [] rfl)
    rwa [Begun.Spells.last h hfits hlast, List.append_assoc] at hc
  | case5 s b bs hfits bits hlast ih =>
    intro p h
    have hnext := ih (p ++ [b]) (Begun.Spells.next h hfits hlast)
    rwa [List.append_assoc] at hnext
  | case6 s b bs hfits hb ih =>
    intro p h
    refine .broken (Begun.Spells.isBroken h ?_) (reads_ascii hb (ih [] rfl))
    rintro _ ⟨⟩
    exact hfits
  | case7 s b bs hfits hb ih =>
    intro p h
    refine .broken (Begun.Spells.isBroken h ?_) (reads_begun? hb ih)
    rintro _ ⟨⟩
    exact hfits

theorem reads_iff : Reads bs cs ↔ cs = read none bs := by
  have hread : Reads bs (read none bs) := reads_read none bs [] rfl
  constructor
  · intro h
    exact h.unique hread
  · rintro rfl
    exact hread

/-- Of an overlong form, of a surrogate and of a character cut off nothing is read, and what stands
behind each of them is. -/
example : read none [0xC0, 0xAF, 0x41, 0xED, 0xA0, 0x80, 0x42, 0xF0, 0x9F, 0x98, 0xC3, 0xA9] =
    ['A', 'B', 'é'] := by
  decide

theorem Reads.sublist (h : Reads bs cs) : (cs.flatMap encodeChar).Sublist bs := by
  induction h with
  | nil => exact List.Sublist.slnil
  | char c h ih =>
    rw [List.flatMap_cons]
    exact (List.Sublist.refl _).append ih
  | broken hp h ih => exact ih.trans (List.sublist_append_right _ _)

theorem Reads.append (ds : List Char) (h : Reads bs cs) :
    Reads (ds.flatMap encodeChar ++ bs) (ds ++ cs) := by
  induction ds with
  | nil => exact h
  | cons d ds ih =>
    rw [List.flatMap_cons, List.append_assoc]
    exact .char d ih

theorem decode_encode_append (s : String) (bs : List UInt8) :
    decode (encode s ++ bs) = s ++ decode bs := by
  have h := reads_iff.1 (Reads.append s.toList (reads_iff.2 rfl : Reads bs _))
  rw [decode, encode, ← h, String.ofList_append, String.ofList_toList, decode]

theorem decode_encode (s : String) : decode (encode s) = s := by
  have h := decode_encode_append s []
  rwa [List.append_nil, show decode [] = "" from rfl, String.append_empty] at h

theorem encode_decode_sublist (bs : List UInt8) : (encode (decode bs)).Sublist bs := by
  rw [encode, decode, String.toList_ofList]
  exact Reads.sublist (reads_iff.2 rfl)

theorem isValidUTF8_iff : bs.toByteArray.IsValidUTF8 ↔ ∃ s, bs = encode s := by
  constructor
  · rintro ⟨cs, h⟩
    refine ⟨String.ofList cs, ?_⟩
    rw [encode, String.toList_ofList]
    exact List.toByteArray_inj.1 h
  · rintro ⟨s, rfl⟩
    exact ⟨s.toList, rfl⟩

theorem encode_decode_eq_iff : encode (decode bs) = bs ↔ bs.toByteArray.IsValidUTF8 := by
  rw [isValidUTF8_iff]
  constructor
  · intro h
    exact ⟨decode bs, h.symm⟩
  · rintro ⟨s, rfl⟩
    rw [decode_encode]

end Utf8

/-- The text of a node is what lenient reading makes of its bytes. Its own bytes are some of theirs in
their order, and all of them exactly when they are UTF-8; read again, they give the same text. A text
in front of any bytes is read as it is, and the bytes behind it as if they stood alone. -/
theorem Tree.text_read_leniently (source : Source) (t : Tree) :
    (∀ cs, Utf8.Reads (source.slice t.span) cs ↔ cs = (t.text source).toList) ∧
      (Utf8.encode (t.text source)).Sublist (source.slice t.span) ∧
      (Utf8.encode (t.text source) = source.slice t.span ↔
        (source.slice t.span).toByteArray.IsValidUTF8) ∧
      Utf8.decode (Utf8.encode (t.text source)) = t.text source ∧
      ∀ (front : String) (rest : List UInt8),
        Utf8.decode (Utf8.encode front ++ rest) = front ++ Utf8.decode rest := by
  refine ⟨fun cs => ?_, Utf8.encode_decode_sublist _, Utf8.encode_decode_eq_iff,
    Utf8.decode_encode _, Utf8.decode_encode_append⟩
  rw [Utf8.reads_iff, Tree.text, Source.text, Utf8.decode, String.toList_ofList]

end ComponentSurvey
