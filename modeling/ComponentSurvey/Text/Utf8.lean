/-!
Lenient reading of UTF-8. Bytes that belong to no character are dropped: a byte that can begin or
continue nothing alone, a character that is broken off up to the byte that does not fit.
-/

set_option autoImplicit false

namespace ComponentSurvey.Utf8

/-- A character begun: how many bytes it lacks, the range of the next one, and its bits so far. -/
structure Begun where
  lacking : Nat
  low : UInt8
  high : UInt8
  bits : Nat
  deriving DecidableEq, Repr

/-- What a leading byte begins. The range of the second byte shuts out overlong forms, surrogates
and values beyond the last code point. -/
def begun? (b : UInt8) : Option Begun :=
  if b < 0xC2 then none
  else if b < 0xE0 then some ⟨1, 0x80, 0xBF, b.toNat - 0xC0⟩
  else if b = 0xE0 then some ⟨2, 0xA0, 0xBF, 0⟩
  else if b = 0xED then some ⟨2, 0x80, 0x9F, 0xD⟩
  else if b < 0xF0 then some ⟨2, 0x80, 0xBF, b.toNat - 0xE0⟩
  else if b = 0xF0 then some ⟨3, 0x90, 0xBF, 0⟩
  else if b < 0xF4 then some ⟨3, 0x80, 0xBF, b.toNat - 0xF0⟩
  else if b = 0xF4 then some ⟨3, 0x80, 0x8F, 4⟩
  else none

/-- Reads on after the bytes of `state`; a byte that does not fit ends the character and counts anew. -/
def read : Option Begun → List UInt8 → List Char
  | _, [] => []
  | none, b :: bs => if b < 0x80 then Char.ofNat b.toNat :: read none bs else read (begun? b) bs
  | some s, b :: bs =>
    if s.low ≤ b ∧ b ≤ s.high then
      let bits := 64 * s.bits + (b.toNat - 0x80)
      if s.lacking = 1 then Char.ofNat bits :: read none bs
      else read (some ⟨s.lacking - 1, 0x80, 0xBF, bits⟩) bs
    else if b < 0x80 then Char.ofNat b.toNat :: read none bs
    else read (begun? b) bs

def decode (bs : List UInt8) : String := String.ofList (read none bs)

def encodeChar (c : Char) : List UInt8 := String.utf8EncodeChar c

def encode (s : String) : List UInt8 := s.toList.flatMap encodeChar

theorem encodeChar_ascii {c : Char} (h : c.toNat < 128) : encodeChar c = [UInt8.ofNat c.toNat] :=
  if_pos (Nat.le_of_lt_succ h)

end ComponentSurvey.Utf8
