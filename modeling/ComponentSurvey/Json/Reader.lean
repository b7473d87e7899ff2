import ComponentSurvey.Json

/-!
Reading documents by the standard grammar: no comments, no trailing commas, no leading zeros, and
two surrogate escapes in a row make one character. A surrogate without its partner is refused.
-/

set_option autoImplicit false

namespace ComponentSurvey.Json

def isSpace (c : Char) : Bool := c == ' ' || c == '\t' || c == '\n' || c == '\r'

def afterSpace (cs : List Char) : List Char := cs.dropWhile isSpace

def hexValue? (c : Char) : Option Nat :=
  if '0' ≤ c ∧ c ≤ '9' then some (c.toNat - 48)
  else if 'a' ≤ c ∧ c ≤ 'f' then some (c.toNat - 87)
  else if 'A' ≤ c ∧ c ≤ 'F' then some (c.toNat - 55)
  else none

def hex4? (a b c d : Char) : Option Nat := do
  let a ← hexValue? a
  let b ← hexValue? b
  let c ← hexValue? c
  let d ← hexValue? d
  return ((16 * a + b) * 16 + c) * 16 + d

def shortEscape? : Char → Option Char
  | '"' => some '"'
  | '\\' => some '\\'
  | '/' => some '/'
  | 'b' => some '\x08'
  | 'f' => some '\x0C'
  | 'n' => some '\n'
  | 'r' => some '\r'
  | 't' => some '\t'
  | _ => none

/-- Units of a string up to its closing quote: code points, and 16-bit units where escaped. -/
def stringUnits? : List Char → Option (List Nat × List Char)
  | [] => none
  | '"' :: r => some ([], r)
  | '\\' :: 'u' :: a :: b :: c :: d :: r => do
    let n ← hex4? a b c d
    let (ns, r) ← stringUnits? r
    return (n :: ns, r)
  | '\\' :: c :: r => do
    let c ← shortEscape? c
    let (ns, r) ← stringUnits? r
    return (c.toNat :: ns, r)
  | c :: r =>
    if c.toNat < 0x20 || c == '\\' then none
    else (stringUnits? r).map fun (ns, r) => (c.toNat :: ns, r)

def isHighSurrogate (n : Nat) : Bool := 0xD800 ≤ n && n < 0xDC00

def isLowSurrogate (n : Nat) : Bool := 0xDC00 ≤ n && n < 0xE000

def charsOfUnits? : List Nat → Option (List Char)
  | [] => some []
  | [n] => if isHighSurrogate n || isLowSurrogate n then none else some [Char.ofNat n]
  | m :: n :: r =>
    if isHighSurrogate m then
      if isLowSurrogate n then
        (charsOfUnits? r).map (Char.ofNat (0x10000 + (m - 0xD800) * 0x400 + (n - 0xDC00)) :: ·)
      else none
    else if isLowSurrogate m then none
    else (charsOfUnits? (n :: r)).map (Char.ofNat m :: ·)

def string? (cs : List Char) : Option (String × List Char) := do
  let (units, r) ← stringUnits? cs
  let chars ← charsOfUnits? units
  return (String.ofList chars, r)

def digitsValue (ds : List Char) : Nat := ds.foldl (fun n c => 10 * n + (c.toNat - 48)) 0

def digits? (cs : List Char) : Option (List Char × List Char) :=
  match cs.takeWhile Char.isDigit with
  | [] => none
  | ds => some (ds, cs.dropWhile Char.isDigit)

def signed (cs : List Char) : Bool × List Char :=
  match cs with
  | '-' :: r => (true, r)
  | _ => (false, cs)

def fraction? (cs : List Char) : Option (List Char × List Char) :=
  match cs with
  | '.' :: r => digits? r
  | _ => some ([], cs)

def exponent? (cs : List Char) : Option (Option Int × List Char) :=
  match cs with
  | 'e' :: r | 'E' :: r =>
    let (negative, r) := match r with
      | '-' :: r => (true, r)
      | '+' :: r => (false, r)
      | _ => (false, r)
    (digits? r).map fun (ds, r) =>
      let n : Int := digitsValue ds
      (some (if negative then -n else n), r)
  | _ => some (none, cs)

def number? (cs : List Char) : Option (Number × List Char) := do
  let (negative, r) := signed cs
  let (ds, r) ← digits? r
  if ds.length > 1 && ds.head? == some '0' then none
  let (fs, r) ← fraction? r
  let (e, r) ← exponent? r
  if fs.isEmpty && e.isNone then
    let n : Int := digitsValue ds
    return (.whole (if negative then -n else n), r)
  else
    let x ← Binary64.ofDecimal? negative (digitsValue (ds ++ fs)) (e.getD 0 - fs.length)
    return (.real x, r)

mutual
/-- Reads one value; every nesting or item uses up one step of `steps`. -/
def value? (steps : Nat) (cs : List Char) : Option (Json × List Char) :=
  match steps with
  | 0 => none
  | steps + 1 =>
    match afterSpace cs with
    | 'n' :: 'u' :: 'l' :: 'l' :: r => some (.null, r)
    | 't' :: 'r' :: 'u' :: 'e' :: r => some (.bool true, r)
    | 'f' :: 'a' :: 'l' :: 's' :: 'e' :: r => some (.bool false, r)
    | '"' :: r => (string? r).map fun (s, r) => (.string s, r)
    | '[' :: r =>
      match afterSpace r with
      | ']' :: r => some (.array [], r)
      | r => (items? steps r).map fun (xs, r) => (.array xs, r)
    | '\x7b' :: r =>
      match afterSpace r with
      | '\x7d' :: r => some (.object [], r)
      | r => (fields? steps r).map fun (fs, r) => (.object fs, r)
    | r => (number? r).map fun (n, r) => (.number n, r)

def items? (steps : Nat) (cs : List Char) : Option (List Json × List Char) :=
  match steps with
  | 0 => none
  | steps + 1 => do
    let (x, r) ← value? steps cs
    match afterSpace r with
    | ']' :: r => return ([x], r)
    | ',' :: r => do
      let (xs, r) ← items? steps r
      return (x :: xs, r)
    | _ => none

def fields? (steps : Nat) (cs : List Char) : Option (List (String × Json) × List Char) :=
  match steps with
  | 0 => none
  | steps + 1 =>
    match afterSpace cs with
    | '"' :: r => do
      let (k, r) ← string? r
      match afterSpace r with
      | ':' :: r => do
        let (v, r) ← value? steps r
        match afterSpace r with
        | '\x7d' :: r => return ([(k, v)], r)
        | ',' :: r => do
          let (fs, r) ← fields? steps r
          return ((k, v) :: fs, r)
        | _ => none
      | _ => none
    | _ => none
end

/-- Reads a whole text as one document. A text has fewer nestings and items than characters. -/
def parse? (text : String) : Option Json :=
  let cs := text.toList
  match value? (cs.length + 1) cs with
  | some (j, r) => if (afterSpace r).isEmpty then some j else none
  | none => none

end ComponentSurvey.Json
