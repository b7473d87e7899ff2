/-!
Wildcards in names: `*` for any text, `?` for any character, `[...]` for one of a set. A set that
begins with `!` is the complement; a bracket that is never closed stands for itself.
-/

set_option autoImplicit false

namespace ComponentSurvey

inductive Wildcard where
  | anyText
  | anyChar
  | char (c : Char)
  /-- One character inside, or outside, closed ranges. -/
  | set (complement : Bool) (ranges : List (Char × Char))
  deriving DecidableEq, Repr

namespace Wildcard

/-- Inside of a bracket and what follows it. A closing bracket in the first place, or after `!`,
belongs to the set. -/
def bracket? (cs : List Char) : Option (List Char × List Char) :=
  let start := match cs with
    | '!' :: ']' :: _ => 2
    | '!' :: _ => 1
    | ']' :: _ => 1
    | _ => 0
  let tail := cs.drop start
  let inside := tail.takeWhile (· != ']')
  match tail.dropWhile (· != ']') with
  | _ :: rest => some (cs.take start ++ inside, rest)
  | [] => none

/-- A set's text split at the hyphens that make ranges: one that has a character before it and is
not the third character of a range. `skip` characters cannot be such a hyphen. -/
def chunks : Nat → List Char → List Char → List (List Char)
  | _, done, [] => [done.reverse]
  | 0, done, '-' :: cs => done.reverse :: chunks 2 [] cs
  | skip, done, c :: cs => chunks (skip - 1) (c :: done) cs

def closeLast : List (List Char) → List (List Char)
  | [] => []
  | [last] => [last]
  | [c, []] => [c ++ ['-']]
  | c :: cs => c :: closeLast cs

/-- Joins neighbours whose range would run backwards; both its ends are lost. -/
def dropBackward : List (List Char) → List (List Char)
  | [] => []
  | c :: cs =>
    match dropBackward cs with
    | [] => [c]
    | d :: ds =>
      match c.getLast?, d.head? with
      | some low, some high =>
        if high < low then (c.dropLast ++ d.drop 1) :: ds else c :: d :: ds
      | _, _ => c :: d :: ds

inductive Mark where
  | char (c : Char)
  | hyphen
  deriving DecidableEq, Repr

def Mark.toChar : Mark → Char
  | .char c => c
  | .hyphen => '-'

def marks : List (List Char) → List Mark
  | [] => []
  | [c] => c.map .char
  | c :: cs => c.map .char ++ .hyphen :: marks cs

def ranges : List Mark → List (Char × Char)
  | [] => []
  | a :: .hyphen :: b :: ms => (a.toChar, b.toChar) :: ranges ms
  | a :: ms => (a.toChar, a.toChar) :: ranges ms

def ofBracket (inside : List Char) : Wildcard :=
  let skip := if inside.head? == some '!' then 2 else 1
  match marks (dropBackward (closeLast (chunks skip [] inside))) with
  | .char '!' :: ms => .set true (ranges ms)
  | ms => .set false (ranges ms)

def read : Nat → List Char → List Wildcard
  | 0, _ => []
  | _, [] => []
  | steps + 1, '*' :: cs => .anyText :: read steps cs
  | steps + 1, '?' :: cs => .anyChar :: read steps cs
  | steps + 1, '[' :: cs =>
    match bracket? cs with
    | some (inside, rest) => ofBracket inside :: read steps rest
    | none => .char '[' :: read steps cs
  | steps + 1, c :: cs => .char c :: read steps cs

def ofString (s : String) : List Wildcard := read s.toList.length s.toList

def admits (w : Wildcard) (c : Char) : Bool :=
  match w with
  | .anyText => false
  | .anyChar => true
  | .char d => c == d
  | .set complement ranges => ranges.any (fun r => r.1 ≤ c && c ≤ r.2) != complement

def someTail (p : List Char → Bool) : List Char → Bool
  | [] => p []
  | c :: cs => p (c :: cs) || someTail p cs

def matchesAll : List Wildcard → List Char → Bool
  | [], cs => cs.isEmpty
  | .anyText :: ws, cs => someTail (matchesAll ws) cs
  | _ :: _, [] => false
  | w :: ws, c :: cs => w.admits c && matchesAll ws cs

def tails : List Char → List (List Char)
  | [] => [[]]
  | c :: cs => (c :: cs) :: tails cs

def laterTrue : List Bool → List Bool
  | [] => []
  | b :: bs =>
    let later := laterTrue bs
    (b || later.headD false) :: later

/-- For each tail of a text, whether its first character is admitted and the tail after it, of which
`matched` tells, is matched. -/
def oneMore (w : Wildcard) : List Char → List Bool → List Bool
  | c :: cs, _ :: matched => (w.admits c && matched.headD false) :: oneMore w cs matched
  | _, _ => [false]

def matchedTails : List Wildcard → List Char → List Bool
  | [], cs => (tails cs).map List.isEmpty
  | .anyText :: ws, cs => laterTrue (matchedTails ws cs)
  | w :: ws, cs => oneMore w cs (matchedTails ws cs)

theorem laterTrue_map_tails (p : List Char → Bool) (cs : List Char) :
    laterTrue ((tails cs).map p) = (tails cs).map (someTail p) := by
  induction cs with
  | nil => simp [tails, laterTrue, someTail]
  | cons c cs ih =>
    have h : ((tails cs).map (someTail p)).headD false = someTail p cs := by
      cases cs <;> simp [tails]
    simp only [tails, List.map_cons, laterTrue, ih, h, someTail]

theorem oneMore_map_tails (w : Wildcard) (p : List Char → Bool) (cs : List Char) :
    oneMore w cs ((tails cs).map p) = (tails cs).map fun
      | [] => false
      | c :: cs => w.admits c && p cs := by
  induction cs with
  | nil => rfl
  | cons c cs ih =>
    have h : ((tails cs).map p).headD false = p cs := by cases cs <;> simp [tails]
    simp only [tails, List.map_cons, oneMore, ih, h]

theorem matchedTails_eq_map (ws : List Wildcard) (cs : List Char) :
    matchedTails ws cs = (tails cs).map (matchesAll ws) := by
  induction ws with
  | nil => rfl
  | cons w ws ih =>
    cases w with
    | anyText =>
      rw [matchedTails, ih, laterTrue_map_tails]
      rfl
    | anyChar | char | set =>
      rw [matchedTails, ih, oneMore_map_tails]
      · congr 1
        funext cs
        cases cs <;> rfl
      · simp

def matchesName (ws : List Wildcard) (name : String) : Bool :=
  (matchedTails ws name.toList).headD false

theorem matchesName_eq (ws : List Wildcard) (name : String) :
    matchesName ws name = matchesAll ws name.toList := by
  rw [matchesName, matchedTails_eq_map]
  cases name.toList <;> simp [tails]

end Wildcard

end ComponentSurvey
