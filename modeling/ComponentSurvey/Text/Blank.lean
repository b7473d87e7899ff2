/-!
Blanks and line breaks of Unicode text. Every line break is a blank; tabs and spaces are blanks only.
-/

set_option autoImplicit false

namespace ComponentSurvey.Text

def isLineBreak (c : Char) : Bool :=
  let n := c.toNat
  (0x0A ≤ n && n ≤ 0x0D) || (0x1C ≤ n && n ≤ 0x1E) || n == 0x85 || n == 0x2028 || n == 0x2029

def isBlank (c : Char) : Bool :=
  let n := c.toNat
  isLineBreak c || n == 0x09 || n == 0x1F || n == 0x20 || n == 0xA0 || n == 0x1680 ||
    (0x2000 ≤ n && n ≤ 0x200A) || n == 0x202F || n == 0x205F || n == 0x3000

def stripped (p : Char → Bool) (cs : List Char) : List Char :=
  ((cs.dropWhile p).reverse.dropWhile p).reverse

def trimmed (s : String) : String := String.ofList (stripped isBlank s.toList)

def firstLine (s : String) : String := String.ofList (s.toList.takeWhile (!isLineBreak ·))

def unquoted (s : String) : String :=
  String.ofList (stripped (fun c => c == '\'' || c == '"' || c == '\x60') s.toList)

def occursInList (part : List Char) : List Char → Bool
  | [] => part.isEmpty
  | c :: cs => part.isPrefixOf (c :: cs) || occursInList part cs

def occursIn (part whole : String) : Bool := occursInList part.toList whole.toList

def startsWith (start whole : String) : Bool := start.toList.isPrefixOf whole.toList

/-- Upper-case letters A to Z become lower-case, all else stays. -/
def lowerAscii (s : String) : String := String.ofList (s.toList.map Char.toLower)

theorem isBlank_of_isLineBreak {c : Char} (h : isLineBreak c) : isBlank c := by
  simp [isBlank, h]

theorem occursInList_iff {part whole : List Char} :
    occursInList part whole ↔ part <:+: whole := by
  induction whole with
  | nil => simp [occursInList]
  | cons c cs ih => simp [occursInList, ih, List.infix_cons_iff]

theorem occursIn_iff {part whole : String} :
    occursIn part whole ↔ part.toList <:+: whole.toList := occursInList_iff

end ComponentSurvey.Text
