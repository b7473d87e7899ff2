import ComponentSurvey.FileTree.Resolved
import Mathlib.Data.List.Basic

/-!
Following and resolving paths name by name. A path joined from names is read back as these names, and
each name leads from a directory to what stands in it.
-/

set_option autoImplicit false

namespace ComponentSurvey

namespace Text

theorem pieces_append (separator : Char) (cs rest : List Char) :
    pieces separator (cs ++ separator :: rest) = pieces separator cs ++ pieces separator rest := by
  induction cs with
  | nil => simp [pieces]
  | cons c cs ih =>
    by_cases hc : c = separator
    · simp [pieces, hc, ih]
    · obtain ⟨p, ps, hp⟩ := List.exists_cons_of_ne_nil (pieces_ne_nil separator cs)
      simp [pieces, hc, ih, hp]

theorem pieces_of_not_mem {separator : Char} {cs : List Char} (h : separator ∉ cs) :
    pieces separator cs = [cs] := by
  induction cs with
  | nil => rfl
  | cons c cs ih =>
    rw [List.mem_cons, not_or] at h
    simp [pieces, Ne.symm h.1, ih h.2]

end Text

namespace Path

structure IsPart (part : String) : Prop where
  ne_empty : part ≠ ""
  no_slash : '/' ∉ part.toList

structure IsName (name : String) : Prop extends IsPart name where
  ne_here : name ≠ "."
  ne_above : name ≠ ".."
  no_null : '\x00' ∉ name.toList
  short : name.utf8ByteSize ≤ FileTree.longestName

instance : DecidablePred IsPart := fun part =>
  decidable_of_iff (part ≠ "" ∧ '/' ∉ part.toList)
    ⟨fun h => ⟨h.1, h.2⟩, fun h => ⟨h.ne_empty, h.no_slash⟩⟩

instance : DecidablePred IsName := fun name =>
  decidable_of_iff (IsPart name ∧ name ≠ "." ∧ name ≠ ".." ∧ '\x00' ∉ name.toList ∧
      name.utf8ByteSize ≤ FileTree.longestName)
    ⟨fun ⟨h, h₁, h₂, h₃, h₄⟩ => ⟨h, h₁, h₂, h₃, h₄⟩,
      fun h => ⟨h.toIsPart, h.ne_here, h.ne_above, h.no_null, h.short⟩⟩

theorem pieces_append (path rest : String) :
    pieces (path ++ "/" ++ rest) = pieces path ++ pieces rest := by
  simp [pieces, Text.pieces_append]

theorem pieces_slash (rest : String) : pieces ("/" ++ rest) = "" :: pieces rest := by
  simp [pieces, Text.pieces]

variable {name part path : String} {parts : List String}

theorem IsPart.pieces_eq (h : IsPart part) : pieces part = [part] := by
  simp [pieces, Text.pieces_of_not_mem h.no_slash]

theorem IsPart.isAbsolute_append (h : IsPart part) (rest : String) :
    isAbsolute (part ++ rest) = false := by
  have hne : part.toList ≠ [] := by simpa using h.ne_empty
  obtain ⟨c, cs, hc⟩ := List.exists_cons_of_ne_nil hne
  have hs := h.no_slash
  rw [hc, List.mem_cons, not_or] at hs
  simpa [isAbsolute, hc] using Ne.symm hs.1

theorem IsPart.hasFinalSlash_append (h : IsPart part) (path : String) :
    hasFinalSlash (path ++ part) = false := by
  have hne : part.toList ≠ [] := by simpa using h.ne_empty
  have hl : part.toList.getLast hne ≠ '/' := fun he => h.no_slash (he ▸ List.getLast_mem hne)
  simpa [hasFinalSlash, List.getLast?_append, List.getLast?_eq_some_getLast hne] using hl

/-- A path joined from parts has these parts as its pieces. -/
theorem pieces_intercalate (hn : parts ≠ []) (h : ∀ part ∈ parts, IsPart part) :
    pieces (String.intercalate "/" parts) = parts := by
  induction parts with
  | nil => exact absurd rfl hn
  | cons part parts ih =>
    have hp := h part List.mem_cons_self
    cases parts with
    | nil => simpa using hp.pieces_eq
    | cons other parts =>
      rw [String.intercalate_cons_of_ne_nil (by simp), pieces_append, hp.pieces_eq,
        ih (by simp) fun part' hm => h part' (List.mem_cons_of_mem part hm)]
      rfl

theorem isAbsolute_intercalate (h : ∀ part ∈ parts, IsPart part) :
    isAbsolute (String.intercalate "/" parts) = false := by
  cases parts with
  | nil => rfl
  | cons part parts =>
    have hp := h part List.mem_cons_self
    cases parts with
    | nil => simpa using hp.isAbsolute_append ""
    | cons other parts =>
      rw [String.intercalate_cons_of_ne_nil (by simp), String.append_assoc]
      exact hp.isAbsolute_append _

theorem hasFinalSlash_intercalate (h : ∀ part ∈ parts, IsPart part) :
    hasFinalSlash (String.intercalate "/" parts) = false := by
  rcases List.eq_nil_or_concat parts with rfl | ⟨before, part, rfl⟩
  · rfl
  · have hp := h part (by simp)
    cases before with
    | nil => simpa using hp.hasFinalSlash_append ""
    | cons other before =>
      rw [List.concat_eq_append, String.intercalate_append_of_ne_nil (by simp) (by simp),
        String.intercalate_singleton]
      exact hp.hasFinalSlash_append _

theorem isAbsolute_append (h : path ≠ "") (rest : String) :
    isAbsolute (path ++ rest) = isAbsolute path := by
  obtain ⟨c, cs, hc⟩ := List.exists_cons_of_ne_nil (l := path.toList) (by simpa using h)
  simp [isAbsolute, hc]

theorem leadingSlashes_slash (h : isAbsolute path = false) : leadingSlashes ("/" ++ path) = "/" := by
  unfold leadingSlashes
  rw [String.toList_append]
  cases hp : path.toList with
  | nil => rfl
  | cons c cs =>
    have hc : c ≠ '/' := by simpa [isAbsolute, hp] using h
    simp [hc]

theorem join_empty (hs : hasFinalSlash path = false) (hne : path ≠ "") :
    join path "" = path ++ "/" := by
  simp [join, isAbsolute, hs, hne]

theorem join_empty_of_hasFinalSlash (hs : hasFinalSlash path = true) : join path "" = path := by
  simp [join, isAbsolute, hs]

theorem utf8ByteSize_replicate (c : Char) (n : Nat) :
    (String.ofList (List.replicate n c)).utf8ByteSize = n * c.utf8Size := by
  induction n with
  | zero => simp
  | succ n ih =>
    rw [List.replicate_succ, String.ofList_cons]
    simp [ih, Nat.succ_mul, Nat.add_comm]

theorem isName_replicate {c : Char} (hc : c ≠ '/' ∧ c ≠ '.' ∧ c ≠ '\x00') {n : Nat} (hn : n ≠ 0)
    (hs : n * c.utf8Size ≤ FileTree.longestName) :
    IsName (String.ofList (List.replicate n c)) := by
  have hm : ∀ {d : Char} {cs : List Char}, List.replicate n c = d :: cs → c = d := by
    intro d cs h
    have hd : d ∈ List.replicate n c := h ▸ List.mem_cons_self
    exact (List.eq_of_mem_replicate hd).symm
  refine ⟨⟨fun h => ?_, ?_⟩, fun h => ?_, fun h => ?_, ?_, ?_⟩
  · simpa [hn] using congrArg String.toList h
  · simpa using fun _ => Ne.symm hc.1
  · exact hc.2.1 (hm (by simpa using congrArg String.toList h))
  · exact hc.2.1 (hm (by simpa using congrArg String.toList h))
  · simpa using fun _ => Ne.symm hc.2.2
  · rwa [utf8ByteSize_replicate]

theorem IsName.isMeaningful (h : IsName name) : isMeaningful name = true := by
  simp [Path.isMeaningful, h.ne_empty, h.ne_here]

theorem IsName.hasNull (h : IsName name) : hasNull name = false := by
  simpa [Path.hasNull] using h.no_null

end Path

theorem Route.text_eq {r : Route} (h : ∀ part ∈ r, part ≠ "") :
    r.text = "/" ++ String.intercalate "/" r := by
  unfold Route.text
  split
  · exact absurd rfl (h "" List.mem_cons_self)
  · rfl

namespace FileTree

variable {fs : FileTree} {s : Spot} {name : String} {e : Entry} {children : List (String × Entry)}
  {target : String}

theorem advance_enter (hs : s.entry = .directory children) (hn : Path.IsName name)
    (hl : children.lookup name = some e) (he : ∀ target, e ≠ .link target) (rest : List String) :
    advance s (name :: rest) = advance (s.enter name e) rest := by
  rw [advance, hs]
  simp only [beq_iff_eq, hn.ne_here, hn.ne_above, if_false, hl]
  cases e with
  | link target => exact absurd rfl (he target)
  | _ => exact if_neg (Nat.not_lt.2 hn.short)

theorem advance_link (hs : s.entry = .directory children) (hn : Path.IsName name)
    (hl : children.lookup name = some (.link target)) (rest : List String) :
    advance s (name :: rest) = .linked s target rest := by
  rw [advance, hs]
  simp only [beq_iff_eq, hn.ne_here, hn.ne_above, if_false, hl]
  exact if_neg (Nat.not_lt.2 hn.short)

theorem advance_above (hs : s.entry = .directory children) (rest : List String) :
    advance s (".." :: rest) = advance s.parent rest := by
  rw [advance, hs]
  rfl

theorem follow_arrived {parts : List String} {t : Spot} (h : advance s parts = .arrived t)
    (links : Nat) : fs.follow links s parts = .ok ⟨t, links⟩ := by
  cases links <;> rw [follow, h]

theorem follow_relative {parts rest : List String} {t : Spot}
    (h : advance s parts = .linked t target rest) (ha : Path.isAbsolute target = false)
    (links : Nat) :
    fs.follow (links + 1) s parts = fs.follow links t (followedParts target ++ rest) := by
  rw [follow, h]
  simp only [startFrom, ha, Bool.false_eq_true, if_false]

/-- A link to itself is followed until no link may be followed any more. -/
theorem follow_self (hs : s.entry = .directory children) (hn : Path.IsName name)
    (hl : children.lookup name = some (.link name)) (hp : followedParts name = [name])
    (ha : Path.isAbsolute name = false) (links : Nat) :
    fs.follow links s [name] = .error .tooManyLinks := by
  induction links with
  | zero => rw [follow, advance_link hs hn hl]
  | succ links ih =>
    rw [follow_relative (advance_link hs hn hl []) ha, hp]
    exact ih

theorem follow_congr {parts parts' : List String} {t : Spot} (h : advance s parts = advance t parts')
    (links : Nat) : fs.follow links s parts = fs.follow links t parts' := by
  cases links <;> rw [follow, follow, h]

theorem followedParts_intercalate {parts : List String} (hn : parts ≠ [])
    (h : ∀ part ∈ parts, Path.IsPart part) :
    followedParts (String.intercalate "/" parts) = parts := by
  rw [followedParts, Path.pieces_intercalate hn h, Path.hasFinalSlash_intercalate h]
  simpa using fun part hm => (h part hm).ne_empty

variable {intoLink : Replaced → LinkFree → String → Except Failure (Resolution × Replaced)}
  {replaced : Replaced} {p : LinkFree}

theorem resolvePieces_enter (hn : Path.IsName name) (hl : fs.linkTarget? (p.enter name) = none)
    (rest : List String) :
    fs.resolvePieces intoLink replaced p (name :: rest) =
      fs.resolvePieces intoLink replaced (p.enter name) rest := by
  rw [resolvePieces]
  simp [hn.isMeaningful, hn.ne_above, hn.hasNull, hl]

theorem resolvePieces_above (rest : List String) :
    fs.resolvePieces intoLink replaced p (".." :: rest) =
      fs.resolvePieces intoLink replaced p.parent rest := by
  rw [resolvePieces]
  simp [Path.isMeaningful]

theorem resolvePieces_empty (rest : List String) :
    fs.resolvePieces intoLink replaced p ("" :: rest) =
      fs.resolvePieces intoLink replaced p rest := by
  rw [resolvePieces]
  simp [Path.isMeaningful]

theorem resolvePieces_free {target : String} {q : LinkFree} {after : Replaced}
    (hn : Path.IsName name) (hl : fs.linkTarget? (p.enter name) = some target)
    (hr : replaced.lookup (p.enter name).text = none)
    (hi : intoLink (((p.enter name).text, none) :: replaced) p target = .ok (.free q, after))
    (rest : List String) :
    fs.resolvePieces intoLink replaced p (name :: rest) =
      fs.resolvePieces intoLink (((p.enter name).text, some q) :: after) q rest := by
  rw [resolvePieces]
  simp [hn.isMeaningful, hn.ne_above, hn.hasNull, hl, hr, hi]

theorem resolvePieces_looped {target path : String} {after : Replaced}
    (hn : Path.IsName name) (hl : fs.linkTarget? (p.enter name) = some target)
    (hr : replaced.lookup (p.enter name).text = none)
    (hi : intoLink (((p.enter name).text, none) :: replaced) p target = .ok (.looped path, after))
    (rest : List String) :
    fs.resolvePieces intoLink replaced p (name :: rest) =
      .ok (.looped (Path.join path (String.intercalate "/" rest)), after) := by
  rw [resolvePieces]
  simp [hn.isMeaningful, hn.ne_above, hn.hasNull, hl, hr, hi]

theorem resolvePieces_again {target : String} (hn : Path.IsName name)
    (hl : fs.linkTarget? (p.enter name) = some target)
    (hr : replaced.lookup (p.enter name).text = some none) (rest : List String) :
    fs.resolvePieces intoLink replaced p (name :: rest) =
      .ok (.looped (Path.join (p.enter name).text (String.intercalate "/" rest)), replaced) := by
  rw [resolvePieces]
  simp [hn.isMeaningful, hn.ne_above, hn.hasNull, hl, hr]

theorem resolveFrom_relative {path : String} (ha : Path.isAbsolute path = false) (depth : Nat)
    (replaced : Replaced) (p : LinkFree) :
    fs.resolveFrom (depth + 1) replaced p path =
      fs.resolvePieces (fs.resolveFrom depth) replaced p (Path.pieces path) := by
  rw [resolveFrom, startOf, ha]
  rfl

theorem resolveFrom_absolute {path : String} (ha : Path.isAbsolute path = true) (depth : Nat)
    (replaced : Replaced) (p : LinkFree) :
    fs.resolveFrom (depth + 1) replaced p path =
      fs.resolvePieces (fs.resolveFrom depth) replaced .top (Path.pieces path) := by
  rw [resolveFrom, startOf, ha]
  rfl

theorem linkTarget?_of_link {target : String}
    (he : fs.entry? (p.route fs.current) = some (.link target))
    (ht : p.text.utf8ByteSize ≤ longestPath) : fs.linkTarget? p = some target := by
  simp [linkTarget?, he, ht]

theorem linkTarget?_of_ne_link {e : Entry} (he : fs.entry? (p.route fs.current) = some e)
    (hl : ∀ target, e ≠ .link target) : fs.linkTarget? p = none := by
  cases e with
  | link target => exact absurd rfl (hl target)
  | _ => simp [linkTarget?, he]

theorem linkTarget?_of_longest (ht : longestPath < p.text.utf8ByteSize) :
    fs.linkTarget? p = none := by
  unfold linkTarget?
  split
  · exact if_neg (Nat.not_le.2 ht)
  · rfl

end FileTree

theorem LinkFree.route_eq {parts : List String} (h : ".." ∉ parts) (current : Route) :
    LinkFree.route current ⟨true, parts⟩ = parts.reverse := by
  suffices hf : parts.foldr (fun part above => if part == ".." then above.drop 1 else part :: above)
      [] = parts by
    simp only [route, if_true, hf]
  induction parts with
  | nil => rfl
  | cons part parts ih =>
    rw [List.mem_cons, not_or] at h
    rw [List.foldr_cons, ih h.2, if_neg (by simpa using Ne.symm h.1)]

theorem FileTree.normalized_eq {parts : List String} (h : ".." ∉ parts) :
    normalized parts = parts := by
  suffices hf : ∀ above, parts.foldl
      (fun above part => if part == ".." then above.drop 1 else part :: above) above =
        parts.reverse ++ above by
    rw [normalized, hf, List.append_nil, List.reverse_reverse]
  induction parts with
  | nil => exact fun above => rfl
  | cons part parts ih =>
    intro above
    rw [List.mem_cons, not_or] at h
    rw [List.foldl_cons, if_neg (by simpa using Ne.symm h.1), ih h.2]
    simp

end ComponentSurvey
