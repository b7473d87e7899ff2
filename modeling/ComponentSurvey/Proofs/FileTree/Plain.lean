import ComponentSurvey.Proofs.FileTree.Direct
import ComponentSurvey.Proofs.FileTree.Selection
import ComponentSurvey.Proofs.FileTree.Ways

/-!
File trees without links. A path leads there only to what stands at it, it is resolved by its parts
alone, and what is selected below a directory has the names that stand there and is its own resolution.
-/

set_option autoImplicit false

namespace ComponentSurvey

/-- No link at or below an entry, and below it only names that an entry can have. -/
inductive Entry.IsPlain : Entry → Prop where
  | file (bytes : List UInt8) (tree : Tree) : IsPlain (.file bytes tree)
  | directory {children : List (String × Entry)} (names : ∀ c ∈ children, Path.IsName c.1)
      (below : ∀ c ∈ children, IsPlain c.2) : IsPlain (.directory children)

namespace Entry.IsPlain

variable {e c : Entry} {children : List (String × Entry)} {name : String} {r : Route}

theorem ne_link (h : e.IsPlain) (target : String) : e ≠ .link target := by
  rintro rfl
  cases h

theorem of_mem (h : IsPlain (.directory children)) (hc : (name, c) ∈ children) :
    Path.IsName name ∧ c.IsPlain := by
  cases h with
  | directory names below => exact ⟨names _ hc, below _ hc⟩

theorem of_lookup (h : IsPlain (.directory children)) (hc : children.lookup name = some c) :
    Path.IsName name ∧ c.IsPlain := by
  obtain ⟨before, after, rfl, -⟩ := List.lookup_eq_some_iff.1 hc
  exact h.of_mem (List.mem_append_right before List.mem_cons_self)

theorem of_at? (h : e.IsPlain) (hc : e.at? r = some c) :
    (∀ name ∈ r, Path.IsName name) ∧ c.IsPlain := by
  induction r generalizing e with
  | nil =>
    obtain rfl := Option.some.inj hc
    exact ⟨List.forall_mem_nil _, h⟩
  | cons name r ih =>
    obtain ⟨children, child, rfl, hl, hr⟩ := directory_of_at?_cons hc
    obtain ⟨hn, hchild⟩ := h.of_lookup hl
    obtain ⟨hns, hc⟩ := ih hchild hr
    exact ⟨List.forall_mem_cons.2 ⟨hn, hns⟩, hc⟩

end Entry.IsPlain

namespace Text

theorem not_mem_of_mem_pieces {separator : Char} {cs piece : List Char}
    (h : piece ∈ pieces separator cs) : separator ∉ piece := by
  induction cs generalizing piece with
  | nil =>
    obtain rfl := List.mem_singleton.1 h
    exact List.not_mem_nil
  | cons c cs ih =>
    rw [pieces] at h
    split at h
    · rcases List.mem_cons.1 h with rfl | h
      · exact List.not_mem_nil
      · exact ih h
    next hc =>
      have hc : separator ≠ c := fun he => hc (beq_iff_eq.2 he.symm)
      split at h
      next hp => exact absurd hp (pieces_ne_nil separator cs)
      next p ps hp =>
        rcases List.mem_cons.1 h with rfl | h
        · exact List.not_mem_cons_of_ne_of_not_mem hc (ih (hp ▸ List.mem_cons_self))
        · exact ih (hp ▸ List.mem_cons_of_mem p h)

end Text

namespace Path

theorem no_slash_of_mem_pieces {path piece : String} (h : piece ∈ pieces path) :
    '/' ∉ piece.toList := by
  obtain ⟨cs, hc, rfl⟩ := List.mem_map.1 h
  rw [String.toList_ofList]
  exact Text.not_mem_of_mem_pieces hc

theorem leadingSlashes_relative {path : String} (h : isAbsolute path = false) :
    leadingSlashes path = "" := by
  unfold isAbsolute at h
  unfold leadingSlashes
  split <;> simp_all

end Path

namespace FileTree

def IsProper (part : String) : Prop := Path.isMeaningful part ∧ part ≠ ".."

theorem IsProper.ne_here {part : String} (h : IsProper part) : part ≠ "." := by
  rintro rfl
  simp [IsProper, Path.isMeaningful] at h

theorem IsProper.ne_empty {part : String} (h : IsProper part) : part ≠ "" := by
  rintro rfl
  simp [IsProper, Path.isMeaningful] at h

theorem isProper_of_isName {name : String} (h : Path.IsName name) : IsProper name :=
  ⟨h.isMeaningful, h.ne_above⟩

theorem mem_of_mem_normalized {parts : List String} {part : String}
    (h : part ∈ normalized parts) : part ∈ parts ∧ part ≠ ".." := by
  suffices hf : ∀ above : List String, part ∈ parts.foldl
      (fun above part => if part == ".." then above.drop 1 else part :: above) above →
        part ∈ above ∨ part ∈ parts ∧ part ≠ ".." by
    exact (hf [] (List.mem_reverse.1 h)).resolve_left List.not_mem_nil
  clear h
  induction parts with
  | nil => exact fun above h => .inl h
  | cons p parts ih =>
    intro above h
    rcases ih _ h with h | h
    · dsimp only at h
      split at h
      · exact .inl (List.mem_of_mem_drop h)
      next hp =>
        rcases List.mem_cons.1 h with rfl | h
        · exact .inr ⟨List.mem_cons_self, by simpa using hp⟩
        · exact .inl h
    · exact .inr ⟨List.mem_cons_of_mem p h.1, h.2⟩

structure IsPlain (fs : FileTree) : Prop where
  top : fs.top.IsPlain
  current : ∀ name ∈ fs.current, Path.IsName name

variable {fs : FileTree} {r s : Route} {e : Entry}

/-- Following either fails or arrives at what stands at the end. -/
theorem advance_plain {s : Spot} (hs : s.entry.IsPlain) {parts : List String}
    (hp : ∀ part ∈ parts, IsProper part) : (∃ fault, advance s parts = .failed fault) ∨
      ∃ t, advance s parts = .arrived t ∧ s.entry.at? parts = some t.entry := by
  induction parts generalizing s with
  | nil => exact .inr ⟨s, rfl, rfl⟩
  | cons part parts ih =>
    obtain ⟨hpart, hp⟩ := List.forall_mem_cons.1 hp
    unfold advance
    split
    next children hc =>
      simp only [beq_iff_eq, hpart.ne_here, hpart.2, if_false]
      rw [hc] at hs ⊢
      split_ifs
      · exact .inl ⟨_, rfl⟩
      · split
        · exact .inl ⟨_, rfl⟩
        next target hl => exact absurd rfl ((hs.of_lookup hl).2.ne_link target)
        next e _ hl =>
          have hat : (Entry.directory children).at? (part :: parts) = e.at? parts := by
            simp [Entry.at?, Entry.child?, Entry.children, hl]
          rw [hat]
          exact ih (s := s.enter part e) (hs.of_lookup hl).2 hp
    · exact .inl ⟨_, rfl⟩

namespace IsPlain

variable (h : fs.IsPlain)
include h

theorem entry?_of_locateRoute (hr : ∀ part ∈ r, IsProper part) (he : fs.locateRoute r = .ok e) :
    fs.entry? r = some e := by
  have hf : r.filter (· != "") = r :=
    List.filter_eq_self.2 fun part hm => by simpa using (hr part hm).ne_empty
  unfold locateRoute at he
  rw [hf] at he
  split at he
  · cases he
  rcases advance_plain (s := fs.topSpot) h.top hr with ⟨fault, ha⟩ | ⟨t, ha, hat⟩
  · simp [follow, ha] at he
  · rw [follow_arrived ha] at he
    obtain rfl := Except.ok.inj he
    exact hat

theorem ne_link (r : Route) (target : String) : fs.entry? r ≠ some (.link target) :=
  fun he => (h.top.of_at? he).2.ne_link target rfl

theorem isDirect (hr : ∀ name ∈ r, Path.IsName name) : fs.IsDirect r :=
  ⟨hr, fun way _ => h.ne_link way⟩

theorem resolvePieces_free
    {intoLink : Replaced → LinkFree → String → Except Failure (Resolution × Replaced)}
    {replaced after : Replaced} {p : LinkFree} {pieces : List String} {resolution : Resolution}
    (hp : ∀ part ∈ p.reversed, Path.IsPart part) (hs : ∀ piece ∈ pieces, '/' ∉ piece.toList)
    (hr : fs.resolvePieces intoLink replaced p pieces = .ok (resolution, after)) :
    ∃ q, resolution = .free q ∧ ∀ part ∈ q.reversed, Path.IsPart part := by
  induction pieces generalizing p with
  | nil =>
    cases hr
    exact ⟨p, rfl, hp⟩
  | cons piece rest ih =>
    obtain ⟨hpiece, hs⟩ := List.forall_mem_cons.1 hs
    simp only [resolvePieces, linkTarget?_of_no_link (h.ne_link _)] at hr
    split_ifs at hr with hm ha
    · exact ih hp hs hr
    · refine ih (fun part hpart => ?_) hs hr
      have habove : Path.IsPart ".." := by decide
      unfold LinkFree.parent at hpart
      split at hpart
      next hn =>
        split_ifs at hpart
        · exact hp part hpart
        · rw [LinkFree.enter, hn, List.mem_singleton] at hpart
          exact hpart ▸ habove
      next above hn =>
        split_ifs at hpart
        · rcases List.mem_cons.1 hpart with rfl | hpart
          · exact habove
          · exact hp part hpart
        · exact hp part (hn ▸ List.mem_cons_of_mem _ hpart)
    · refine ih (List.forall_mem_cons.2 ⟨⟨?_, hpiece⟩, hp⟩) hs hr
      rintro rfl
      exact hm rfl

theorem isProper_of_resolve {path : String} (hr : fs.resolve path = .ok r) :
    ∀ part ∈ r, IsProper part := by
  unfold resolve at hr
  cases hq : fs.resolveFrom deepestLink [] .here (Path.display path) with
  | error f => simp [hq] at hr
  | ok result =>
    obtain ⟨resolution, after⟩ := result
    have hstart : (startOf .here (Path.display path)).reversed = [] := by
      unfold startOf
      split <;> rfl
    rw [deepestLink, resolveFrom] at hq
    obtain ⟨q, rfl, hparts⟩ := h.resolvePieces_free (by simp [hstart])
      (fun piece => Path.no_slash_of_mem_pieces) hq
    have hbody : Path.isAbsolute (String.intercalate "/" q.reversed.reverse) = false :=
      Path.isAbsolute_intercalate fun part hm => hparts part (List.mem_reverse.1 hm)
    have hslashes : Path.leadingSlashes q.text ≠ "//" := by
      unfold LinkFree.text
      split
      · rw [Path.leadingSlashes_slash hbody]
        decide
      · rw [Path.leadingSlashes_relative hbody]
        decide
    have hroute : r = normalized
        ((if Path.isAbsolute q.text then [] else fs.current) ++ Path.parts q.text) := by
      rw [deepestLink, resolveFrom, hq] at hr
      dsimp only at hr
      split_ifs at hr
      split at hr
      · cases hr
      · rw [← Except.ok.inj hr, routeOf, if_neg (by simpa using hslashes)]
    intro part hm
    rw [hroute] at hm
    obtain ⟨hm, habove⟩ := mem_of_mem_normalized hm
    refine ⟨?_, habove⟩
    rcases List.mem_append.1 hm with hm | hm
    · split at hm
      · cases hm
      · exact (h.current part hm).isMeaningful
    · exact (List.mem_filter.1 hm).2

end IsPlain

theorem exists_of_test {p : Entry → Bool} (ht : fs.test p r = .ok true) :
    ∃ e, fs.locateRoute r = .ok e ∧ p e := by
  unfold test at ht
  split at ht
  · cases ht
  · cases hl : fs.locateRoute r with
    | ok e => exact ⟨e, rfl, by simpa [hl, found] using ht⟩
    | error fault => cases fault <;> simp [hl, found] at ht

theorem IsPlain.isName_of_test (h : fs.IsPlain) {p : Entry → Bool} (hr : ∀ part ∈ r, IsProper part)
    (ht : fs.test p r = .ok true) : ∀ name ∈ r, Path.IsName name := by
  obtain ⟨e, he, -⟩ := exists_of_test ht
  exact (h.top.of_at? (h.entry?_of_locateRoute hr he)).1

end FileTree

namespace Glob

variable {fs : FileTree}

mutual
theorem isName_of_mem_startsFrom {r s : Route} (hr : ∀ name ∈ r, Path.IsName name) {e : Entry}
    (he : e.IsPlain) (hs : .ok s ∈ startsFrom fs r e) : ∀ name ∈ s, Path.IsName name := by
  match e with
  | .file .. => cases hs
  | .link target => exact absurd rfl (he.ne_link target)
  | .directory children =>
    rw [startsFrom] at hs
    rcases List.mem_cons.1 hs with hs | hs
    · obtain rfl := Except.ok.inj hs
      exact hr
    · split at hs
      · simp at hs
      · exact isName_of_mem_startsInside hr (fun c hc => he.of_mem hc) hs
theorem isName_of_mem_startsInside {r s : Route} (hr : ∀ name ∈ r, Path.IsName name)
    {children : List (String × Entry)} (hc : ∀ c ∈ children, Path.IsName c.1 ∧ c.2.IsPlain)
    (hs : .ok s ∈ startsInside fs r children) : ∀ name ∈ s, Path.IsName name := by
  match children with
  | [] => cases hs
  | (name, e) :: rest =>
    obtain ⟨⟨hn, he⟩, hc⟩ := List.forall_mem_cons.1 hc
    rw [startsInside] at hs
    rcases List.mem_append.1 hs with hs | hs
    · have hnext : ∀ part ∈ r ++ [name], Path.IsName part :=
        List.forall_mem_append.2 ⟨hr, List.forall_mem_singleton.2 hn⟩
      exact isName_of_mem_startsFrom hnext he hs
    · exact isName_of_mem_startsInside hr hc hs
end

variable {r s next : Route} {rs : List Route} {last : Bool} {p : GlobPart} {ps : List GlobPart}

/-- Where the last part is a wildcard one, the last name of what is selected matches it. -/
theorem exists_name_of_mem_selectFrom (ps : List GlobPart) {ws : List Wildcard}
    (hsel : selectFrom fs last (ps ++ [.wild ws]) r = .ok rs) (hs : s ∈ rs) :
    ∃ name, s.getLast? = some name ∧ Wildcard.matchesName ws name := by
  induction ps generalizing r rs s with
  | nil =>
    obtain ⟨_, ss, ⟨children, n, e, -, -, hmatch, rfl⟩, hf, hm⟩ := exists_leads hsel hs
    obtain rfl : [r ++ [n]] = ss := Except.ok.inj hf
    obtain rfl := List.mem_singleton.1 hm
    exact ⟨n, List.getLast?_concat, hmatch⟩
  | cons p ps ih =>
    obtain ⟨next, ss, -, hn, hm⟩ := exists_leads hsel hs
    exact ih hn hm

section Plain

variable (h : fs.IsPlain) (hr : ∀ name ∈ r, Path.IsName name)
include h hr

theorem isPlain_of_scan {children : List (String × Entry)} (hs : scan fs r = .ok children) :
    (Entry.directory children).IsPlain := by
  unfold scan at hs
  split at hs
  next found hl =>
    obtain rfl := Except.ok.inj hs
    have hproper : ∀ part ∈ r, FileTree.IsProper part := fun part hm =>
      FileTree.isProper_of_isName (hr part hm)
    exact (h.top.of_at? (h.entry?_of_locateRoute hproper hl)).2
  · cases hs
  · cases hs

theorem isName_of_mem_starts (hs : .ok s ∈ starts fs r) : ∀ name ∈ s, Path.IsName name := by
  unfold starts at hs
  split at hs
  next children hc => exact isName_of_mem_startsFrom hr (isPlain_of_scan h hr hc) hs
  · obtain rfl : s = r := by simpa using hs
    exact hr

theorem Leads.isName (hp : ∀ n, p = .name n → Path.IsName n) (hl : Leads fs p r next) :
    ∀ name ∈ next, Path.IsName name := by
  cases p with
  | recursive => exact isName_of_mem_starts h hr hl
  | name n =>
    obtain rfl := hl
    exact List.forall_mem_append.2 ⟨hr, List.forall_mem_singleton.2 (hp n rfl)⟩
  | wild ws =>
    obtain ⟨children, n, e, hc, hn, -, rfl⟩ := hl
    have hname := ((isPlain_of_scan h hr hc).of_mem hn).1
    exact List.forall_mem_append.2 ⟨hr, List.forall_mem_singleton.2 hname⟩

/-- Parts that are names, wildcards or recursive select paths of names. -/
theorem isName_of_mem_selectFrom (hps : ∀ n, .name n ∈ ps → Path.IsName n)
    (hsel : selectFrom fs last ps r = .ok rs) (hs : s ∈ rs) : ∀ name ∈ s, Path.IsName name := by
  induction ps generalizing r rs s with
  | nil =>
    obtain rfl : [r] = rs := Except.ok.inj hsel
    obtain rfl := List.mem_singleton.1 hs
    exact hr
  | cons p ps ih =>
    obtain ⟨next, ss, hl, hn, hm⟩ := exists_leads hsel hs
    have hp : ∀ n, p = .name n → Path.IsName n := fun n he => hps n (he ▸ List.mem_cons_self)
    exact ih (hl.isName h hr hp) (fun n hm => hps n (List.mem_cons_of_mem p hm)) hn hm

end Plain

end Glob

end ComponentSurvey
