import Mathlib.Data.List.Basic
import ComponentSurvey.Proofs.FileTree.Detour
import ComponentSurvey.Proofs.Lists.FirstOccurrences

/-!
Which files are found. What the patterns select and what is a file are the file tree's answers; from
these the found files follow, their order, and how patterns and excluded names combine.
-/

set_option autoImplicit false

namespace ComponentSurvey

theorem exists_of_bind {α β : Type} {x : Except Failure α} {f : α → Except Failure β} {b : β}
    (h : x >>= f = .ok b) : ∃ a, x = .ok a ∧ f a = .ok b := by
  cases x with
  | error e => cases h
  | ok a => exact ⟨a, rfl, h⟩

namespace Route

theorem le_iff {r s : Route} : Route.le r s ↔ ¬ s < r := by
  simp [Route.le]

theorem pairwise_sorted (rs : List Route) : (rs.mergeSort Route.le).Pairwise (Route.le · ·) := by
  have htrans (a b c : Route) (hab : Route.le a b) (hbc : Route.le b c) : Route.le a c :=
    le_iff.2 (List.le_trans (le_iff.1 hab) (le_iff.1 hbc))
  have htotal (a b : Route) : (Route.le a b || Route.le b a) = true := by
    rw [Bool.or_eq_true, le_iff, le_iff]
    exact List.le_total a b
  exact List.pairwise_mergeSort htrans htotal rs

end Route

namespace Glob

variable {fs : FileTree}

theorem exists_of_mem_flatMapTested {α β : Type} {f : α → Except Failure (List β)} {l : List α}
    {ys : List β} (h : flatMapTested f l = .ok ys) {y : β} (hy : y ∈ ys) :
    ∃ x ∈ l, ∃ zs, f x = .ok zs ∧ y ∈ zs := by
  induction l generalizing ys with
  | nil =>
    obtain rfl : [] = ys := Except.ok.inj h
    cases hy
  | cons x l ih =>
    rw [flatMapTested] at h
    split at h
    next us vs hx hl =>
      obtain rfl := Except.ok.inj h
      rcases List.mem_append.1 hy with hy | hy
      · exact ⟨x, List.mem_cons_self, us, hx, hy⟩
      · obtain ⟨z, hz, zs, hf, hm⟩ := ih hl hy
        exact ⟨z, List.mem_cons_of_mem x hz, zs, hf, hm⟩
    · cases h
    · cases h

theorem filterTested_eq {α : Type} {p : α → Except Failure Bool} {q : α → Bool} {l : List α}
    (h : ∀ a ∈ l, p a = .ok (q a)) : filterTested p l = .ok (l.filter q) := by
  induction l with
  | nil => rfl
  | cons a l ih =>
    rw [filterTested, h a List.mem_cons_self, ih fun b hb => h b (List.mem_cons_of_mem a hb)]
    cases hq : q a <;> simp [hq]

theorem mem_of_mem_filterTested {α : Type} {p : α → Except Failure Bool} {l ys : List α}
    (h : filterTested p l = .ok ys) {y : α} (hy : y ∈ ys) : y ∈ l ∧ p y = .ok true := by
  induction l generalizing ys with
  | nil =>
    obtain rfl : [] = ys := Except.ok.inj h
    cases hy
  | cons x l ih =>
    rw [filterTested] at h
    split at h
    next zs hx hl =>
      obtain rfl := Except.ok.inj h
      rcases List.mem_cons.1 hy with rfl | hy
      · exact ⟨List.mem_cons_self, hx⟩
      · exact (ih hl hy).imp_left (List.mem_cons_of_mem x)
    next zs hx hl =>
      obtain rfl := Except.ok.inj h
      exact (ih hl hy).imp_left (List.mem_cons_of_mem x)
    · cases h
    · cases h

mutual
theorem prefix_of_mem_startsFrom {r s : Route} (e : Entry) (h : .ok s ∈ startsFrom fs r e) :
    r <+: s := by
  match e with
  | .file .. => cases h
  | .link _ =>
    rw [startsFrom] at h
    split at h
    · cases h
    · simp at h
  | .directory children =>
    rw [startsFrom] at h
    rcases List.mem_cons.1 h with h | h
    · obtain rfl := Except.ok.inj h
      exact List.prefix_refl s
    · split at h
      · simp at h
      · exact prefix_of_mem_startsInside children h
theorem prefix_of_mem_startsInside {r s : Route} (children : List (String × Entry))
    (h : .ok s ∈ startsInside fs r children) : r <+: s := by
  match children with
  | [] => cases h
  | (name, e) :: rest =>
    rw [startsInside] at h
    rcases List.mem_append.1 h with h | h
    · exact (List.prefix_append r [name]).trans (prefix_of_mem_startsFrom e h)
    · exact prefix_of_mem_startsInside rest h
end

theorem prefix_of_mem_starts {r s : Route} (h : .ok s ∈ starts fs r) : r <+: s := by
  unfold starts at h
  split at h
  · exact prefix_of_mem_startsFrom _ h
  · obtain rfl : s = r := by simpa using h
    exact List.prefix_refl s

/-- A part of a pattern leads from one path to a next one, from which the parts behind it go on. -/
def Leads (fs : FileTree) : GlobPart → Route → Route → Prop
  | .recursive, r, next => .ok next ∈ starts fs r
  | .name n, r, next => next = r ++ [n]
  | .wild ws, r, next => ∃ children n e, scan fs r = .ok children ∧ (n, e) ∈ children ∧
      Wildcard.matchesName ws n ∧ next = r ++ [n]

theorem exists_leads {last : Bool} {p : GlobPart} {ps : List GlobPart} {r s : Route}
    {rs : List Route} (h : selectFrom fs last (p :: ps) r = .ok rs) (hs : s ∈ rs) :
    ∃ next ss, Leads fs p r next ∧ selectFrom fs last ps next = .ok ss ∧ s ∈ ss := by
  cases p with
  | recursive =>
    rw [selectFrom] at h
    obtain ⟨x, hx, ss, hf, hm⟩ := exists_of_mem_flatMapTested h hs
    cases x with
    | ok start => exact ⟨start, ss, hx, hf, hm⟩
    | error f => cases hf
  | name n =>
    rw [selectFrom] at h
    split at h
    · cases h
    · exact ⟨_, rs, rfl, h, hs⟩
    · obtain rfl : [] = rs := Except.ok.inj h
      cases hs
  | wild ws =>
    rw [selectFrom] at h
    split at h
    · cases h
    next children hc =>
      obtain ⟨⟨n, e⟩, hn, ss, hf, hm⟩ := exists_of_mem_flatMapTested h hs
      dsimp only at hf
      split at hf
      · cases hf
      split at hf
      next hfits =>
        have hmatch := (Bool.and_eq_true_iff.1 hfits).2
        exact ⟨_, ss, ⟨children, n, e, hc, hn, hmatch, rfl⟩, hf, hm⟩
      · obtain rfl : [] = ss := Except.ok.inj hf
        cases hm

theorem Leads.isPrefix {p : GlobPart} {r next : Route} (h : Leads fs p r next) : r <+: next := by
  cases p with
  | recursive => exact prefix_of_mem_starts h
  | name n =>
    obtain rfl := h
    exact List.prefix_append r [n]
  | wild ws =>
    obtain ⟨children, n, e, -, -, -, rfl⟩ := h
    exact List.prefix_append r [n]

/-- Whatever parts select lies below the directory that they start from. -/
theorem prefix_of_mem_selectFrom {last : Bool} {ps : List GlobPart} {r s : Route}
    {rs : List Route} (h : selectFrom fs last ps r = .ok rs) (hs : s ∈ rs) : r <+: s := by
  induction ps generalizing r rs s with
  | nil =>
    obtain rfl : [r] = rs := Except.ok.inj h
    obtain rfl := List.mem_singleton.1 hs
    exact List.prefix_refl s
  | cons p ps ih =>
    obtain ⟨next, ss, hl, hn, hm⟩ := exists_leads h hs
    exact hl.isPrefix.trans (ih hn hm)

end Glob

namespace Discovery

variable {fs : FileTree} {root path : Route} {names : List String}

def IsUnder (names : List String) (root path : Route) : Prop :=
  ∃ below, path = root ++ below ∧ ∃ name ∈ below.dropLast, name ∈ names

theorem isUnder_append {below : Route} :
    IsUnder names root (root ++ below) ↔ ∃ name ∈ below.dropLast, name ∈ names := by
  constructor
  · rintro ⟨other, he, hn⟩
    rwa [List.append_cancel_left he]
  · exact fun hn => ⟨below, rfl, hn⟩

theorem isExcluded_iff (h : root <+: path) :
    isExcluded names root path ↔ IsUnder names root path := by
  obtain ⟨below, rfl⟩ := h
  rw [isUnder_append]
  simp [isExcluded, directoryParts]

instance (names : List String) (root path : Route) : Decidable (IsUnder names root path) :=
  decidable_of_iff (root <+: path ∧ isExcluded names root path)
    ⟨fun ⟨h, he⟩ => (isExcluded_iff h).1 he,
      fun ⟨below, he, hn⟩ => ⟨⟨below, he.symm⟩, (isExcluded_iff ⟨below, he.symm⟩).2 ⟨below, he, hn⟩⟩⟩

theorem isExcluded_union {first others both : List String}
    (h : ∀ name, name ∈ both ↔ name ∈ first ∨ name ∈ others) :
    isExcluded both root path = (isExcluded first root path || isExcluded others root path) := by
  rw [Bool.eq_iff_iff]
  simp only [isExcluded, List.any_eq_true, List.contains_iff_mem, h, Bool.or_eq_true, and_or_left,
    exists_or]

/-- The answers of a file tree about the patterns: which paths each of them selects below the root, and
which of these are files. -/
structure Answers (fs : FileTree) (root : Route) (patterns : List String)
    (glob : String → List Route) (isFile : Route → Bool) : Prop where
  select : ∀ pattern ∈ patterns,
    ∃ g, Glob.ofString pattern = .ok g ∧ g.select fs root = .ok (glob pattern)
  test : ∀ pattern ∈ patterns, ∀ r ∈ glob pattern, fs.test Entry.isFile r = .ok (isFile r)

variable {glob : String → List Route} {isFile : Route → Bool} {patterns more : List String}

theorem Answers.left (h : Answers fs root (patterns ++ more) glob isFile) :
    Answers fs root patterns glob isFile :=
  ⟨fun p hp => h.select p (List.mem_append_left more hp),
    fun p hp => h.test p (List.mem_append_left more hp)⟩

theorem Answers.right (h : Answers fs root (patterns ++ more) glob isFile) :
    Answers fs root more glob isFile :=
  ⟨fun p hp => h.select p (List.mem_append_right patterns hp),
    fun p hp => h.test p (List.mem_append_right patterns hp)⟩

theorem Answers.isExcluded_iff (h : Answers fs root patterns glob isFile) {pattern : String}
    (hp : pattern ∈ patterns) {r : Route} (hr : r ∈ glob pattern) (names : List String) :
    isExcluded names root r ↔ IsUnder names root r := by
  obtain ⟨g, -, hs⟩ := h.select pattern hp
  exact Discovery.isExcluded_iff (Glob.prefix_of_mem_selectFrom hs hr)

def chosen (glob : String → List Route) (isFile : Route → Bool) (root : Route)
    (excluded : List String) (pattern : String) : List Route :=
  ((glob pattern).mergeSort Route.le).filter fun r => isFile r && !isExcluded excluded root r

def chosenFiles (glob : String → List Route) (isFile : Route → Bool) (root : Route)
    (patterns excluded : List String) : List Route :=
  (patterns.flatMap (chosen glob isFile root excluded)).eraseDups

theorem mem_chosen {excluded : List String} {pattern : String} {r : Route} :
    r ∈ chosen glob isFile root excluded pattern ↔
      r ∈ glob pattern ∧ isFile r ∧ isExcluded excluded root r = false := by
  simp [chosen]

theorem matched_eq (h : Answers fs root patterns glob isFile) {pattern : String}
    (hp : pattern ∈ patterns) (excluded : List String) :
    matched fs excluded root pattern = .ok (chosen glob isFile root excluded pattern) := by
  obtain ⟨g, hg, hs⟩ := h.select pattern hp
  have ht : ∀ r ∈ ((glob pattern).mergeSort Route.le).filter (!isExcluded excluded root ·),
      fs.test Entry.isFile r = .ok (isFile r) := fun r hr =>
    h.test pattern hp r (List.mem_mergeSort.1 (List.mem_of_mem_filter hr))
  simp only [matched, hg, hs, bind, Except.bind, Glob.filterTested_eq ht, List.filter_filter,
    chosen]

/-- Patterns that are neither empty nor absolute are refused for nothing but the directory. -/
theorem find_of_relative {directory : String} {excluded : List String}
    (hp : ∀ pattern ∈ patterns, isRelativePattern pattern) :
    find fs directory patterns excluded = (fs.resolve directory).bind fun root =>
      (fs.test Entry.isDirectory root).bind fun isDirectory =>
        if isDirectory then
          (Glob.flatMapTested (matched fs excluded root) patterns).map fun found =>
            ⟨root, found.eraseDups⟩
        else .error (.notADirectory directory) := by
  have hn : patterns.find? (!isRelativePattern ·) = none := by simpa using hp
  rw [find, hn]
  cases fs.resolve directory with
  | error f => rfl
  | ok root =>
    cases hd : fs.test Entry.isDirectory root with
    | error f => simp [bind, Except.bind, hd]
    | ok b =>
      cases b with
      | false => simp [bind, Except.bind, hd]
      | true =>
        simp [bind, Except.bind, hd]
        rfl

theorem find_eq {directory : String} (hp : ∀ pattern ∈ patterns, isRelativePattern pattern)
    (hr : fs.resolve directory = .ok root) (hd : fs.test Entry.isDirectory root = .ok true)
    (h : Answers fs root patterns glob isFile) (excluded : List String) :
    find fs directory patterns excluded =
      .ok ⟨root, chosenFiles glob isFile root patterns excluded⟩ := by
  rw [find_of_relative hp, hr]
  simp [Except.bind, hd, Glob.flatMapTested_eq fun p hp => matched_eq h hp excluded, chosenFiles]
  rfl

theorem exists_of_find {directory : String} {excluded : List String} {d : Discovery}
    (h : find fs directory patterns excluded = .ok d) :
    fs.resolve directory = .ok d.root ∧ fs.test Entry.isDirectory d.root = .ok true ∧
      ∃ found, Glob.flatMapTested (matched fs excluded d.root) patterns = .ok found ∧
        d.files = found.eraseDups := by
  unfold find at h
  split at h
  · cases h
  obtain ⟨root, hr, h⟩ := exists_of_bind h
  obtain ⟨isDirectory, hd, h⟩ := exists_of_bind h
  split at h
  next hi =>
    obtain ⟨found, hf, h⟩ := exists_of_bind h
    obtain rfl := Except.ok.inj h
    exact ⟨hr, hi ▸ hd, found, hf, rfl⟩
  · cases h

theorem exists_of_matched {excluded : List String} {pattern : String} {rs : List Route}
    (h : matched fs excluded root pattern = .ok rs) :
    ∃ g all, Glob.ofString pattern = .ok g ∧ g.select fs root = .ok all ∧
      Glob.filterTested (fs.test Entry.isFile)
        ((all.mergeSort Route.le).filter (!isExcluded excluded root ·)) = .ok rs := by
  obtain ⟨g, hg, h⟩ := exists_of_bind h
  obtain ⟨all, hs, h⟩ := exists_of_bind h
  exact ⟨g, all, hg, hs, h⟩

theorem nodup_files {directory : String} {excluded : List String} {d : Discovery}
    (h : find fs directory patterns excluded = .ok d) : d.files.Nodup := by
  obtain ⟨-, -, found, -, hfiles⟩ := exists_of_find h
  exact hfiles ▸ nodup_eraseDups found

/-- What is found lies below a directory, is a file and was selected by one of the patterns. -/
theorem selected_of_mem_files {directory : String} {excluded : List String} {d : Discovery}
    (h : find fs directory patterns excluded = .ok d) (hm : path ∈ d.files) :
    fs.resolve directory = .ok d.root ∧ fs.test Entry.isDirectory d.root = .ok true ∧
      fs.test Entry.isFile path = .ok true ∧ ∃ pattern ∈ patterns, ∃ g rs,
        Glob.ofString pattern = .ok g ∧ g.select fs d.root = .ok rs ∧ path ∈ rs := by
  obtain ⟨hr, hd, found, hf, hfiles⟩ := exists_of_find h
  rw [hfiles, List.mem_eraseDups] at hm
  obtain ⟨pattern, hp, rs, hrs, hpath⟩ := Glob.exists_of_mem_flatMapTested hf hm
  obtain ⟨g, all, hg, hs, hkept⟩ := exists_of_matched hrs
  obtain ⟨hall, htest⟩ := Glob.mem_of_mem_filterTested hkept hpath
  exact ⟨hr, hd, htest, pattern, hp, g, all, hg, hs,
    List.mem_mergeSort.1 (List.mem_of_mem_filter hall)⟩

/-- The first pattern that selects one path comes before that of the other, or it is the same one and
the path is the smaller one. -/
def IsBefore (patterns : List String) (glob : String → List Route) (r s : Route) : Prop :=
  patterns.findIdx (r ∈ glob ·) < patterns.findIdx (s ∈ glob ·) ∨
    patterns.findIdx (r ∈ glob ·) = patterns.findIdx (s ∈ glob ·) ∧ r < s

theorem pairwise_chosen (excluded : List String) (pattern : String) :
    (chosen glob isFile root excluded pattern).eraseDups.Pairwise (· < ·) := by
  have hs : (chosen glob isFile root excluded pattern).Pairwise (Route.le · ·) :=
    (Route.pairwise_sorted (glob pattern)).filter _
  refine ((hs.sublist (eraseDups_sublist _)).and (nodup_eraseDups _)).imp ?_
  rintro r s ⟨hle, hne⟩
  by_contra hlt
  exact hne (List.le_antisymm (Route.le_iff.1 hle) hlt)

theorem chosenFiles_append (excluded : List String) :
    chosenFiles glob isFile root (patterns ++ more) excluded =
      chosenFiles glob isFile root patterns excluded ++
        (chosenFiles glob isFile root more excluded).filter
          (· ∉ chosenFiles glob isFile root patterns excluded) := by
  rw [chosenFiles, List.flatMap_append, eraseDups_append_eq]
  congr 1
  refine List.filter_congr fun r _ => ?_
  rw [Bool.eq_iff_iff, Bool.not_eq_true', decide_eq_true_eq, chosenFiles, List.mem_eraseDups,
    ← Bool.not_eq_true, List.contains_iff_mem]

theorem mem_chosenFiles {excluded : List String} {r : Route} :
    r ∈ chosenFiles glob isFile root patterns excluded ↔
      (∃ pattern ∈ patterns, r ∈ glob pattern) ∧ isFile r ∧
        isExcluded excluded root r = false := by
  simp only [chosenFiles, List.mem_eraseDups, List.mem_flatMap, mem_chosen, ← exists_and_right,
    and_assoc]

theorem pairwise_chosenFiles (excluded : List String) :
    (chosenFiles glob isFile root patterns excluded).Pairwise (IsBefore patterns glob) := by
  induction patterns with
  | nil => exact List.Pairwise.nil
  | cons p ps ih =>
    have hfirst {r : Route} (hr : r ∈ (chosen glob isFile root excluded p).eraseDups) :
        (p :: ps).findIdx (r ∈ glob ·) = 0 := by
      simp [List.findIdx_cons, (mem_chosen.1 (List.mem_eraseDups.1 hr)).1]
    -- What only a later pattern contributes is not selected by the first one: it would have passed.
    have hlater {r : Route} (hr : r ∈ (chosenFiles glob isFile root ps excluded).filter
        (!(chosen glob isFile root excluded p).contains ·)) :
        (p :: ps).findIdx (r ∈ glob ·) = ps.findIdx (r ∈ glob ·) + 1 := by
      obtain ⟨hm, hn⟩ := List.mem_filter.1 hr
      have hg : r ∉ glob p := fun hg =>
        have hc := mem_chosen.2 ⟨hg, (mem_chosenFiles.1 hm).2⟩
        by simp [hc] at hn
      simp [List.findIdx_cons, hg]
    rw [chosenFiles, List.flatMap_cons, eraseDups_append_eq, List.pairwise_append]
    refine ⟨?_, ?_, fun r hr s hs => ?_⟩
    · refine (pairwise_chosen excluded p).imp_of_mem fun hr hs hlt => .inr ⟨?_, hlt⟩
      rw [hfirst hr, hfirst hs]
    · refine (ih.filter _).imp_of_mem fun hr hs hb => ?_
      rw [IsBefore, hlater hr, hlater hs]
      exact hb.imp (Nat.add_lt_add_right · 1) (And.imp_left (congrArg (· + 1)))
    · left
      rw [hfirst hr, hlater hs]
      exact Nat.succ_pos _

theorem chosenFiles_union {first others both : List String}
    (h : ∀ name, name ∈ both ↔ name ∈ first ∨ name ∈ others) :
    chosenFiles glob isFile root patterns both =
      (chosenFiles glob isFile root patterns first).filter (!isExcluded others root ·) := by
  have hc : chosen glob isFile root both = fun p =>
      (chosen glob isFile root first p).filter (!isExcluded others root ·) := by
    funext p
    rw [chosen, chosen, List.filter_filter]
    refine List.filter_congr fun r _ => ?_
    rw [isExcluded_union h, Bool.not_or, Bool.and_comm (!isExcluded others root r), Bool.and_assoc]
  rw [chosenFiles, chosenFiles, ← eraseDups_filter, List.filter_flatMap, hc]

/-- Why a directory is searched for nothing: its path cannot be resolved, what it leads to cannot be
looked at, or that is no directory. -/
inductive Refused (fs : FileTree) (directory : String) : Failure → Prop
  | unresolved {f : Failure} : fs.resolve directory = .error f → Refused fs directory f
  | untested {root : Route} {f : Failure} : fs.resolve directory = .ok root →
      fs.test Entry.isDirectory root = .error f → Refused fs directory f
  | notADirectory {root : Route} : fs.resolve directory = .ok root →
      fs.test Entry.isDirectory root = .ok false → Refused fs directory (.notADirectory directory)

theorem Refused.find_eq {directory : String} {f : Failure} (h : Refused fs directory f)
    (hp : ∀ pattern ∈ patterns, isRelativePattern pattern) (excluded : List String) :
    find fs directory patterns excluded = .error f := by
  rw [find_of_relative hp]
  cases h with
  | unresolved hr => rw [hr]; rfl
  | untested hr hd => simp [hr, Except.bind, hd]
  | notADirectory hr hd => simp [hr, Except.bind, hd]

/-- A search without patterns is refused for nothing else. -/
theorem refused_of_find {directory : String} {excluded : List String} {f : Failure}
    (h : find fs directory [] excluded = .error f) : Refused fs directory f := by
  rw [find_of_relative (List.forall_mem_nil _)] at h
  cases hr : fs.resolve directory with
  | error g =>
    obtain rfl : g = f := by simpa [hr, Except.bind] using h
    exact .unresolved hr
  | ok root =>
    cases hd : fs.test Entry.isDirectory root with
    | error g =>
      obtain rfl : g = f := by simpa [hr, hd, Except.bind] using h
      exact .untested hr hd
    | ok b =>
      cases b with
      | false =>
        obtain rfl : .notADirectory directory = f := by simpa [hr, hd, Except.bind] using h
        exact .notADirectory hr hd
      | true => simp [hr, hd, Except.bind, Except.map, Glob.flatMapTested] at h

/-- Discovery by what the file tree answers about the patterns, which are neither empty nor absolute.
Every search is refused just when the directory is. In a directory that is not, a path is found when
some pattern selects it, it is a file and no directory above it, up to the root, is excluded. No path
is found twice, and they come in the order of the first patterns that select them and in their own
order for each pattern. Further patterns add what they find and was not yet found, and further
excluded names take away the paths under them. -/
theorem find_selects (fs : FileTree) (directory : String) (P Q E F : List String)
    (hp : ∀ pattern ∈ P ++ Q, pattern ≠ "" ∧ Path.isAbsolute pattern = false) :
    (∀ f, Refused fs directory f ↔
        ∀ patterns ⊆ P ++ Q, ∀ excluded, find fs directory patterns excluded = .error f) ∧
      ∀ root, fs.resolve directory = .ok root → fs.test Entry.isDirectory root = .ok true →
        ∀ glob isFile, Answers fs root (P ++ Q) glob isFile →
          ∃ found added : List Route, find fs directory P E = .ok ⟨root, found⟩ ∧
            find fs directory Q E = .ok ⟨root, added⟩ ∧
            (∀ r, r ∈ found ↔
              (∃ pattern ∈ P, r ∈ glob pattern) ∧ isFile r ∧ ¬ IsUnder E root r) ∧
            found.Nodup ∧ found.Pairwise (IsBefore P glob) ∧
            find fs directory (P ++ Q) E = .ok ⟨root, found ++ added.filter (· ∉ found)⟩ ∧
            ∀ both, (∀ name, name ∈ both ↔ name ∈ E ∨ name ∈ F) →
              find fs directory P both = .ok ⟨root, found.filter (¬ IsUnder F root ·)⟩ := by
  have hrel : ∀ pattern ∈ P ++ Q, isRelativePattern pattern := fun pattern hm => by
    simp [isRelativePattern, hp pattern hm]
  obtain ⟨hP, hQ⟩ := List.forall_mem_append.1 hrel
  refine ⟨fun f => ⟨fun hf patterns hs excluded => ?_, fun h => ?_⟩,
    fun root hr hd glob isFile h => ⟨_, _, find_eq hP hr hd h.left E, find_eq hQ hr hd h.right E,
      fun r => ?_, nodup_eraseDups _, pairwise_chosenFiles E, ?_, fun both hb => ?_⟩⟩
  · exact hf.find_eq (fun p hm => hrel p (hs hm)) excluded
  · exact refused_of_find (h [] (List.nil_subset _) E)
  · rw [mem_chosenFiles]
    refine and_congr_right fun ⟨p, hm, hg⟩ => and_congr_right fun _ => ?_
    rw [← h.left.isExcluded_iff hm hg, Bool.not_eq_true]
  · rw [find_eq hrel hr hd h, chosenFiles_append]
  · rw [find_eq hP hr hd h.left, chosenFiles_union hb]
    congr 2
    refine List.filter_congr fun r hm => ?_
    obtain ⟨p, hp, hg⟩ := (mem_chosenFiles.1 hm).1
    rw [Bool.eq_iff_iff, Bool.not_eq_true', decide_eq_true_eq,
      ← h.left.isExcluded_iff hp hg, Bool.not_eq_true]

/-- Two files and a link; both patterns below select the link. -/
def nested : FileTree where
  children := [("b.ts", .file [] (.node ⟨"program", true, false, ⟨0, 0⟩, []⟩ [])),
    ("lib", .directory [("a.ts", .file [] (.node ⟨"program", true, false, ⟨0, 0⟩, []⟩ []))]),
    ("a.ts", .link "lib/a.ts")]
  current := []

def selectedOfNested (pattern : String) : List Route :=
  if pattern == "*.ts" then [["b.ts"], ["a.ts"]] else [["a.ts"], ["lib", "a.ts"]]

theorem answers_nested : Answers nested [] ["*.ts", "**/a.ts"] selectedOfNested fun _ => true where
  select := by
    simp only [List.forall_mem_cons]
    exact ⟨⟨⟨[.wild (Wildcard.ofString "*.ts")], false⟩, rfl, rfl⟩,
      ⟨⟨[.recursive, .name "a.ts"], false⟩, rfl, rfl⟩, List.forall_mem_nil _⟩
  test := by decide

theorem find_selects_nested :
    (∀ pattern ∈ ["*.ts", "**/a.ts"], pattern ≠ "" ∧ Path.isAbsolute pattern = false) ∧
      (∃ found added : List Route, find nested "/" ["*.ts"] [] = .ok ⟨[], found⟩ ∧
        find nested "/" ["*.ts", "**/a.ts"] [] =
          .ok ⟨[], found ++ added.filter (· ∉ found)⟩ ∧
        ["a.ts"] ∈ found ∧ ["lib", "a.ts"] ∉ found) ∧
      find nested "/b.ts" ["*.ts"] [] = .error (.notADirectory "/b.ts") := by
  have hp : ∀ pattern ∈ ["*.ts", "**/a.ts"], pattern ≠ "" ∧ Path.isAbsolute pattern = false := by
    decide
  have hr : nested.resolve "/b.ts" = .ok ["b.ts"] := rfl
  have hfile : Refused nested "/b.ts" (.notADirectory "/b.ts") := .notADirectory hr rfl
  obtain ⟨found, added, hfound, -, hm, -, -, hboth, -⟩ :=
    (find_selects nested "/" ["*.ts"] ["**/a.ts"] [] [] hp).2 [] rfl rfl _ _ answers_nested
  refine ⟨hp, ⟨found, added, hfound, hboth, (hm _).2 (by decide), fun hl => ?_⟩,
    ((find_selects nested "/b.ts" ["*.ts"] ["**/a.ts"] [] [] hp).1 _).1 hfile ["*.ts"] (by simp) []⟩
  exact absurd ((hm _).1 hl).1 (by decide)

end Discovery

end ComponentSurvey
