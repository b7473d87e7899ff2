import Mathlib.Data.List.Infix
import ComponentSurvey.Proofs.FileTree.Plain
import ComponentSurvey.Proofs.Session.Isolation

/-!
Files that are refused for their suffix. The usual patterns select every name that ends in the suffix
of a source. A name that is nothing but such a suffix has itself no suffix: it is found, and refused.
Where there are no links, no other file that is found is refused for its suffix.
-/

set_option autoImplicit false

namespace ComponentSurvey

namespace Wildcard

theorem someTail_iff {p : List Char → Bool} {cs : List Char} :
    someTail p cs ↔ ∃ tail, tail <:+ cs ∧ p tail := by
  induction cs with
  | nil => simp [someTail, List.suffix_nil]
  | cons c cs ih => simp [someTail, List.suffix_cons_iff, ih, or_and_right, exists_or]

theorem matchesAll_chars_iff {ds cs : List Char} : matchesAll (ds.map .char) cs ↔ cs = ds := by
  induction ds generalizing cs with
  | nil => simp [matchesAll]
  | cons d ds ih => cases cs <;> simp [matchesAll, admits, ih]

/-- A star and a text match the names that end in the text. -/
theorem matchesName_anyText_iff {ds : List Char} {name : String} :
    matchesName (.anyText :: ds.map .char) name ↔ ds <:+ name.toList := by
  rw [matchesName_eq, matchesAll, someTail_iff]
  simp [matchesAll_chars_iff]

end Wildcard

namespace Convention

def sourceSuffixes : List String := [".ts", ".tsx", ".js", ".jsx"]

theorem sourcePatterns_eq : sourcePatterns = sourceSuffixes.map ("**/*" ++ ·) := by decide

theorem ofString_sourcePattern : ∀ suffix ∈ sourceSuffixes, Glob.ofString ("**/*" ++ suffix) =
    .ok ⟨[.recursive, .wild (.anyText :: suffix.toList.map .char)], false⟩ := by
  decide

end Convention

namespace Path

theorem suffixOfName_append {before tail : List Char} (hb : before ≠ []) (ht : tail ≠ [])
    (hd : '.' ∉ tail) :
    suffixOfName (String.ofList (before ++ '.' :: tail)) = String.ofList ('.' :: tail) := by
  have hpass : ∀ c ∈ tail.reverse, (c != '.') = true := fun c hc => by
    rw [bne_iff_ne]
    rintro rfl
    exact hd (List.mem_reverse.1 hc)
  have hw : ((before ++ '.' :: tail).reverse.takeWhile (· != '.')).reverse = tail := by
    rw [List.reverse_append, List.reverse_cons, List.append_assoc,
      List.takeWhile_append_of_pos hpass]
    simp
  have hl : before.length ≠ 0 := fun h => hb (List.length_eq_zero_iff.1 h)
  have hcond : (tail.isEmpty || decide ((before ++ '.' :: tail).length ≤ tail.length) ||
      (before ++ '.' :: tail).length - tail.length - 1 == 0) = false := by
    simp [ht]
    omega
  rw [suffixOfName, String.toList_ofList]
  simp only [hw, hcond, Bool.false_eq_true, if_false]

end Path

namespace Language

open Convention

theorem ofSuffix_source : ∀ suffix ∈ sourceSuffixes, ∃ l ∈ all, ofSuffix suffix = .ok l := by
  decide

theorem ofSuffix_bare : ∀ name ∈ sourceSuffixes,
    ofSuffix (Path.suffixOfName name) = .error (.unsupportedSuffix "") := by
  decide

theorem dotted_of_source : ∀ suffix ∈ sourceSuffixes,
    ∃ tail, suffix.toList = '.' :: tail ∧ tail ≠ [] ∧ '.' ∉ tail := by
  simp [sourceSuffixes]

/-- A name that ends in the suffix of a source has it, unless it is nothing else. -/
theorem ofSuffix_of_ending {suffix name : String} (hs : suffix ∈ sourceSuffixes)
    (hn : suffix.toList <:+ name.toList) (hb : name ∉ sourceSuffixes) :
    ∃ l, ofSuffix (Path.suffixOfName name) = .ok l := by
  obtain ⟨tail, ht, hne, hd⟩ := dotted_of_source suffix hs
  obtain ⟨before, hbefore⟩ := hn
  obtain rfl : name = String.ofList (before ++ suffix.toList) := by
    rw [hbefore, String.ofList_toList]
  have hnil : before ≠ [] := by
    rintro rfl
    exact hb (by simpa using hs)
  obtain ⟨l, -, hl⟩ := ofSuffix_source suffix hs
  refine ⟨l, ?_⟩
  rwa [ht, Path.suffixOfName_append hnil hne hd, ← ht, String.ofList_toList]

end Language

namespace Survey

theorem ofSource_unsupported_iff (table : Weights) (source : Source) (t : Tree)
    {path text : String} : ofSource table path source t = .error (.unsupportedLanguage text) ↔
      Language.ofPath path = .error (.unsupportedLanguage text) := by
  rw [ofSource, checkedTree_eq]
  cases Language.ofPath path with
  | error f => simp [Except.bind, Except.map]
  | ok l =>
    cases t.firstBroken? with
    | none => simp [Except.bind, Except.map]
    | some b =>
      have hne : b.syntaxFailure source path ≠ .unsupportedLanguage text := by
        intro h
        cases h
      simp [Except.bind, Except.map, hne]

end Survey

namespace Session

variable {fs : FileTree} {s : Session} {table : Weights} {held : Holding} {path : String}
  {k : Route}

/-- A file is refused for its suffix whatever is remembered: no report of it can have been kept. -/
theorem Faithful.alone_unsupported_iff (h : s.Faithful table held) (hk : fs.resolve path = .ok k)
    {bytes : List UInt8} {tree : Tree} (hr : fs.read k = .ok (bytes, tree)) {text : String} :
    s.alone fs path = .error (.unsupportedLanguage text) ↔
      Language.ofPath k.text = .error (.unsupportedLanguage text) := by
  rw [alone_resolved hk]
  cases hl : s.cache.lookup k with
  | some r =>
    obtain ⟨bytes, tree, -, hv⟩ := h.isSurvey k r (mem_of_lookup hl)
    rw [known_of_lookup hl, ← Survey.ofSource_unsupported_iff table (Source.ofBytes bytes) tree, hv]
  | none => rw [known_of_new hl, FileTree.survey, hr, Survey.ofSource_unsupported_iff]

end Session

namespace FileTree

open Convention

structure IsSource (fs : FileTree) (p : Route) : Prop where
  isDirect : fs.IsDirect p
  read : ∃ bytes tree, fs.read p = .ok (bytes, tree)
  ending : ∃ name suffix, p.getLast? = some name ∧ suffix ∈ sourceSuffixes ∧
    suffix.toList <:+ name.toList

variable {fs : FileTree} {p : Route}

/-- Nothing else is found by the usual patterns where there are no links. -/
theorem IsPlain.isSource_of_found (h : fs.IsPlain) {directory : String} {excluded : List String}
    {d : Discovery} (hd : Discovery.find fs directory sourcePatterns excluded = .ok d)
    (hp : p ∈ d.files) : fs.IsSource p := by
  obtain ⟨hr, hdirectory, hfile, pattern, hpattern, g, rs, hg, hs, hm⟩ :=
    Discovery.selected_of_mem_files hd hp
  rw [sourcePatterns_eq] at hpattern
  obtain ⟨suffix, hsuffix, rfl⟩ := List.mem_map.1 hpattern
  obtain rfl := Except.ok.inj ((ofString_sourcePattern suffix hsuffix).symm.trans hg)
  have hroot := h.isName_of_test (h.isProper_of_resolve hr) hdirectory
  have hname := Glob.isName_of_mem_selectFrom h hroot (by simp) hs hm
  obtain ⟨name, hlast, hmatch⟩ := Glob.exists_name_of_mem_selectFrom [.recursive] hs hm
  obtain ⟨e, he, hisFile⟩ := exists_of_test hfile
  refine ⟨h.isDirect hname, ?_, name, suffix, hlast, hsuffix,
    Wildcard.matchesName_anyText_iff.1 hmatch⟩
  cases e with
  | file bytes tree => exact ⟨bytes, tree, by simp [FileTree.read, he]⟩
  | directory children => cases hisFile
  | link target => cases hisFile

theorem IsSource.ofPath_unsupported_iff (h : fs.IsSource p) {text : String} :
    Language.ofPath p.text = .error (.unsupportedLanguage text) ↔
      (∃ name ∈ sourceSuffixes, p.getLast? = some name) ∧
        text = "Unsupported file extension: " := by
  obtain ⟨name, ending, hlast, hs, hn⟩ := h.ending
  have hpath : Language.ofPath p.text = Language.ofSuffix (Path.suffixOfName name) := by
    rw [Language.ofPath, Path.suffix, Path.name, Route.parts_text h.isDirect.isName, hlast]
    rfl
  rw [hpath, hlast]
  by_cases hb : name ∈ sourceSuffixes
  · simp [Language.ofSuffix_bare name hb, Failure.unsupportedSuffix, hb, eq_comm]
  · obtain ⟨l, hl⟩ := Language.ofSuffix_of_ending hs hn hb
    simp [hl, hb]

end FileTree

namespace Session

open Convention

variable {fs : FileTree} {s : Session} {table : Weights} {held : Holding} {directory : String}
  {files : List Route}

theorem mem_failures_iff {p : Route} {f : Failure} :
    (p, f) ∈ files.filterMap (fun p => (failureOf? (s.alone fs p.text)).map (p, ·)) ↔
      p ∈ files ∧ s.alone fs p.text = .error f := by
  rw [List.mem_filterMap]
  constructor
  · rintro ⟨q, hq, he⟩
    cases hv : s.alone fs q.text with
    | ok v => simp [hv, failureOf?] at he
    | error e =>
      obtain ⟨rfl, rfl⟩ : q = p ∧ e = f := by simpa [hv, failureOf?] using he
      exact ⟨hq, hv⟩
  · rintro ⟨hp, hv⟩
    exact ⟨p, hp, by rw [hv]; rfl⟩

/-- Just those files of a batch are refused for their suffix whose name is nothing else. -/
theorem Faithful.unsupported_iff (h : s.Faithful table held) (hfs : fs.IsPlain)
    (hf : s.found fs directory none = .ok files) (workers : Int) :
    ∃ batch, (s.analyzeDirectory fs directory none workers).1 = .ok batch ∧
      ∀ p text, (p, .unsupportedLanguage text) ∈ batch.failures ↔
        p ∈ files ∧ (∃ name ∈ sourceSuffixes, p.getLast? = some name) ∧
          text = "Unsupported file extension: " := by
  have hsource : ∀ p ∈ files, fs.IsSource p := by
    obtain ⟨d, hd, rfl⟩ := exists_find_of_found hf
    exact fun p => hfs.isSource_of_found hd
  have hn : files.findSome? (fs.unresolved? ·.text) = none :=
    List.findSome?_eq_none_iff.2 fun p hp => by
      rw [FileTree.unresolved?, FileTree.resolve_direct (hsource p hp).isDirect]
      rfl
  obtain ⟨os, now, ha, hb⟩ := accounts_analyzeDirectory hf workers
  have hc := ha.conclude_eq
  rw [hn, ← hb] at hc
  refine ⟨_, hc, fun p text => ?_⟩
  rw [ha.failures_eq hn, mem_failures_iff]
  refine and_congr_right fun hp => ?_
  obtain ⟨bytes, tree, hr⟩ := (hsource p hp).read
  rw [h.alone_unsupported_iff (FileTree.resolve_direct (hsource p hp).isDirect) hr,
    (hsource p hp).ofPath_unsupported_iff]

/-- A project with two empty files; the name of one is nothing but a suffix. -/
def bareAndNamed : FileTree where
  children := [(".ts", .file [] (.node ⟨"program", true, false, ⟨0, 0⟩, []⟩ [])),
    ("a.ts", .file [] (.node ⟨"program", true, false, ⟨0, 0⟩, []⟩ []))]
  current := []

theorem isPlain_bareAndNamed : bareAndNamed.IsPlain where
  top := by
    refine .directory (by decide) fun c hc => ?_
    rcases List.mem_pair.1 hc with rfl | rfl <;> exact .file _ _
  current := List.forall_mem_nil _

def selectedOfBareAndNamed (pattern : String) : List Route :=
  if pattern == "**/*.ts" then [[".ts"], ["a.ts"]] else []

theorem answers_bareAndNamed :
    Discovery.Answers bareAndNamed [] sourcePatterns selectedOfBareAndNamed fun _ => true where
  select := by
    rw [sourcePatterns_eq]
    refine List.forall_mem_map.2 fun suffix hs => ⟨_, ofString_sourcePattern suffix hs, ?_⟩
    revert suffix
    decide
  test := by decide

theorem found_bareAndNamed :
    ∃ files, (Session.new [] none).found bareAndNamed "/" none = .ok files ∧
      [".ts"] ∈ files ∧ ["a.ts"] ∈ files := by
  have hd : Discovery.find bareAndNamed "/" sourcePatterns excludedDirectories = _ :=
    Discovery.find_eq (by decide) rfl (by decide) answers_bareAndNamed excludedDirectories
  refine ⟨_, congrArg (Except.map _) hd, ?_, ?_⟩
  · exact Discovery.mem_chosenFiles.2 (by decide)
  · exact Discovery.mem_chosenFiles.2 (by decide)

/-- The usual patterns find a file that is then refused for its suffix. -/
theorem bare_suffix_refused : bareAndNamed.IsPlain ∧
    ∃ batch, ((Session.new [] none).analyzeDirectory bareAndNamed "/" none 1).1 = .ok batch ∧
      ([".ts"], .unsupportedLanguage "Unsupported file extension: ") ∈ batch.failures := by
  obtain ⟨files, hf, hbare, -⟩ := found_bareAndNamed
  obtain ⟨batch, hb, hm⟩ :=
    (Faithful.new [] none fun _ _ _ => True).unsupported_iff isPlain_bareAndNamed hf 1
  exact ⟨isPlain_bareAndNamed, batch, hb, (hm _ _).2 ⟨hbare, by decide, rfl⟩⟩

end Session

namespace Bench

open Convention

/-- The usual patterns select names whose suffix has a language, and the names that are nothing but
such a suffix, which have none. Where there are no links, and in whatever state the session is, a batch
of the files that these patterns find fails only as its search for files does, and the files refused
for their suffix are those found under names of the second kind. -/
theorem refused_for_no_suffix (files : FileTree) (weights : Weights)
    (excluded : Option (List String)) (moves : List Move) (directory : String) (workers : Int) :
    let b := (start files weights excluded).run moves
    let fs := b.files
    let s := b.session
    let batch := (s.analyzeDirectory fs directory none workers).1
    (∀ pattern ∈ sourcePatterns, ∃ ws, Glob.ofString pattern = .ok ⟨[.recursive, .wild ws], false⟩ ∧
      ∀ name, Wildcard.matchesName ws name →
        ((∃ l, Language.ofSuffix (Path.suffixOfName name) = .ok l) ↔ name ∉ sourceSuffixes)) ∧
    (fs.IsPlain → match s.found fs directory none with
      | .error f => batch = .error f
      | .ok found => ∃ result, batch = .ok result ∧
        ∀ p text, (p, .unsupportedLanguage text) ∈ result.failures ↔
          p ∈ found ∧ (∃ name ∈ sourceSuffixes, p.getLast? = some name) ∧
            text = "Unsupported file extension: ") := by
  intro b fs s batch
  refine ⟨fun pattern hpattern => ?_, fun hfs => ?_⟩
  · rw [sourcePatterns_eq] at hpattern
    obtain ⟨suffix, hs, rfl⟩ := List.mem_map.1 hpattern
    refine ⟨_, ofString_sourcePattern suffix hs, fun name hm => ⟨?_, fun hb => ?_⟩⟩
    · rintro ⟨l, hl⟩ hb
      cases hl.symm.trans (Language.ofSuffix_bare name hb)
    · exact Language.ofSuffix_of_ending hs (Wildcard.matchesName_anyText_iff.1 hm) hb
  · cases hf : s.found fs directory none with
    | error f => exact congrArg Prod.fst (Session.analyzeDirectory_refused hf workers)
    | ok found =>
      exact (faithful_run files weights excluded moves).unsupported_iff hfs hf workers

theorem refused_for_no_suffix_beside_named :
    let b := (start Session.bareAndNamed [] none).run []
    b.files.IsPlain ∧ ∃ found batch, b.session.found b.files "/" none = .ok found ∧
      (b.session.analyzeDirectory b.files "/" none 1).1 = .ok batch ∧
      [".ts"] ∈ found ∧
      ([".ts"], .unsupportedLanguage "Unsupported file extension: ") ∈ batch.failures ∧
      ["a.ts"] ∈ found ∧ ∀ text, (["a.ts"], .unsupportedLanguage text) ∉ batch.failures := by
  intro b
  have hplain := Session.isPlain_bareAndNamed
  have h := (refused_for_no_suffix Session.bareAndNamed [] none [] "/" 1).2 hplain
  obtain ⟨found, hf, hbare, hnamed⟩ := Session.found_bareAndNamed
  have hfound : b.session.found b.files "/" none = .ok found := hf
  rw [hfound] at h
  obtain ⟨batch, hb, hm⟩ := h
  refine ⟨hplain, found, batch, hfound, hb, hbare, (hm _ _).2 ⟨hbare, by decide, rfl⟩, hnamed, ?_⟩
  intro text he
  exact absurd ((hm _ _).1 he).2.1 (by decide)

end Bench

end ComponentSurvey
