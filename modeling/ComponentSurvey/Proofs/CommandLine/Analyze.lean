import ComponentSurvey.CommandLine
import ComponentSurvey.Proofs.FileTree.Writing
import ComponentSurvey.Proofs.Record.Reals
import ComponentSurvey.Proofs.Record.Text
import ComponentSurvey.Proofs.Session.Isolation
import ComponentSurvey.Proofs.Text.Lenient

/-!
The command `analyze`. What it reports is what the analysis of its path gives, whether or not the
analysis is profiled; a failure of the analysis ends the command before anything is written.
-/

set_option autoImplicit false

namespace ComponentSurvey

namespace Json.Grammar

theorem Element.append_blanks {cs bs : List Char} {j : Json} (h : Element cs j)
    (hb : Blanks bs) : Element (cs ++ bs) j := by
  cases h with
  | mk hbefore hv hafter =>
    rw [List.append_assoc]
    exact .mk hbefore hv (List.forall_mem_append.2 ⟨hafter, hb⟩)

theorem Document.newline {text : String} {j : Json} (h : Document text j) :
    Document (text ++ "\n") j := by
  rw [Document, String.toList_append]
  exact Element.append_blanks h (List.forall_mem_singleton.2 rfl)

end Json.Grammar

def Survey.IsUsual (v : Survey) : Prop := ∃ path source t, ofSource [] path source t = .ok v

theorem FileTree.isUsual_of_survey {fs : FileTree} {k : Route} {v : Survey}
    (h : fs.survey (Weights.completed []) k = .ok v) : v.IsUsual := by
  rw [FileTree.survey_eq] at h
  cases hr : fs.read k with
  | error f => simp [hr, Except.bind] at h
  | ok content =>
    obtain ⟨bytes, tree⟩ := content
    simp only [hr, Except.bind] at h
    exact ⟨k.text, Source.ofBytes bytes, tree, h⟩

namespace Session

variable {fs : FileTree} {excluded : Option (List String)}

theorem isUsual_of_alone {path : String} {v : Survey}
    (h : (Session.new [] excluded).alone fs path = .ok v) : v.IsUsual := by
  cases hk : fs.resolve path with
  | error f =>
    rw [alone_refused hk] at h
    cases h
  | ok k =>
    rw [alone_resolved hk] at h
    exact FileTree.isUsual_of_survey h

theorem isUsual_of_analyzeDirectory {directory : String} {patterns : Option (List String)}
    {workers : Int} {b : Batch}
    (h : ((Session.new [] excluded).analyzeDirectory fs directory patterns workers).1 = .ok b) :
    ∀ v ∈ b.results.map (·.survey), v.IsUsual := by
  cases hd : (Session.new [] excluded).found fs directory patterns with
  | error f =>
    rw [analyzeDirectory_refused hd] at h
    cases h
  | ok files =>
    obtain ⟨os, now, ha, hb⟩ := accounts_analyzeDirectory hd workers
    rw [hb, ha.conclude_eq] at h
    cases hn : files.findSome? (fs.unresolved? ·.text) with
    | some f => simp [hn] at h
    | none =>
      rw [hn] at h
      obtain rfl := Except.ok.inj h
      intro v hv
      rw [ha.surveys_eq hn] at hv
      obtain ⟨p, -, hp⟩ := List.mem_filterMap.1 hv
      cases hq : (Session.new [] excluded).alone fs p.text with
      | error f => simp [hq, Except.toOption] at hp
      | ok w =>
        rw [hq] at hp
        obtain rfl := Option.some.inj hp
        exact isUsual_of_alone hq

end Session

namespace CommandLine

theorem exists_of_map_eq_ok {ε α β : Type} {x : Except ε α} {f : α → β} {b : β}
    (h : x.map f = .ok b) : ∃ a, x = .ok a ∧ f a = b := by
  cases x with
  | error e => cases h
  | ok a => exact ⟨a, rfl, Except.ok.inj h⟩

theorem eq_error_of_map {ε α β : Type} {x : Except ε α} {f : α → β} {e : ε}
    (h : x.map f = .error e) : x = .error e := by
  cases x with
  | error e' => exact congrArg _ (Except.error.inj h)
  | ok a => cases h

def analysis (fs : FileTree) (path : String) (patterns excluded : List String) (workers : Int) :
    Except Failure (List Survey × List (Route × Failure)) :=
  let s := Session.new [] (if excluded.isEmpty then none else some excluded)
  match isFile fs path with
  | .error f => .error f
  | .ok true => (s.analyzeFile fs path).1.map fun r => ([r.survey], [])
  | .ok false => (s.analyzeDirectory fs path (some patterns) workers).1.map fun b =>
      (b.results.map (·.survey), b.failures)

section Analysis

variable {fs : FileTree} {path : String} {patterns excluded : List String} {workers : Int}
  {surveys : List Survey} {failures : List (Route × Failure)}

theorem isUsual_of_analysis
    (h : analysis fs path patterns excluded workers = .ok (surveys, failures)) :
    ∀ v ∈ surveys, v.IsUsual := by
  unfold analysis at h
  cases hf : isFile fs path with
  | error f => simp [hf] at h
  | ok b =>
    cases b with
    | true =>
      simp only [hf] at h
      obtain ⟨r, hr, he⟩ := exists_of_map_eq_ok h
      obtain ⟨rfl, -⟩ := Prod.mk.inj he
      have ha := congrArg (Except.map Report.survey) hr
      exact List.forall_mem_singleton.2 (Session.isUsual_of_alone ha)
    | false =>
      simp only [hf] at h
      obtain ⟨b, hb, he⟩ := exists_of_map_eq_ok h
      obtain ⟨rfl, -⟩ := Prod.mk.inj he
      exact Session.isUsual_of_analyzeDirectory hb

theorem saveProfile_ok {f : Findings} {name : String}
    (h : name ≠ "" → ∃ r, f.files.writableRoute name = .ok r) :
    ∃ g, saveProfile name f = .ok g ∧ g.surveys = f.surveys ∧ g.failures = f.failures ∧
      f.files.SameWays g.files := by
  unfold saveProfile
  by_cases hn : name = ""
  · exact ⟨_, if_pos (by simpa using hn), rfl, rfl, .refl _⟩
  · obtain ⟨r, hr⟩ := h hn
    simp only [beq_iff_eq, hn, if_false, hr]
    exact ⟨_, rfl, rfl, rfl, FileTree.sameWays_put hr _ _⟩

def Writable (fs : FileTree) (name? : Option String) : Prop :=
  ∀ name, name? = some name → name ≠ "" → ∃ r, fs.writableRoute name = .ok r

variable {profile : Option String}

theorem findings_eq : findings fs path patterns excluded workers profile =
    let s := Session.new [] (if excluded.isEmpty then none else some excluded)
    match isFile fs path with
    | .error f => .error f
    | .ok true => (s.analyzeFile fs path).1.map fun r => ⟨[r.survey], [], [], fs⟩
    | .ok false => (s.analyzeDirectory fs path (some patterns) workers).1.bind fun b =>
        match profile with
        | none => .ok (.ofBatch fs b)
        | some name => saveProfile name (.ofBatch fs b) := by
  unfold findings
  cases isFile fs path with
  | error f => rfl
  | ok b =>
    cases b with
    | true =>
      dsimp only [bind, Except.bind]
      cases (Session.analyzeFile fs path _).1 <;> rfl
    | false => rfl

theorem findings_of_error {f : Failure}
    (h : analysis fs path patterns excluded workers = .error f) (profile : Option String) :
    findings fs path patterns excluded workers profile = .error f := by
  rw [findings_eq]
  unfold analysis at h
  cases hf : isFile fs path with
  | error e =>
    rw [hf] at h
    exact congrArg _ (Except.error.inj h)
  | ok b =>
    rw [hf] at h
    cases b with
    | true =>
      have hr := eq_error_of_map h
      simp only [hr]
      rfl
    | false =>
      have hr := eq_error_of_map h
      simp only [hr]
      rfl

theorem findings_of_ok (h : analysis fs path patterns excluded workers = .ok (surveys, failures))
    (hp : Writable fs profile) :
    ∃ f, findings fs path patterns excluded workers profile = .ok f ∧ f.surveys = surveys ∧
      f.failures = failures ∧ fs.SameWays f.files := by
  rw [findings_eq]
  unfold analysis at h
  cases hf : isFile fs path with
  | error e =>
    rw [hf] at h
    cases h
  | ok b =>
    rw [hf] at h
    cases b with
    | true =>
      obtain ⟨r, hr, he⟩ := exists_of_map_eq_ok h
      obtain ⟨rfl, rfl⟩ := Prod.mk.inj he
      simp only [hr]
      exact ⟨_, rfl, rfl, rfl, .refl fs⟩
    | false =>
      obtain ⟨b, hb, he⟩ := exists_of_map_eq_ok h
      obtain ⟨rfl, rfl⟩ := Prod.mk.inj he
      simp only [hb]
      cases profile with
      | none => exact ⟨_, rfl, rfl, rfl, .refl fs⟩
      | some name => exact saveProfile_ok (f := .ofBatch fs b) (hp name rfl)

theorem parse?_payload (h : ∀ v ∈ surveys, v.IsUsual) :
    Json.parse? (payload surveys) = some (.array (surveys.map Survey.toJson)) ∧
      Json.parse? (payload surveys ++ "\n") = some (.array (surveys.map Survey.toJson)) := by
  have hr : ∀ x ∈ (Json.array (surveys.map Survey.toJson)).reals, x.IsReadBack := by
    intro x hx
    rw [Json.reals, Json.realsOfItems_eq, List.flatMap_map] at hx
    obtain ⟨v, hv, hx⟩ := List.mem_flatMap.1 hx
    obtain ⟨path, source, t, hu⟩ := h v hv
    exact Survey.isReadBack_of_usual hu x hx
  have hd := Json.document_written (some 2) hr
  exact ⟨Json.parse?_of_document hd, Json.parse?_of_document hd.newline⟩

end Analysis

/-- The document that a command delivers: what is in the file asked for, or else the output. -/
def Outcome.payload? (out : Outcome) (output : Option String) : Option String :=
  match output.filter (· != "") with
  | none => some out.stdout
  | some name =>
    match out.files.locate name with
    | .ok (.file bytes _) => some (Utf8.decode bytes)
    | _ => none

/-- The command succeeds and delivers the surveys as one document, on the output only if no file was
asked for, and what it prints ends with the totals and the failures. -/
structure Outcome.Reports (out : Outcome) (output : Option String) (surveys : List Survey)
    (failures : List (Route × Failure)) : Prop where
  exit_eq : out.exit = 0
  raised_eq : out.raised = none
  delivers : ∃ text, out.payload? output = some text ∧
    Json.parse? text = some (.array (surveys.map Survey.toJson))
  stdout_eq : ∀ name, output = some name → name ≠ "" → out.stdout = ""
  printed_eq : ∃ before, out.printed =
    before ++ .table (summary ⟨surveys, failures, [], out.files⟩) ::
      failures.map fun (path, e) => failureLine path e

theorem reports_delivered {f : Findings} (hu : ∀ v ∈ f.surveys, v.IsUsual) {output : Option String}
    (ho : Writable f.files output) (printed : List Printed) :
    (delivered f output printed).Reports output f.surveys f.failures := by
  obtain ⟨htext, hline⟩ := parse?_payload hu
  cases hname : output.filter (· != "") with
  | none =>
    have hd : delivered f output printed =
        reported f (payload f.surveys ++ "\n") printed f.files := by
      rw [delivered, hname]
    rw [hd]
    refine ⟨rfl, rfl, ⟨_, ?_, hline⟩, fun name h hne => ?_, ⟨printed, rfl⟩⟩
    · rw [Outcome.payload?, hname]
      rfl
    · rw [h, Option.filter_some, if_pos (by simpa using hne)] at hname
      cases hname
  | some name =>
    obtain ⟨hn, hne⟩ := Option.filter_eq_some_iff.1 hname
    obtain ⟨r, hr⟩ := ho name hn (by simpa using hne)
    have hd : delivered f output printed =
        reported f "" (printed ++ [.line ("Output: " ++ name)])
          (f.files.put r (.file (Utf8.encode (payload f.surveys)) (.node default []))) := by
      rw [delivered, hname]
      simp only [hr]
    rw [hd]
    refine ⟨rfl, rfl, ⟨_, ?_, htext⟩, fun _ _ _ => rfl, ⟨_, rfl⟩⟩
    rw [Outcome.payload?, hname]
    simp only [reported, FileTree.locate_put hr]
    exact congrArg some (Utf8.decode_encode _)

structure Accepts (fs : FileTree) (args : List String) (o : AnalyzeOptions) : Prop where
  parse_eq : Request.parse args = .run (.analyze o)
  hasNull_eq : Path.hasNull o.path = false
  pathExists : pathExists fs o.path

theorem Accepts.run_eq {fs : FileTree} {args : List String} {o : AnalyzeOptions}
    (h : Accepts fs args o) : run fs args = .outcome (analyze fs o) := by
  rw [run, h.parse_eq]
  simp only [Command.path, h.hasNull_eq, Bool.false_eq_true, if_false, h.pathExists, if_true]
  rfl

section Options

variable {fs : FileTree} {o : AnalyzeOptions}

theorem analyze_of_error {f : Failure}
    (h : analysis fs o.path o.patterns o.excluded o.workers = .error f) :
    (analyze fs o).exit = 1 ∧ (analyze fs o).stdout = "" ∧ (analyze fs o).files = fs := by
  unfold analyze
  rw [findings_of_error h o.profile]
  dsimp only [failed]
  split <;> exact ⟨rfl, rfl, rfl⟩

theorem analyze_of_ok {surveys : List Survey} {failures : List (Route × Failure)}
    (h : analysis fs o.path o.patterns o.excluded o.workers = .ok (surveys, failures))
    (hp : Writable fs o.profile) (ho : Writable fs o.output) :
    (analyze fs o).Reports o.output surveys failures := by
  obtain ⟨f, hf, rfl, rfl, hways⟩ := findings_of_ok h hp
  have hout : Writable f.files o.output := fun name hn hne =>
    (ho name hn hne).imp fun r => hways.writableRoute
  unfold analyze
  rw [hf]
  exact reports_delivered (isUsual_of_analysis h) hout _

end Options

/-- When the analysis of the path fails, the exit code is 1, nothing is put out and no file is changed.
Otherwise the command succeeds, whatever files of a directory failed, and delivers the surveys that the
analysis gives. The analysis knows nothing of the profile. -/
theorem run_analyze (fs : FileTree) (args : List String) (o : AnalyzeOptions)
    (ha : Accepts fs args o) (hp : Writable fs o.profile) (ho : Writable fs o.output) :
    ∃ out, run fs args = .outcome out ∧
      match analysis fs o.path o.patterns o.excluded o.workers with
      | .error _ => out.exit = 1 ∧ out.stdout = "" ∧ out.files = fs
      | .ok (surveys, failures) => out.Reports o.output surveys failures := by
  refine ⟨analyze fs o, ha.run_eq, ?_⟩
  cases h : analysis fs o.path o.patterns o.excluded o.workers with
  | error f => exact analyze_of_error h
  | ok found => exact analyze_of_ok h hp ho

/-- A directory with an empty file and one that holds a single parenthesis. -/
def halfBroken : FileTree where
  children := [("src", .directory [
    ("a.ts", .file [] (.node ⟨"program", true, false, ⟨0, 0⟩, []⟩ [])),
    ("b.ts", .file [40] (.node ⟨"program", true, false, ⟨0, 1⟩, []⟩
      [.node ⟨"ERROR", true, false, ⟨0, 1⟩, []⟩ []]))])]
  current := []

theorem run_analyze_halfBroken :
    ∃ out surveys failures,
      run halfBroken ["analyze", "src", "-p", "a.ts", "-pb.ts", "--profile", "p", "-o", "out.json"] =
          .outcome out ∧
        out.Reports (some "out.json") surveys failures ∧
        surveys.map (·.filePath) = ["/src/a.ts"] ∧ failures.map (·.1) = [["src", "b.ts"]] := by
  have hw {name : String} (h : (halfBroken.writableRoute name).toOption.isSome) :
      Writable halfBroken (some name) := by
    intro _ hname _
    obtain rfl := Option.some.inj hname
    cases hr : halfBroken.writableRoute name with
    | error f => simp [hr, Except.toOption] at h
    | ok r => exact ⟨r, rfl⟩
  obtain ⟨out, hrun, h⟩ := run_analyze halfBroken
    ["analyze", "src", "-p", "a.ts", "-pb.ts", "--profile", "p", "-o", "out.json"]
    ⟨"src", some "out.json", ["a.ts", "b.ts"], [], 1, some "p", false⟩
    ⟨rfl, rfl, by decide +kernel⟩ (hw (by decide +kernel))
    (hw (by decide +kernel))
  have hfound : (analysis halfBroken "src" ["a.ts", "b.ts"] [] 1).toOption.map
      (fun x => (x.1.map (·.filePath), x.2.map (·.1))) = some (["/src/a.ts"], [["src", "b.ts"]]) := by
    decide +kernel
  cases ha : analysis halfBroken "src" ["a.ts", "b.ts"] [] 1 with
  | error f => simp [ha, Except.toOption] at hfound
  | ok found =>
    simp only [ha] at h hfound
    obtain ⟨hs, hf⟩ := Prod.mk.inj (Option.some.inj hfound)
    exact ⟨out, found.1, found.2, hrun, h, hs, hf⟩

end CommandLine

end ComponentSurvey
