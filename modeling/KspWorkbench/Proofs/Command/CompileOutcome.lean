import KspWorkbench.Command.Program
import KspWorkbench.Proofs.Command.CheckOutcome
import KspWorkbench.Proofs.Text.Utf8

/-!
# What a compilation ends with

A compilation can fail at four points: no temporary file, a run that does not come to its end, a
compiler that ends with a code other than 0, and a temporary file that cannot be read. The third one
makes a report like a success does, so what the command tells its caller is decided in two places.

* **`CompilerRun`** — what a compilation has from the machine: the run of the compiler, and the
  files after it.
* **`compileTold`** — a compilation in which the events of the run come through in any order;
  `result_compile` has the order of `startEvents`.
* **`Concludes`** — the five ways in which a compilation ends after the compiler has run.
* **`compile_outcome`** — when there is an error, what a report says, and what the command does.
-/

namespace KspWorkbench

variable {σ : Type}

/-! ## §1 — what a compilation has from the machine -/

/-- A file is read as a text just when its bytes are the encoding of that text. -/
theorem Machine.readText_eq_ok_iff {m : Machine σ} {s : σ} {path text : String} :
    m.readText s path = .ok text ↔ m.fileContent s path = .ok (Utf8.encode text) := by
  have hdecode : ∀ content : List UInt8,
      decodeFile content = .ok text ↔ content = Utf8.encode text := by
    intro content
    rw [Utf8.encode_eq_flatMap, ← Utf8.decode?_eq_some_iff]
    unfold decodeFile
    cases Utf8.decode? content with
    | none => simp
    | some chars =>
      rw [Except.ok.injEq, Option.some.injEq, ← String.toList_inj, String.toList_ofList]
  show (m.fileContent s path >>= decodeFile) = .ok text ↔ _
  cases m.fileContent s path with
  | error fault => simp [bind, Except.bind]
  | ok content => simpa [bind, Except.bind] using hdecode content

/-- Reading a text fails when there is no file, and also when its bytes encode no text. -/
theorem Machine.readText_eq_error_iff {m : Machine σ} {s : σ} {path : String} :
    (∃ fault, m.readText s path = .error fault) ↔
      ∀ text, m.fileContent s path ≠ .ok (Utf8.encode text) := by
  simp only [ne_eq, ← Machine.readText_eq_ok_iff]
  cases m.readText s path with
  | error fault => simp
  | ok text => simp

/-- The run of the compiler in a compilation. -/
structure CompilerRun (σ : Type) where
  -- the temporary file, if no output file was named.
  scratch : Option String
  -- what became of the start of the compiler.
  started : Except RunError Process
  -- the machine after the run.
  machine : σ

/-- Runs the compiler into a file. -/
def Machine.runInto (m : Machine σ) (s : σ) (o : Options) (input target : String)
    (scratch : Option String) : CompilerRun σ :=
  let (started, s) := m.start s (Request.build o input (some target))
  ⟨scratch, started, s⟩

/-- Runs the compiler into `output`, or else into a temporary file, if there can be one. -/
def Machine.runCompiler (m : Machine σ) (s : σ) (o : Options) (input : String) :
    Option String → Except String (CompilerRun σ)
  | some output => .ok (m.runInto s o input output none)
  | none =>
    match m.createScratch s with
    | (.error cause, _) => .error cause
    | (.ok path, s) => .ok (m.runInto s o input path (some path))

/-- The only failure before the compiler runs is that of the temporary file, which is needed when
no output is named. -/
theorem runCompiler_eq_error_iff {m : Machine σ} {s : σ} {o : Options} {input : String}
    {output : Option String} {cause : String} :
    m.runCompiler s o input output = .error cause ↔
      output = none ∧ (m.createScratch s).1 = .error cause := by
  cases output with
  | some output => simp [Machine.runCompiler]
  | none =>
    simp only [Machine.runCompiler, true_and]
    rcases m.createScratch s with ⟨created, s'⟩
    cases created <;> simp

/-- There is a temporary file just when no output is named. -/
theorem isSome_scratch_of_runCompiler {m : Machine σ} {s : σ} {o : Options} {input : String}
    {output : Option String} {run : CompilerRun σ}
    (h : m.runCompiler s o input output = .ok run) : run.scratch.isSome = true ↔ output = none := by
  cases output with
  | some output =>
    cases h
    simp [Machine.runInto]
  | none =>
    simp only [Machine.runCompiler] at h
    split at h
    · cases h
    · cases h
      simp [Machine.runInto]

/-- The result of a compilation whose events come through as `tell` says. -/
def compileTold (m : Machine σ) (s : σ) (o : Options) (input : String) (output : Option String)
    (tell : Except RunError Process → List RunEvent) : Except CompileError CompileReport :=
  match m.runCompiler s o input output with
  | .error cause => .error (.scratchFile cause)
  | .ok run =>
    concludeCompilation input output run.scratch (collectRun ⟨input⟩ (tell run.started))
      (m.readText run.machine)

/-- What a compilation returns is told by the events of its run alone. -/
theorem result_compile (m : Machine σ) (s : σ) (o : Options) (input : String)
    (output : Option String) :
    (compile m s o input output).1.result = compileTold m s o input output startEvents := by
  cases output with
  | some output => rfl
  | none =>
    unfold compile compileTold Machine.runCompiler
    rcases m.createScratch s with ⟨created, s'⟩
    cases created <;> rfl

/-! ## §2 — after the compiler has run -/

/-- How a compilation ends after the compiler has run. -/
inductive Concludes (input : String) (output scratch : Option String) (report : Report)
    (readBack : String → Except FileError String) : Except CompileError CompileReport → Prop where
  | unfinished {e : RunError} (houtcome : report.outcome = .failed e) :
      Concludes input output scratch report readBack (.error (.run e))
  | refused {code : Int} (houtcome : report.outcome = .exited code) (hcode : code ≠ 0) :
      Concludes input output scratch report readBack
        (.ok ⟨⟨input⟩, code, report.diagnostics, report.notices, none, output⟩)
  | written (houtcome : report.outcome = .exited 0) (hscratch : scratch = none) :
      Concludes input output scratch report readBack
        (.ok ⟨⟨input⟩, 0, report.diagnostics, report.notices ++ [successNotice input output], none,
          output⟩)
  | returned {path text : String} (houtcome : report.outcome = .exited 0)
      (hscratch : scratch = some path) (hread : readBack path = .ok text) :
      Concludes input output scratch report readBack
        (.ok ⟨⟨input⟩, 0, report.diagnostics, report.notices ++ [successNotice input output],
          some text, output⟩)
  | unreadable {path : String} {fault : FileError} (houtcome : report.outcome = .exited 0)
      (hscratch : scratch = some path) (hread : readBack path = .error fault) :
      Concludes input output scratch report readBack (.error (.readOutput path fault.message))

/-- The five ways in which a compilation can end after its run are all there are. -/
theorem concludes (input : String) (output scratch : Option String) (report : Report)
    (readBack : String → Except FileError String) :
    Concludes input output scratch report readBack
      (concludeCompilation input output scratch report readBack) := by
  obtain ⟨outcome, diagnostics, notices⟩ := report
  cases outcome with
  | failed e => exact .unfinished rfl
  | exited code =>
    -- the output is read back only after exit code 0, and only from a temporary file.
    by_cases hcode : code = 0
    · subst hcode
      cases scratch with
      | none => exact .written rfl rfl
      | some path =>
        cases hread : readBack path with
        | ok text =>
          have hresult : concludeCompilation input output (some path)
              ⟨.exited 0, diagnostics, notices⟩ readBack =
              .ok ⟨⟨input⟩, 0, diagnostics, notices ++ [successNotice input output], some text,
                output⟩ := by
            simp [concludeCompilation, hread, bind, Except.bind, pure, Except.pure]
          rw [hresult]
          exact .returned rfl rfl hread
        | error fault =>
          have hresult : concludeCompilation input output (some path)
              ⟨.exited 0, diagnostics, notices⟩ readBack =
              .error (.readOutput path fault.message) := by
            simp [concludeCompilation, hread, bind, Except.bind, pure, Except.pure]
          rw [hresult]
          exact .unreadable rfl rfl hread
    · have hresult : concludeCompilation input output scratch
          ⟨.exited code, diagnostics, notices⟩ readBack =
          .ok ⟨⟨input⟩, code, diagnostics, notices, none, output⟩ := by
        cases scratch <;>
          simp [concludeCompilation, hcode, bind, Except.bind, pure, Except.pure]
      rw [hresult]
      exact .refused rfl hcode

/-- After the run, a compilation fails when the run did, or when the output cannot be read back.
-/
theorem concludeCompilation_eq_error_iff {input : String} {output scratch : Option String}
    {report : Report} {readBack : String → Except FileError String} :
    (∃ e, concludeCompilation input output scratch report readBack = .error e) ↔
      (∃ e, report.outcome = .failed e) ∨
      report.outcome = .exited 0 ∧ ∃ path, scratch = some path ∧
        ∃ fault, readBack path = .error fault := by
  have h := concludes input output scratch report readBack
  generalize concludeCompilation input output scratch report readBack = result at h
  cases h with
  | unfinished houtcome => simp [houtcome]
  | refused houtcome hcode => simp [houtcome, hcode]
  | written houtcome hscratch => simp [houtcome, hscratch]
  | returned houtcome hscratch hread => simp [houtcome, hscratch, hread]
  | unreadable houtcome hscratch hread => simp [houtcome, hscratch, hread]

/-- The notices of a run tell of failures. -/
theorem isError_of_mem_collectRun {document : DocumentKey} {events : List RunEvent} {n : Notice}
    (h : n ∈ (collectRun document events).notices) : n.isError = true := by
  rw [notices_collectRun, List.mem_append, List.mem_filterMap, Option.mem_toList] at h
  rcases h with ⟨item, hitem, hnotice⟩ | houtcome
  · exact isError_of_mem_stderrItems hitem hnotice
  · have hany := any_isError_outcomeNotice? document (runOutcome events)
    rw [houtcome] at hany
    have hfailed : runOutcome events ≠ .exited 0 := by
      intro hzero
      rw [hzero] at houtcome
      cases houtcome
    simpa using hany.mpr hfailed

/-- The notices of a run that ended with another code than 0 end with one that says so. -/
theorem notices_of_refused {document : DocumentKey} {events : List RunEvent} {code : Int}
    (houtcome : (collectRun document events).outcome = .exited code) (hcode : code ≠ 0) :
    ∃ before last, (collectRun document events).notices = before ++ [last] ∧
      last.kind = .compileFailed code := by
  have hrun : runOutcome events = .exited code := houtcome
  rw [notices_collectRun, hrun, outcomeNotice?, if_neg hcode]
  exact ⟨_, _, rfl, rfl⟩

/-! ## §3 — the report and the command -/

/-- What a report says of a run of the compiler and of what was found in its output. -/
structure ReportsRun (m : Machine σ) (input : String) (output : Option String)
    (run : CompilerRun σ) (found : Report) (r : CompileReport) : Prop where
  document : r.document = ⟨input⟩
  outcome : found.outcome = .exited r.exitCode
  diagnostics : r.diagnostics = found.diagnostics
  succeeded : r.exitCode = 0 → ∃ last, r.notices = found.notices ++ [last] ∧
    last.kind = .compileSucceeded ∧ ∀ n ∈ found.notices, n.kind ≠ .compileSucceeded
  failed : r.exitCode ≠ 0 → r.notices = found.notices ∧ ∃ before last,
    r.notices = before ++ [last] ∧ last.kind = .compileFailed r.exitCode
  hasText : r.text.isSome = true ↔ r.exitCode = 0 ∧ output = none
  text : ∀ text, r.text = some text → ∃ path, run.scratch = some path ∧
    m.fileContent run.machine path = .ok (Utf8.encode text)
  check : (∃ e, r.check = .error e) ↔ r.exitCode ≠ 0
  output : r.output = output

/-- A report passes its check just when the compiler exited with code 0. -/
theorem check_eq_error_iff (r : CompileReport) : (∃ e, r.check = .error e) ↔ r.exitCode ≠ 0 := by
  by_cases hcode : r.exitCode = 0 <;> simp [CompileReport.check, CompileReport.isSuccess, hcode]

/-- A report with which a compilation ends says what its run has found, field by field. -/
theorem ReportsRun.of_concludes {m : Machine σ} {s : σ} {o : Options} {input : String}
    {output : Option String} {run : CompilerRun σ} {events : List RunEvent} {r : CompileReport}
    (hrun : m.runCompiler s o input output = .ok run)
    (h : Concludes input output run.scratch (collectRun ⟨input⟩ events) (m.readText run.machine)
      (.ok r)) :
    ReportsRun m input output run (collectRun ⟨input⟩ events) r := by
  have hscratch := isSome_scratch_of_runCompiler hrun
  -- a run never reports a success, so the success notice appears once, at the end.
  have hkinds : ∀ n ∈ (collectRun ⟨input⟩ events).notices, n.kind ≠ .compileSucceeded := by
    intro n hn hkind
    have herror := isError_of_mem_collectRun hn
    simp [Notice.isError, hkind] at herror
  exact {
    document := by cases h <;> rfl
    outcome := by cases h <;> assumption
    diagnostics := by cases h <;> rfl
    succeeded := by
      intro hzero
      cases h with
      | refused _ hcode => exact absurd hzero hcode
      | written => exact ⟨_, rfl, rfl, hkinds⟩
      | returned => exact ⟨_, rfl, rfl, hkinds⟩
    failed := by
      intro hcode
      cases h with
      | refused houtcome _ => exact ⟨rfl, notices_of_refused houtcome hcode⟩
      | written => exact absurd rfl hcode
      | returned => exact absurd rfl hcode
    hasText := by
      cases h with
      | refused _ hcode => simp [hcode]
      | written _ hnone => simpa [hnone] using hscratch
      | returned _ hpath _ => simpa [hpath] using hscratch
    text := by
      intro text htext
      cases h with
      | refused => cases htext
      | written => cases htext
      | returned _ hpath hread =>
        cases htext
        exact ⟨_, hpath, Machine.readText_eq_ok_iff.mp hread⟩
    check := check_eq_error_iff r
    output := by cases h <;> rfl }

section Told

variable {m : Machine σ} {s : σ} {o : Options} {input : String} {output : Option String}
  {tell : Except RunError Process → List RunEvent}

/-- A compilation that returns a report has had its run, and the report is about it. -/
theorem exists_reportsRun {r : CompileReport} (h : compileTold m s o input output tell = .ok r) :
    ∃ run, m.runCompiler s o input output = .ok run ∧
      ReportsRun m input output run (collectRun ⟨input⟩ (tell run.started)) r := by
  unfold compileTold at h
  cases hrun : m.runCompiler s o input output with
  | error cause =>
    rw [hrun] at h
    cases h
  | ok run =>
    rw [hrun] at h
    refine ⟨run, rfl, ReportsRun.of_concludes hrun ?_⟩
    rw [← h]
    exact concludes ..

/-- **When a compilation fails**: without a temporary file, with a run that does not come to its
end, or with an output that cannot be read back. -/
theorem compileTold_eq_error_iff :
    (∃ e, compileTold m s o input output tell = .error e) ↔
      (output = none ∧ ∃ cause, (m.createScratch s).1 = .error cause) ∨
      ∃ run, m.runCompiler s o input output = .ok run ∧
        ((∃ e, (collectRun ⟨input⟩ (tell run.started)).outcome = .failed e) ∨
          (collectRun ⟨input⟩ (tell run.started)).outcome = .exited 0 ∧ output = none ∧
            ∃ path, run.scratch = some path ∧
              ∀ text, m.fileContent run.machine path ≠ .ok (Utf8.encode text)) := by
  have hplace : (output = none ∧ ∃ cause, (m.createScratch s).1 = .error cause) ↔
      ∃ cause, m.runCompiler s o input output = .error cause := by
    simp only [runCompiler_eq_error_iff, exists_and_left]
  rw [hplace]
  unfold compileTold
  cases hrun : m.runCompiler s o input output with
  | error cause => simp
  | ok run =>
    have hscratch := isSome_scratch_of_runCompiler hrun
    simp only [Except.ok.injEq, reduceCtorEq, exists_false, false_or, exists_eq_left',
      concludeCompilation_eq_error_iff, Machine.readText_eq_error_iff]
    refine or_congr Iff.rfl (and_congr Iff.rfl ?_)
    rw [← hscratch]
    constructor
    -- a temporary file is there only when no output is named.
    · rintro ⟨path, hpath, hunreadable⟩
      exact ⟨by rw [hpath]; rfl, path, hpath, hunreadable⟩
    · exact fun h => h.2

end Told

/-- The command succeeds just when the compilation returns a report with exit code 0. -/
theorem exitCode_completeCompile (input : String) (result : Except CompileError CompileReport) :
    (completeCompile input result).exitCode = 0 ↔ ∃ r, result = .ok r ∧ r.exitCode = 0 := by
  cases result with
  | error e => simp [completeCompile, Completion.failed]
  | ok r =>
    by_cases hcode : r.exitCode = 0 <;>
      simp [completeCompile, CompileReport.check, CompileReport.isSuccess, hcode, Completion.failed]

/-- The command prints the text of a report, which a compiler that failed does not leave. -/
theorem stdout_completeCompile (input : String) {result : Except CompileError CompileReport}
    (h : ∀ r, result = .ok r → r.text.isSome = true → r.exitCode = 0) :
    (completeCompile input result).stdout = (result.toOption.bind CompileReport.text).getD "" := by
  cases result with
  | error e => rfl
  | ok r =>
    by_cases hcode : r.exitCode = 0
    · simp [completeCompile, CompileReport.check, CompileReport.isSuccess, hcode, Except.toOption]
    · have htext : r.text = none := by
        have hnot := fun hsome => hcode (h r rfl hsome)
        simpa using hnot
      simp [completeCompile, CompileReport.check, CompileReport.isSuccess, hcode, htext,
        Completion.failed, Except.toOption]

/-- **How a compilation ends**, in whatever order the events of the run come through. There is an
error exactly when there was to be a temporary file and none could be made, or the run did not come
to its end, or the compiler ended with code 0 and its temporary file holds no UTF-8 text. Else there
is a report of what was found in the output of the run: its diagnostics, its notices with one more
if the code is 0, and the text of the temporary file if there is one and the code is 0. The command
succeeds exactly when there is a report with code 0, and its standard output is the text of the
report, if there is a report with a text. -/
theorem compile_outcome (m : Machine σ) (s : σ) (o : Options) (input : String)
    (output : Option String) (tell : Except RunError Process → List RunEvent) :
    let result := compileTold m s o input output tell
    let found := fun run : CompilerRun σ => collectRun ⟨input⟩ (tell run.started)
    let completion := completeCompile input result
    (compile m s o input output).1.result = compileTold m s o input output startEvents ∧
    (∀ (config : Config) (stdin : List UInt8), config.options = o →
      (perform m s config stdin (.compile input output)).1 =
        completeCompile input (compileTold m s o input output startEvents)) ∧
    ((∃ e, result = .error e) ↔
      (output = none ∧ ∃ cause, (m.createScratch s).1 = .error cause) ∨
      ∃ run, m.runCompiler s o input output = .ok run ∧
        ((∃ e, (found run).outcome = .failed e) ∨
          (found run).outcome = .exited 0 ∧ output = none ∧ ∃ path, run.scratch = some path ∧
            ∀ text, m.fileContent run.machine path ≠ .ok (Utf8.encode text))) ∧
    (∀ r, result = .ok r → ∃ run, m.runCompiler s o input output = .ok run ∧
      ReportsRun m input output run (found run) r) ∧
    (completion.exitCode = 0 ↔ ∃ r, result = .ok r ∧ r.exitCode = 0) ∧
    (∀ r text, result = .ok r → r.text = some text → completion.stdout = text) ∧
    ((∀ r, result = .ok r → r.text = none) → completion.stdout = "") := by
  intro result found completion
  have hreport : ∀ r, result = .ok r → ∃ run, m.runCompiler s o input output = .ok run ∧
      ReportsRun m input output run (found run) r :=
    fun r hresult => exists_reportsRun hresult
  -- a text is there only after exit code 0, which is when the command prints it.
  have hstdout : completion.stdout = (result.toOption.bind CompileReport.text).getD "" := by
    refine stdout_completeCompile input fun r hresult htext => ?_
    obtain ⟨run, -, hrun⟩ := hreport r hresult
    exact (hrun.hasText.mp htext).1
  refine ⟨result_compile m s o input output, ?_, compileTold_eq_error_iff, hreport,
    exitCode_completeCompile input result, ?_, ?_⟩
  · rintro config stdin rfl
    rw [← result_compile]
    rfl
  · intro r text hresult htext
    rw [hstdout, hresult]
    exact congrArg (Option.getD · "") htext
  · intro hnone
    rw [hstdout]
    cases hresult : result with
    | error e => rfl
    | ok r => exact congrArg (Option.getD · "") (hnone r hresult)

end KspWorkbench
