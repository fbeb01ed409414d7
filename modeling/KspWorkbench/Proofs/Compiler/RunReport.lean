import KspWorkbench.Compiler.Report
import KspWorkbench.Proofs.Sequences

/-!
# The report of a run and the order of its events

The lines of the two streams of a run arrive in an order that nobody chooses. The standard output is
read line by line, and the standard error with a block that may be open, so the question is what the
order can do to the report.

* **`stdoutLines`**, **`stderrLines`** — the two streams of a run, each on its own.
* **`stderrItems`** — what the lines of a standard error report when nothing comes between them.
* **`notices_foldl_add`**, **`diagnostics_foldl_add`** — what an event adds to the findings, taken
  over a whole run: a line of the standard output leaves the block that is open.
* **`report_of_streams`** — the report is made of the two streams and the outcome, and the order
  decides nothing but how the diagnostics of the one lie among those of the other.
-/

namespace KspWorkbench

/-! ## §1 — the streams and the outcome of a run -/

namespace RunEvent

def stdout? : RunEvent → Option String
  | .stdout line => some line
  | _ => none

def stderr? : RunEvent → Option String
  | .stderr line => some line
  | _ => none

def outcome? : RunEvent → Option Outcome
  | .finished outcome => some outcome
  | _ => none

end RunEvent

/-- The lines of the standard output before the first outcome. -/
def stdoutLines (events : List RunEvent) : List String :=
  (events.takeWhile (·.outcome?.isNone)).filterMap RunEvent.stdout?

/-- The lines of the standard error before the first outcome. -/
def stderrLines (events : List RunEvent) : List String :=
  (events.takeWhile (·.outcome?.isNone)).filterMap RunEvent.stderr?

/-- The events of a run are those before its first outcome. -/
theorem runEvents_eq_takeWhile (events : List RunEvent) :
    runEvents events = events.takeWhile (·.outcome?.isNone) := by
  induction events with
  | nil => rfl
  | cons event events ih =>
    cases event with
    | finished outcome => rfl
    | _ =>
      rw [runEvents, ih]
      · rfl
      · simp

/-- The outcome of a run is the first one, and a run without any is lost. -/
theorem runOutcome_eq_findSome? (events : List RunEvent) :
    runOutcome events = (events.findSome? RunEvent.outcome?).getD lostOutcome := by
  induction events with
  | nil => rfl
  | cons event events ih =>
    cases event with
    | finished outcome => rfl
    | _ =>
      rw [runOutcome, ih]
      · rfl
      · simp

/-- What comes after an outcome is no event of the run. -/
theorem runEvents_append_finished (events late : List RunEvent) (outcome : Outcome) :
    runEvents (events ++ .finished outcome :: late) = runEvents events := by
  induction events with
  | nil => rfl
  | cons event events ih =>
    cases event with
    | finished _ => rfl
    | _ => simpa [runEvents] using ih

theorem runOutcome_append_finished (events late : List RunEvent) (outcome : Outcome) :
    runOutcome (events ++ .finished outcome :: late) =
      (events.findSome? RunEvent.outcome?).getD outcome := by
  rw [runOutcome_eq_findSome?, List.findSome?_append]
  cases events.findSome? RunEvent.outcome? with
  | none => rfl
  | some first => rfl

/-! ## §2 — a standard error on its own -/

/-- What the lines of a standard error report, one after the other, from the block that is open. -/
def stderrItems : Option ErrorBlock → List String → List StderrItem
  | _, [] => []
  | block, line :: lines =>
    (feedStderr block line.toList).2.toList ++ stderrItems (feedStderr block line.toList).1 lines

namespace StderrItem

def diagnostic? : StderrItem → Option Diagnostic
  | .diagnostic d => some d
  | .notice .. => none

/-- The notice that an item is to the reader of `document`. -/
def notice? (document : DocumentKey) : StderrItem → Option Notice
  | .diagnostic _ => none
  | .notice kind message => some ⟨kind, some document, message⟩

theorem document_of_notice? {document : DocumentKey} {item : StderrItem} {notice : Notice}
    (h : item.notice? document = some notice) : notice.document = some document := by
  cases item with
  | diagnostic d => cases h
  | notice kind message =>
    cases h
    rfl

end StderrItem

/-! ## §3 — what a run adds to the findings -/

/-- What a line of standard error adds is what it gives on its own, with the block that is open.
-/
theorem Findings.add_stderr (document : DocumentKey) (f : Findings) (line : String) :
    f.add document (.stderr line) =
      { diagnostics := f.diagnostics ++
          (feedStderr f.block line.toList).2.toList.filterMap StderrItem.diagnostic?
        notices := f.notices ++
          (feedStderr f.block line.toList).2.toList.filterMap (StderrItem.notice? document)
        block := (feedStderr f.block line.toList).1 } := by
  rw [Findings.add]
  rcases feedStderr f.block line.toList with ⟨block, item⟩
  cases item with
  | none => simp
  | some item =>
    cases item with
    | diagnostic d => simp [StderrItem.diagnostic?, StderrItem.notice?]
    | notice kind message => simp [StderrItem.diagnostic?, StderrItem.notice?]

/-- **The notices of a run** are those of its standard error. -/
theorem notices_foldl_add (document : DocumentKey) (events : List RunEvent) (f : Findings) :
    (events.foldl (Findings.add document) f).notices =
      f.notices ++ (stderrItems f.block (events.filterMap RunEvent.stderr?)).filterMap
        (StderrItem.notice? document) := by
  induction events generalizing f with
  | nil => simp [stderrItems]
  | cons event events ih =>
    rw [List.foldl_cons, ih]
    cases event with
    | stderr line =>
      rw [Findings.add_stderr]
      simp [RunEvent.stderr?, stderrItems]
    | stdout line => rfl
    | stdoutClosed => rfl
    | finished outcome => rfl

/-- **The diagnostics of a run** are those of its two streams, each in its order. -/
theorem diagnostics_foldl_add (document : DocumentKey) (events : List RunEvent) (f : Findings) :
    ∃ found, (events.foldl (Findings.add document) f).diagnostics = f.diagnostics ++ found ∧
      Interleaves ((events.filterMap RunEvent.stdout?).filterMap stdoutDiagnostic?)
        ((stderrItems f.block (events.filterMap RunEvent.stderr?)).filterMap
          StderrItem.diagnostic?)
        found := by
  induction events generalizing f with
  | nil => exact ⟨[], by simp, .nil⟩
  | cons event events ih =>
    obtain ⟨found, hfound, hinterleaves⟩ := ih (f.add document event)
    rw [List.foldl_cons, hfound]
    cases event with
    | stdout line =>
      -- the block that is open stays as it is.
      refine ⟨(stdoutDiagnostic? line).toList ++ found, by simp [Findings.add], ?_⟩
      have hstdout : ((RunEvent.stdout line :: events).filterMap RunEvent.stdout?).filterMap
          stdoutDiagnostic? = (stdoutDiagnostic? line).toList ++
            (events.filterMap RunEvent.stdout?).filterMap stdoutDiagnostic? := by
        cases hline : stdoutDiagnostic? line <;> simp [RunEvent.stdout?, hline]
      rw [hstdout]
      exact hinterleaves.append_left _
    | stderr line =>
      rw [Findings.add_stderr] at hinterleaves ⊢
      refine ⟨_, List.append_assoc _ _ _, ?_⟩
      have hstderr : (RunEvent.stderr line :: events).filterMap RunEvent.stderr? =
          line :: events.filterMap RunEvent.stderr? :=
        rfl
      rw [hstderr, stderrItems, List.filterMap_append]
      exact hinterleaves.append_right _
    | stdoutClosed => exact ⟨found, rfl, hinterleaves⟩
    | finished outcome => exact ⟨found, rfl, hinterleaves⟩

/-! ## §4 — what has no effect -/

/-- **Nothing comes after the outcome**: events that arrive later are not reported. -/
theorem collectRun_append_finished (document : DocumentKey) (events late : List RunEvent)
    (outcome : Outcome) :
    collectRun document (events ++ .finished outcome :: late) =
      collectRun document (events ++ [.finished outcome]) := by
  rw [collectRun, collectRun, runEvents_append_finished, runEvents_append_finished,
    runOutcome_append_finished, runOutcome_append_finished]

theorem runOutcome_filter (events : List RunEvent) :
    runOutcome (events.filter (· ≠ .stdoutClosed)) = runOutcome events := by
  induction events with
  | nil => rfl
  | cons event events ih =>
    cases event with
    | finished outcome => rfl
    | _ => exact ih

theorem foldl_add_filter (document : DocumentKey) (events : List RunEvent) (f : Findings) :
    (runEvents (events.filter (· ≠ .stdoutClosed))).foldl (Findings.add document) f =
      (runEvents events).foldl (Findings.add document) f := by
  induction events generalizing f with
  | nil => rfl
  | cons event events ih =>
    cases event with
    | finished outcome => rfl
    | _ => exact ih _

/-- The end of the standard output can be told at any time, or never. -/
theorem collectRun_filter (document : DocumentKey) (events : List RunEvent) :
    collectRun document (events.filter (· ≠ .stdoutClosed)) = collectRun document events := by
  rw [collectRun, collectRun, foldl_add_filter, runOutcome_filter]

/-! ## §5 — the report -/

/-- What the notice of an outcome is about. -/
def Outcome.noticeKind? : Outcome → Option NoticeKind
  | .exited 0 => none
  | .exited code => some (.compileFailed code)
  | .failed (.notFound _) => some .executableNotFound
  | .failed _ => some .executionError

/-- The notice about an outcome is of the kind that the outcome has, and an exit with code 0 has
none. -/
theorem kind_outcomeNotice? (document : DocumentKey) (outcome : Outcome) :
    (outcomeNotice? document outcome).map Notice.kind = outcome.noticeKind? := by
  cases outcome with
  | exited code =>
    by_cases hcode : code = 0
    · subst hcode
      rfl
    · simp [outcomeNotice?, Outcome.noticeKind?, hcode]
  | failed error => cases error <;> rfl

theorem document_outcomeNotice? {document : DocumentKey} {outcome : Outcome} {notice : Notice}
    (h : outcomeNotice? document outcome = some notice) : notice.document = some document := by
  cases outcome with
  | exited code =>
    rw [outcomeNotice?] at h
    split at h
    · cases h
    · cases h
      rfl
  | failed error =>
    cases error <;> cases h <;> rfl

/-- The notices of a report are those of the standard error, in its order, and then the one about
the outcome. The standard output has no part in them. -/
theorem notices_collectRun (document : DocumentKey) (events : List RunEvent) :
    (collectRun document events).notices =
      (stderrItems none (stderrLines events)).filterMap (StderrItem.notice? document) ++
        (outcomeNotice? document (runOutcome events)).toList := by
  rw [collectRun, notices_foldl_add, runEvents_eq_takeWhile]
  rfl

/-- The diagnostics of a report are those of both streams, each in its order. -/
theorem diagnostics_collectRun (document : DocumentKey) (events : List RunEvent) :
    Interleaves ((stdoutLines events).filterMap stdoutDiagnostic?)
      ((stderrItems none (stderrLines events)).filterMap StderrItem.diagnostic?)
      (collectRun document events).diagnostics := by
  obtain ⟨found, hfound, hinterleaves⟩ := diagnostics_foldl_add document (runEvents events) {}
  rw [collectRun, hfound]
  rw [runEvents_eq_takeWhile] at hinterleaves
  exact hinterleaves

/-- **A report is made of two streams and an outcome.** Whatever the events of a run, its outcome is
that of the first event that has one, or a failure to wait. Its notices are those that its standard
error yields on its own, and then that of the outcome, if the outcome is no success; all belong to
the document. Its diagnostics are those of its standard output and those of its standard error on
its own, each in its order. So events with the same streams and the same outcome give the same
notices and, up to the order of the streams among each other, the same diagnostics. The end of the
standard output has no effect on the report, and nothing after an outcome has. -/
theorem report_of_streams (document : DocumentKey) (events : List RunEvent) :
    let report := collectRun document events
    let diagnosticsOut := (stdoutLines events).filterMap stdoutDiagnostic?
    let itemsErr := stderrItems none (stderrLines events)
    let diagnosticsErr := itemsErr.filterMap StderrItem.diagnostic?
    report.outcome = (events.findSome? RunEvent.outcome?).getD lostOutcome ∧
    (∃ terminal : Option Notice,
      report.notices = itemsErr.filterMap (StderrItem.notice? document) ++ terminal.toList ∧
      terminal.map Notice.kind = report.outcome.noticeKind?) ∧
    (∀ notice ∈ report.notices, notice.document = some document) ∧
    Interleaves diagnosticsOut diagnosticsErr report.diagnostics ∧
    (∀ others : List RunEvent, stdoutLines others = stdoutLines events →
      stderrLines others = stderrLines events →
      (collectRun document others).outcome = report.outcome →
      (collectRun document others).notices = report.notices ∧
      Interleaves diagnosticsOut diagnosticsErr (collectRun document others).diagnostics ∧
      (collectRun document others).diagnostics.Perm report.diagnostics) ∧
    collectRun document (events.filter (· ≠ .stdoutClosed)) = report ∧
    ∀ (outcome : Outcome) (late : List RunEvent),
      collectRun document (events ++ .finished outcome :: late) =
        collectRun document (events ++ [.finished outcome]) := by
  intro report diagnosticsOut itemsErr diagnosticsErr
  have hdiagnostics : Interleaves diagnosticsOut diagnosticsErr report.diagnostics :=
    diagnostics_collectRun document events
  have hnotices := notices_collectRun document events
  refine ⟨runOutcome_eq_findSome? events, ⟨_, hnotices, kind_outcomeNotice? document _⟩, ?_,
    hdiagnostics, ?_, collectRun_filter document events,
    fun outcome late => collectRun_append_finished document events late outcome⟩
  · intro notice hmem
    rw [hnotices, List.mem_append, List.mem_filterMap, Option.mem_toList] at hmem
    rcases hmem with ⟨item, -, hitem⟩ | houtcome
    · exact StderrItem.document_of_notice? hitem
    · exact document_outcomeNotice? houtcome
  -- both reports are compared through what the two streams give on their own.
  · intro others hout herr houtcome
    have hothers := diagnostics_collectRun document others
    rw [hout, herr] at hothers
    refine ⟨?_, hothers, hothers.perm.symm.trans hdiagnostics.perm⟩
    have hsame : runOutcome others = runOutcome events := houtcome
    rw [hnotices, notices_collectRun, herr, hsame]

/-- A line of the standard output in the middle of a block of the standard error, and the same line
before the block. -/
theorem report_of_line_inside_block :
    let document : DocumentKey := ⟨"a.ksp"⟩
    let line : RunEvent := .stdout "ERROR a.ksp:3: unknown variable"
    let opening : List RunEvent := [.stderr ">>> BEGIN Error", .stderr ">>> Location: a.ksp:7"]
    let closing : List RunEvent := [.stderr "no such function", .stderr ">>> END Error"]
    let inside := opening ++ [line] ++ closing ++ [.stdoutClosed, .finished (.exited 1)]
    let before := [line, .stdoutClosed] ++ opening ++ closing ++ [.finished (.exited 1)]
    (collectRun document inside).diagnostics.map Diagnostic.line = [2, 6] ∧
    (collectRun document before).notices = (collectRun document inside).notices ∧
    (collectRun document before).diagnostics.Perm (collectRun document inside).diagnostics := by
  intro document line opening closing inside before
  obtain ⟨-, -, -, -, hshuffle, -⟩ := report_of_streams document inside
  obtain ⟨hnotices, -, hperm⟩ := hshuffle before rfl rfl rfl
  exact ⟨by decide, hnotices, hperm⟩

end KspWorkbench
