import KspWorkbench.Compiler.Outcome
import KspWorkbench.Compiler.StderrBlock
import KspWorkbench.Compiler.StdoutLine

/-!
# Reports of compiler runs

A run is a sequence of events: lines of the two streams, the end of the standard output, and the
outcome. Nothing after the first outcome counts, and a sequence without one is a failure to wait
for the process. The report of a run holds its diagnostics in the order of the lines, and its
notices: those of the standard error and one for an outcome that is no success. Observers are told
of every event.
-/

namespace KspWorkbench

inductive RunEvent where
  | stdout (line : String)
  | stderr (line : String)
  | stdoutClosed
  | finished (outcome : Outcome)
  deriving DecidableEq, Repr

/-- What an observer of a run is told. -/
inductive ObserverCall where
  | stdoutLine (line : String)
  | stderrLine (line : String)
  -- the standard output has ended, which is told apart from the end of the process.
  | runEnd
  | exit (code : Int)
  -- an error is a program that was not found; all else that went wrong is an exception.
  | error (text : String)
  | exception (text : String)
  deriving DecidableEq, Repr

/-- Everything that a finished run produced, diagnostics and notices in the order in which they were
written. -/
structure Report where
  outcome : Outcome
  diagnostics : List Diagnostic
  notices : List Notice
  deriving DecidableEq, Repr

/-- The outcome of a run whose events end without one. -/
def lostOutcome : Outcome :=
  .failed (.wait "compiler runner stopped unexpectedly")

/-- The events before the outcome. -/
def runEvents : List RunEvent → List RunEvent
  | [] => []
  | .finished _ :: _ => []
  | e :: es => e :: runEvents es

def runOutcome : List RunEvent → Outcome
  | [] => lostOutcome
  | .finished outcome :: _ => outcome
  | _ :: es => runOutcome es

/-- What was found in the output of a run so far, with the block of standard error that is open. -/
structure Findings where
  diagnostics : List Diagnostic := []
  notices : List Notice := []
  block : Option ErrorBlock := none
  deriving DecidableEq, Repr

/-- The findings after one more event of the run of `document`. -/
def Findings.add (document : DocumentKey) (f : Findings) : RunEvent → Findings
  | .stdout line => { f with diagnostics := f.diagnostics ++ (stdoutDiagnostic? line).toList }
  | .stderr line =>
    match feedStderr f.block line.toList with
    | (block, none) => { f with block := block }
    | (block, some (.diagnostic d)) =>
      { f with diagnostics := f.diagnostics ++ [d], block := block }
    | (block, some (.notice kind message)) =>
      { f with notices := f.notices ++ [⟨kind, some document, message⟩], block := block }
  | .stdoutClosed | .finished _ => f

/-- The text that tells of an outcome that is a failure. -/
def RunError.report : RunError → String
  | .notFound program =>
    (RunError.notFound program).message ++ ". Check the compiler executable setting."
  | e => e.message

/-- The notice of an outcome that is no success. -/
def outcomeNotice? (document : DocumentKey) : Outcome → Option Notice
  | .exited code =>
    if code = 0 then none
    else some ⟨.compileFailed code, some document,
      "Compile failed with exit code " ++ toString code⟩
  | .failed (.notFound program) =>
    some ⟨.executableNotFound, some document, (RunError.notFound program).report⟩
  | .failed e => some ⟨.executionError, some document, e.report⟩

def collectRun (document : DocumentKey) (events : List RunEvent) : Report :=
  let found := (runEvents events).foldl (Findings.add document) {}
  let outcome := runOutcome events
  ⟨outcome, found.diagnostics, found.notices ++ (outcomeNotice? document outcome).toList⟩

/-- What an event before the outcome tells an observer. -/
def RunEvent.calls : RunEvent → List ObserverCall
  | .stdout line => [.stdoutLine line]
  | .stderr line => [.stderrLine line]
  | .stdoutClosed => [.runEnd]
  | .finished _ => []

/-- What an outcome tells an observer. A process that started always exits, if only with code -1
because it could not be waited for. -/
def Outcome.calls : Outcome → List ObserverCall
  | .exited code => [.exit code]
  | .failed (.notFound program) => [.error (RunError.notFound program).report]
  | .failed (.spawn program cause) => [.exception (RunError.spawn program cause).report]
  | .failed (.wait cause) => [.exit (-1), .exception (RunError.wait cause).report]

/-- What every observer of a run is told, in order. -/
def observerCalls (events : List RunEvent) : List ObserverCall :=
  (runEvents events).flatMap RunEvent.calls ++ (runOutcome events).calls

structure Echo where
  stdout : Bool
  stderr : Bool
  deriving DecidableEq, Repr

inductive LogLine where
  | stdout (document : DocumentKey) (line : String)
  | stderr (document : DocumentKey) (line : String)
  | exited (document : DocumentKey) (code : Int)
  deriving DecidableEq, Repr

namespace Echo

def isActive (e : Echo) : Bool :=
  e.stdout || e.stderr

/-- What is logged when an observer is told something about `document`. -/
def logLine? (e : Echo) (document : DocumentKey) : ObserverCall → Option LogLine
  | .stdoutLine line => if e.stdout then some (.stdout document line) else none
  | .stderrLine line => if e.stderr then some (.stderr document line) else none
  | .exit code => if e.isActive then some (.exited document code) else none
  | .runEnd | .error _ | .exception _ => none

def log (e : Echo) (document : DocumentKey) (calls : List ObserverCall) : List LogLine :=
  calls.filterMap (e.logLine? document)

end Echo

end KspWorkbench
