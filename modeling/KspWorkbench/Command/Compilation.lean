import KspWorkbench.Machine.Interface

/-!
# Compilation

One run of the compiler on a script, into an output file or into a temporary file whose text is the
result. An exit code other than 0 makes a report and no error: errors are kept for runs that did not
come to their end and for trouble with the temporary file.
-/

namespace KspWorkbench

/-- Why a compilation gave no report. -/
inductive CompileError where
  | run (error : RunError)
  | failed (code : Int)
  -- there is no place for a temporary file, or it could not be read back.
  | scratchFile (cause : String)
  | readOutput (path cause : String)
  deriving DecidableEq, Repr

namespace CompileError

def message : CompileError → String
  | .run e => e.message
  | .failed code => "compile failed with exit code " ++ toString code
  | .scratchFile cause => "creating temporary output file: " ++ cause
  | .readOutput path cause => "reading compiled output " ++ path ++ ": " ++ cause

def cause? : CompileError → Option String
  | .run e => e.cause?
  | .failed _ => none
  | .scratchFile cause | .readOutput _ cause => some cause

end CompileError

/-- What a compilation produced. The notices are those of the run and one that it succeeded; the
text is the compiled script, which stands here if no output file was named and the compiler
succeeded. -/
structure CompileReport where
  document : DocumentKey
  exitCode : Int
  diagnostics : List Diagnostic
  notices : List Notice
  text : Option String
  output : Option String
  deriving DecidableEq, Repr

namespace CompileReport

def isSuccess (r : CompileReport) : Bool :=
  r.exitCode = 0

/-- An error unless the compiler succeeded. -/
def check (r : CompileReport) : Except CompileError Unit :=
  if r.isSuccess then .ok () else .error (.failed r.exitCode)

end CompileReport

def successNotice (input : String) (output : Option String) : Notice where
  kind := .compileSucceeded
  document := some ⟨input⟩
  message := "Compiled " ++ input ++
    match output with
    | some output => " to " ++ output
    | none => ""

/-- What becomes of a compilation after the compiler has run. `readBack` reads the temporary
file; its path is given if there is one. -/
def concludeCompilation (input : String) (output scratch : Option String) (report : Report)
    (readBack : String → Except FileError String) : Except CompileError CompileReport := do
  let code ← match report.outcome with
    | .exited code => pure code
    | .failed e => .error (.run e)
  let text ←
    match scratch with
    | some path =>
      if code = 0 then
        match readBack path with
        | .ok text => pure (some text)
        | .error e => .error (.readOutput path e.message)
      else
        pure none
    | none => pure none
  let success := if code = 0 then [successNotice input output] else []
  return ⟨⟨input⟩, code, report.diagnostics, report.notices ++ success, text, output⟩

/-- A compilation as a whole: its result, and what observers of its run were told. -/
structure Compilation where
  result : Except CompileError CompileReport
  calls : List ObserverCall

variable {σ : Type}

/-- Compiles `input` into `target` and concludes. -/
def compileInto (m : Machine σ) (s : σ) (o : Options) (input : String)
    (output scratch : Option String) : Compilation × σ :=
  let (started, s) := m.start s (Request.build o input (output <|> scratch))
  let events := startEvents started
  let result :=
    concludeCompilation input output scratch (collectRun ⟨input⟩ events) (m.readText s)
  (⟨result, observerCalls events⟩, s)

/-- Compiles `input` into `output`, or into a temporary file that is gone afterwards. -/
def compile (m : Machine σ) (s : σ) (o : Options) (input : String) (output : Option String) :
    Compilation × σ :=
  match output with
  | some _ => compileInto m s o input output none
  | none =>
    match m.createScratch s with
    | (.error cause, s) => (⟨.error (.scratchFile cause), []⟩, s)
    | (.ok path, s) =>
      let (compilation, s) := compileInto m s o input none (some path)
      (compilation, m.removeScratch s path)

end KspWorkbench
