import KspWorkbench.Command.Program
import KspWorkbench.Machine.Interface

/-!
# The command line

Reads the files that a command needs, runs the program on them and writes what it gives back. This
layer cannot start programs, so runs of the compiler end as runs that could not start.
-/

namespace KspWorkbench

def readContent (path : String) : IO (Except FileError (List UInt8)) := do
  try
    return .ok (← IO.FS.readBinFile path).toList
  catch
    | .inappropriateType _ 20 _ => return .error .notDirectory
    | .inappropriateType .. => return .error .isDirectory
    | _ => return .error .missing

def readAll (paths : List String) : IO Readings :=
  paths.mapM fun path => return (path, ← readContent path)

/-- The files that an invocation reads before it does anything. -/
def Invocation.files (home : Option String) (i : Invocation) : List String :=
  (i.config <|> home.map usualConfig).toList ++
    match i.command with
    | .symbols file _ => [file]
    | _ => []

def Completion.emit (c : Completion) : IO UInt32 := do
  let stdout ← IO.getStdout
  stdout.putStr c.stdout
  stdout.flush
  (← IO.getStderr).putStr c.stderr
  return c.exitCode.toUInt32

def emitEvents (events : List ServerEvent) : IO Unit := do
  let stdout ← IO.getStdout
  for event in events do
    stdout.putStr event.toLine
  stdout.flush

/-- Applies the runs that have ended. -/
def emitRuns (v : Supervisor Readings) : IO (Supervisor Readings) := do
  let mut v := v
  for _ in v.service.results.ready do
    let (events, service) := v.service.publishRun
    emitEvents events
    v := { v with service := service }
  return v

/-- Reads the file that a line needs. -/
def fetch (v : Supervisor Readings) (line : String) : IO (Supervisor Readings) :=
  match (EditorRequest.ofLine? line).bind EditorRequest.file? with
  | some path => return { v with machine := [(path, ← readContent path)] }
  | none => return v

/-- The service at the present time, which is counted from `start`. -/
def atPresent (v : Supervisor Readings) (start : Nat) : IO (Supervisor Readings) := do
  let now := (← IO.monoMsNow) - start
  return v.withService fun s => { s with now := max s.now now }

/-- Does what is due and tells of the runs that have ended. -/
def catchUp (v : Supervisor Readings) (start : Nat) : IO (Supervisor Readings) := do
  emitRuns ((← atPresent v start).settle readingsMachine)

/-- Serves an editor from the standard input; `start` is when the conversation began. -/
partial def serveEditor (v : Supervisor Readings) (start : Nat) : IO UInt32 := do
  let input ← try (← IO.getStdin).getLine catch _ =>
    return ← Completion.emit (.failed "" (.readRequest .notUtf8))
  if input.isEmpty then return 0
  let line := String.ofList ((lines input.toList).headD [])
  let v ← fetch (← catchUp v start) line
  match v.service.handleLine (readingsMachine.readText v.machine) line with
  | .skipped => serveEditor v start
  | .ended => return 0
  | .handled events service =>
    emitEvents events
    serveEditor (← catchUp { v with service := service } start) start

end KspWorkbench

open KspWorkbench in
def main (args : List String) : IO UInt32 := do
  let home ← IO.getEnv "HOME"
  match readArguments args with
  | .error stop => (completeStop stop).emit
  | .ok invocation =>
    let readings ← readAll (invocation.files home)
    match invocation.command with
    | .serve =>
      match loadConfig (readingsMachine.fileContent readings) home invocation.config with
      | .error e => (Completion.failed "" e).emit
      | .ok config =>
        serveEditor { service := startServer config, machine := readings } (← IO.monoMsNow)
    | _ => (runProgram readingsMachine readings home [] args).1.emit
