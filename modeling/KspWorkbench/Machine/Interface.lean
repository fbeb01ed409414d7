import KspWorkbench.Compiler.LineFraming
import KspWorkbench.Compiler.Report
import KspWorkbench.Compiler.Request
import KspWorkbench.Machine.FileTree

/-!
# The machine

What commands need from the machine that they run on: files and programs. A program that was started
is a `Process`, seen as a whole from its start to its end: what reads of its two output streams
deliver, and how it ended. A machine has a state, because running programs and making files changes
it. The machine of files that were read beforehand has no programs; it is enough for every command
that only reads.
-/

namespace KspWorkbench

/-! ## Processes -/

/-- A program that was started, seen as a whole: what reads of its streams deliver, and its exit
code if it was not killed, or why it could not be waited for. -/
structure Process where
  stdout : List Chunk := []
  stderr : List Chunk := []
  ending : Except String (Option Int) := .ok (some 0)

/-- The exit code of a process that ended without one. -/
def unknownExitCode : Int :=
  -1

namespace Process

def outcome (p : Process) : Outcome :=
  match p.ending with
  | .ok code => .exited (code.getD unknownExitCode)
  | .error cause => .failed (.wait cause)

/-- What is told of the standard output: its lines, and then its end. -/
def stdoutEvents (p : Process) : List RunEvent :=
  (streamLines p.stdout).map .stdout ++ [.stdoutClosed]

def stderrEvents (p : Process) : List RunEvent :=
  (streamLines p.stderr).map .stderr

/-- The events of a process in one of their orders: the lines of the standard output come first, and
its end is told last. -/
def events (p : Process) : List RunEvent :=
  (streamLines p.stdout).map .stdout ++ p.stderrEvents ++ [.stdoutClosed] ++ [.finished p.outcome]

end Process

/-- The events of a run, given what became of its start. -/
def startEvents : Except RunError Process → List RunEvent
  | .ok p => p.events
  | .error e => [.finished (.failed e)]

/-! ## Machines -/

/-- A machine with states of type `σ`. A scratch file is a new empty file for temporary use; `start`
runs a program to its end. -/
structure Machine (σ : Type) where
  fileContent : σ → String → Except FileError (List UInt8)
  createScratch : σ → Except String String × σ
  removeScratch : σ → String → σ
  start : σ → Request → Except RunError Process × σ

namespace Machine

variable {σ : Type}

def readText (m : Machine σ) (s : σ) (path : String) : Except FileError String :=
  m.fileContent s path >>= decodeFile

end Machine

/-- What became of reading files, by path. -/
abbrev Readings := List (String × Except FileError (List UInt8))

def readingsMachine : Machine Readings where
  fileContent readings path := (readings.lookup path).getD (.error .missing)
  createScratch readings := (.ok "ksp-compiled.txt", readings)
  removeScratch readings _ := readings
  start readings request :=
    (.error (.spawn request.executable "Operation not supported (os error 95)"), readings)

end KspWorkbench
