import KspWorkbench.Command.Compilation
import KspWorkbench.Config.File
import KspWorkbench.Data.Encoding
import KspWorkbench.Data.JsonWriter

/-!
# How commands end

A command that fails tells what it could not do, and below it the causes, the nearest first.

A compilation writes diagnostics and notices to the standard error, and the compiled script to the
standard output unless an output file is named. The list of symbols has one line a symbol: where it
stands, counted from one, its name and what it is.
-/

namespace KspWorkbench

/-! ## Failures -/

/-- Why a command failed. -/
inductive CommandError where
  | config (error : ConfigError)
  | missingConfig (path : String)
  | compile (input : String) (error : CompileError)
  | readScript (path : String) (error : FileError)
  | readRequest (error : FileError)
  deriving DecidableEq, Repr

namespace CommandError

/-- What could not be done. -/
def message : CommandError → String
  | .config e => e.message
  | .missingConfig path => "config file " ++ path ++ " does not exist"
  | .compile input _ => "failed to compile " ++ input
  | .readScript path _ => "failed to read " ++ path
  | .readRequest _ => "failed to read request"

/-- The causes, the nearest first. -/
def causes : CommandError → List String
  | .config (.read _ cause) => [cause]
  | .config (.parse _) | .missingConfig _ => []
  | .compile _ e => e.message :: e.cause?.toList
  | .readScript _ e | .readRequest e => [e.message]

/-- Text behind a label, with its further lines indented as far. -/
def indented (label text : String) : String :=
  let margin := "\n" ++ String.ofList (List.replicate label.length ' ')
  label ++ String.ofList (text.toList.flatMap fun c => if c = '\n' then margin.toList else [c])

/-- The causes below each other. They are numbered if there are several. -/
def renderCauses : List String → String
  | [] => ""
  | [cause] => "\nCaused by:\n" ++ indented "    " cause ++ "\n"
  | causes =>
    "\nCaused by:\n" ++ String.join (causes.zipIdx.map fun (cause, number) =>
      indented ("    " ++ toString number ++ ": ") cause ++ "\n")

def render (e : CommandError) : String :=
  "Error: " ++ e.message ++ "\n" ++ renderCauses e.causes

end CommandError

/-- How a command ended: what it wrote to its two streams, and its exit code. -/
structure Completion where
  stdout : String := ""
  stderr : String := ""
  exitCode : Nat := 0
  deriving DecidableEq, Repr

/-- A command that failed after it had written to the standard error. -/
def Completion.failed (stderr : String) (e : CommandError) : Completion where
  stderr := stderr ++ e.render
  exitCode := 1

def asLines (texts : List String) : String :=
  String.join (texts.map (· ++ "\n"))

/-! ## Compilations -/

/-- What a compilation shows to the user before it succeeds or fails. -/
def CompileReport.remarks (r : CompileReport) : String :=
  asLines (r.diagnostics.map (·.display r.document.path) ++ r.notices.map Notice.message)

def completeCompile (input : String) : Except CompileError CompileReport → Completion
  | .error e => .failed "" (.compile input e)
  | .ok report =>
    match report.check with
    | .error e => .failed report.remarks (.compile input e)
    | .ok () => { stdout := report.text.getD "", stderr := report.remarks }

/-! ## Lists of symbols -/

def Symbol.listing (s : Symbol) : String :=
  toString (s.line + 1) ++ ":" ++ toString (s.column + 1) ++ "\t" ++ s.sourceName ++ "\t" ++
    s.kind.description

/-- The symbols of a script as they are shown to the user, given what became of reading it. -/
def completeSymbols (file : String) (json : Bool) : Except FileError String → Completion
  | .error e => .failed "" (.readScript file e)
  | .ok text =>
    let symbols := collect text
    if json then { stdout := Json.pretty (.list (symbols.map Symbol.toDatum)) ++ "\n" }
    else { stdout := asLines (symbols.map Symbol.listing) }

end KspWorkbench
