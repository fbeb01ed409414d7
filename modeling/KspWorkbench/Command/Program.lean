import KspWorkbench.Command.Arguments
import KspWorkbench.Command.Check
import KspWorkbench.Command.Completion
import KspWorkbench.Command.Serve

/-!
# The program

From the arguments to the end of the program. The configuration is loaded before the command is
looked at, so that a faulty one stops every command.
-/

namespace KspWorkbench

def versionText : String :=
  "ksp 0.1.0\n"

def usageText : String :=
  asLines ["Usage: ksp [--config <FILE>] <COMMAND>", "", "Commands:",
    "  check <FILES>... [--json]   Validate scripts with the configured compiler",
    "  compile <INPUT> [OUTPUT]    Compile a script",
    "  symbols <FILE> [--json]     List the declarations in a script",
    "  serve                       Read requests from the standard input, write events"]

def completeStop : ArgumentStop → Completion
  | .usage => { stderr := usageText, exitCode := 2 }
  | .help => { stdout := usageText }
  | .version => { stdout := versionText }

/-- The usual configuration file below a home directory. -/
def usualConfig (home : String) : String :=
  home ++ (if home.endsWith "/" then "" else "/") ++ ".ksp/config.toml"

/-- The configuration for an invocation. A file that is named must be there. -/
def loadConfig (read : String → Except FileError (List UInt8)) (home named : Option String) :
    Except CommandError Config :=
  match named, home with
  | some path, _ =>
    match Config.load path (read path) with
    | .error e => .error (.config e)
    | .ok none => .error (.missingConfig path)
    | .ok (some config) => .ok config
  | none, some home =>
    match Config.load (usualConfig home) (read (usualConfig home)) with
    | .error e => .error (.config e)
    | .ok config => .ok (config.getD {})
  | none, none => .ok {}

variable {σ : Type}

/-- Carries out a command; `input` is the standard input. -/
def perform (m : Machine σ) (s : σ) (config : Config) (input : List UInt8) :
    Command → Completion × σ
  | .check files json =>
    let (report, s) := check m s config files
    (report.complete json, s)
  | .compile script output =>
    let (compilation, s) := compile m s config.options script output
    (completeCompile script compilation.result, s)
  | .symbols file json => (completeSymbols file json (m.readText s file), s)
  | .serve => ((converseAll (m.readText s) (startServer config) (inputLines input)).complete, s)

def runProgram (m : Machine σ) (s : σ) (home : Option String) (input : List UInt8)
    (args : List String) : Completion × σ :=
  match readArguments args with
  | .error stop => (completeStop stop, s)
  | .ok invocation =>
    match loadConfig (m.fileContent s) home invocation.config with
    | .error e => (.failed "" e, s)
    | .ok config => perform m s config input invocation.command

end KspWorkbench
