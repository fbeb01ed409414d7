import KspWorkbench.Document

/-!
# Diagnostics

A message about one line of a script. The compiler names a level with a word; a word that is not
known counts as an error, so that nothing is hidden.
-/

namespace KspWorkbench

inductive Severity where
  | error
  | warning
  | information
  deriving DecidableEq, Repr

namespace Severity

/-- The severity that a level word of the compiler stands for. -/
def ofLevel (level : String) : Severity :=
  if level = "WARNING" then .warning
  else if level = "INFO" ∨ level = "DEBUG" then .information
  else .error

def label : Severity → String
  | .error => "error"
  | .warning => "warning"
  | .information => "info"

def name : Severity → String
  | .error => "error"
  | .warning => "warning"
  | .information => "information"

def isError (s : Severity) : Bool :=
  s = .error

end Severity

def compilerSource : String :=
  "ksp"

/-- A message about one line, counted from zero, with its source: who reports it. -/
structure Diagnostic where
  severity : Severity
  message : String
  line : Nat
  source : String
  deriving DecidableEq, Repr

namespace Diagnostic

def ofCompiler (severity : Severity) (message : String) (line : Nat) : Diagnostic :=
  ⟨severity, message, line, compilerSource⟩

/-- The span of a diagnostic is its whole line. -/
def range (d : Diagnostic) : Range :=
  Range.wholeLine d.line

/-- One line of text: path, line counted from one, severity, source and message. -/
def display (d : Diagnostic) (path : String) : String :=
  path ++ ":" ++ toString (d.line + 1) ++ ": " ++ d.severity.label ++ ": [" ++ d.source ++ "] " ++
    d.message

end Diagnostic

end KspWorkbench
