import KspWorkbench.Data.Datum
import KspWorkbench.Text.Scanning

/-!
# Compiler options

How the compiler is started. An option that is not given has its default, and unknown ones are
passed over.
-/

namespace KspWorkbench

/-- How the compiler is started. The script is passed to the program as its first argument; the last
two fields say which of its streams are written to the log. -/
structure Options where
  executable : String := "python"
  script : Option String := none
  force : Bool := false
  compact : Bool := false
  compactVariables : Bool := false
  combineCallbacks : Bool := false
  extraSyntaxCheck : Bool := false
  optimize : Bool := false
  extraBranchOptimization : Bool := false
  indentSize : Nat := 4
  addCompileDate : Bool := false
  sanitizeExitCommand : Bool := false
  showStdout : Bool := false
  showStderr : Bool := false
  deriving DecidableEq, Repr, Inhabited

namespace Options

/-- The names of the options, in the order of the fields. -/
def names : List String :=
  ["executable", "script", "force", "compact", "compact_variables", "combine_callbacks",
   "extra_syntax_check", "optimize", "extra_branch_optimization", "indent_size",
   "add_compile_date", "sanitize_exit_command", "show_stdout", "show_stderr"]

def ofDatum? (d : Datum) : Option Options := do
  let fields ← d.fields? names
  let flag (index : Nat) : Option Bool := fields.getD index Datum.toBool? false
  return {
    executable := ← fields.getD 0 Datum.toText? "python"
    script := ← fields.getD 1 (Datum.toOptional? Datum.toText?) none
    force := ← flag 2
    compact := ← flag 3
    compactVariables := ← flag 4
    combineCallbacks := ← flag 5
    extraSyntaxCheck := ← flag 6
    optimize := ← flag 7
    extraBranchOptimization := ← flag 8
    indentSize := ← fields.getD 9 (Datum.toNat? maxLineNumber) 4
    addCompileDate := ← flag 10
    sanitizeExitCommand := ← flag 11
    showStdout := ← flag 12
    showStderr := ← flag 13 }

end Options

end KspWorkbench
