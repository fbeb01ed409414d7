import KspWorkbench.Compiler.Options

/-!
# Compiler requests

The program and the arguments of one compiler run: the script, the flags that are on, the indent
size, the trailing flags, the input and the output. A request is fixed when it is made; options
that change later do not touch it.
-/

namespace KspWorkbench

/-- One fully resolved compiler run. -/
structure Request where
  executable : String
  args : List String
  deriving DecidableEq, Repr, Inhabited

namespace Options

/-- The flags before the indent size, each with whether it is on. -/
def leadingFlags (o : Options) : List (Bool × String) :=
  [(o.force, "--force"), (o.compact, "--compact"), (o.compactVariables, "--compact_variables"),
   (o.combineCallbacks, "--combine_callbacks"), (o.extraSyntaxCheck, "--extra_syntax_check"),
   (o.optimize, "--optimize"), (o.extraBranchOptimization, "--extra_branch_optimization")]

/-- The flags behind the indent size, each with whether it is on. -/
def trailingFlags (o : Options) : List (Bool × String) :=
  [(o.addCompileDate, "--add_compile_date"),
   (o.sanitizeExitCommand, "--sanitize_exit_command")]

end Options

def enabledFlags (flags : List (Bool × String)) : List String :=
  (flags.filter (·.1)).map (·.2)

def indentSizeFlag : String :=
  "--indent-size"

/-- The request to compile `input`, into `output` if it is given. -/
def Request.build (o : Options) (input : String) (output : Option String) : Request where
  executable := o.executable
  args :=
    o.script.toList ++ enabledFlags o.leadingFlags ++ [indentSizeFlag, toString o.indentSize] ++
      enabledFlags o.trailingFlags ++ [input] ++ output.toList

end KspWorkbench
