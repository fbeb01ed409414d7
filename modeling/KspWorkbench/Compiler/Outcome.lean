/-!
# Outcomes of a compiler run

A run ends with an exit code or fails. It fails before it starts if the program is missing or
cannot be started; such setup failures lie with the machine and not with the script.
-/

namespace KspWorkbench

/-- Why a compiler run did not come to its end: the program was not found, or was found and could
not be started, or could not be waited for. -/
inductive RunError where
  | notFound (program : String)
  | spawn (program cause : String)
  | wait (cause : String)
  deriving DecidableEq, Repr

namespace RunError

def message : RunError → String
  | .notFound program => "executable '" ++ program ++ "' not found"
  | .spawn program cause => "failed to start '" ++ program ++ "': " ++ cause
  | .wait cause => "failed waiting for compiler process: " ++ cause

/-- Whether the process never started. -/
def isSetupFailure : RunError → Bool
  | .notFound _ | .spawn .. => true
  | .wait _ => false

def cause? : RunError → Option String
  | .notFound _ => none
  | .spawn _ cause | .wait cause => some cause

end RunError

/-- How a compiler run ended. A process that was killed counts as exit code -1. -/
inductive Outcome where
  | exited (code : Int)
  | failed (error : RunError)
  deriving DecidableEq, Repr

namespace Outcome

def isSuccess (o : Outcome) : Bool :=
  o = .exited 0

def exitCode? : Outcome → Option Int
  | .exited code => some code
  | .failed _ => none

end Outcome

end KspWorkbench
