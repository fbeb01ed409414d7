import KspWorkbench.Document

/-!
# Notices

Messages for the user that belong to no line of a script.
-/

namespace KspWorkbench

/-- What a notice is about. The compiler can report an exception or something else, under a label of
its own; a configuration warning tells that a part of the configuration was rejected. -/
inductive NoticeKind where
  | executableNotFound
  | executionError
  | compileFailed (code : Int)
  | compileSucceeded
  | exception
  | fatal (label : String)
  | configWarning
  deriving DecidableEq, Repr

def NoticeKind.name : NoticeKind → String
  | .executableNotFound => "executable_not_found"
  | .executionError => "execution_error"
  | .compileFailed _ => "compile_failed"
  | .compileSucceeded => "compile_succeeded"
  | .exception => "exception"
  | .fatal _ => "fatal"
  | .configWarning => "config_warning"

structure Notice where
  kind : NoticeKind
  document : Option DocumentKey
  message : String
  deriving DecidableEq, Repr

def Notice.isError (n : Notice) : Bool :=
  n.kind ≠ .compileSucceeded ∧ n.kind ≠ .configWarning

end KspWorkbench
