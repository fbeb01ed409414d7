import KspWorkbench.Validation.Session

/-!
# Snapshots of diagnostics

All published diagnostics by document. Documents without any are left out; those with errors come
first, and within the two groups the keys decide.
-/

namespace KspWorkbench

structure DocumentDiagnostics where
  document : DocumentKey
  diagnostics : List Diagnostic
  deriving DecidableEq, Repr

namespace DocumentDiagnostics

def hasError (d : DocumentDiagnostics) : Bool :=
  d.diagnostics.any (·.severity.isError)

def le (a b : DocumentDiagnostics) : Bool :=
  if a.hasError = b.hasError then a.document.le b.document else a.hasError

end DocumentDiagnostics

structure Snapshot where
  documents : List DocumentDiagnostics
  deriving DecidableEq, Repr

namespace Snapshot

def isEmpty (s : Snapshot) : Bool :=
  s.documents.isEmpty

def count (s : Snapshot) (severity : Severity) : Nat :=
  (s.documents.flatMap DocumentDiagnostics.diagnostics).countP (·.severity = severity)

def total (s : Snapshot) : Nat :=
  (s.documents.flatMap DocumentDiagnostics.diagnostics).length

/-- The numbers of errors and warnings in short, or nothing if there are no diagnostics. -/
def status (s : Snapshot) : String :=
  if s.isEmpty then ""
  else "E:" ++ toString (s.count .error) ++ " W:" ++ toString (s.count .warning)

end Snapshot

/-- The diagnostics that are published for a document; a document without a session has none. -/
def Registry.published (r : Registry) (key : DocumentKey) : List Diagnostic :=
  ((r.get? key).map Session.diagnostics).getD []

theorem Registry.published_of_get? {r : Registry} {key : DocumentKey} {session : Session}
    (h : r.get? key = some session) : r.published key = session.diagnostics := by
  rw [published, h]
  rfl

theorem Registry.published_of_none {r : Registry} {key : DocumentKey} (h : r.get? key = none) :
    r.published key = [] := by
  rw [published, h]
  rfl

def Registry.snapshot (r : Registry) : Snapshot where
  documents :=
    ((r.sessions.map fun (key, session) => DocumentDiagnostics.mk key session.diagnostics).filter
      (! ·.diagnostics.isEmpty)).mergeSort DocumentDiagnostics.le

end KspWorkbench
