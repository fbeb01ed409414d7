import KspWorkbench.Command.Completion
import KspWorkbench.Data.Encoding
import KspWorkbench.Data.JsonWriter
import KspWorkbench.Validation.Supervisor

/-!
# Checking files

Every file that is named is validated once, whatever the settings say. Runs end in any order; the
report has the documents in the order of their keys. The check fails if there is an error among the
diagnostics or the notices.
-/

namespace KspWorkbench

/-- What a check found: the runs by document, the notices in the order in which they came up, and
the numbers of errors and warnings in short. -/
structure CheckReport where
  documents : List RunSummary
  notices : List Notice
  status : String
  deriving DecidableEq, Repr

namespace CheckReport

def isFailure (r : CheckReport) : Bool :=
  (r.documents.flatMap RunSummary.diagnostics).any (·.severity.isError) ||
    r.notices.any Notice.isError

def toDatum (r : CheckReport) : Datum :=
  .record [("documents", .list (r.documents.map RunSummary.toDatum)),
    ("notices", .list (r.notices.map Notice.toDatum))]

def diagnosticLines (summary : RunSummary) : List String :=
  summary.diagnostics.map (·.display summary.document.path)

def complete (r : CheckReport) (json : Bool) : Completion where
  stdout :=
    if json then Json.pretty r.toDatum ++ "\n" else asLines (r.documents.flatMap diagnosticLines)
  stderr :=
    if json then ""
    else asLines (r.notices.map Notice.message ++ if r.status = "" then [] else [r.status])
  exitCode := if r.isFailure then 1 else 0

end CheckReport

def checkedKeys (files : List String) : List DocumentKey :=
  DocumentKey.sortDistinct (files.map DocumentKey.mk)

/-- A service for a check of these files, and the number of runs that were accepted. -/
def startCheck (config : Config) (files : List String) : Nat × Service :=
  let service := Service.create config.options { config.settings with enabled := true }
  (checkedKeys files).foldl (fun (accepted, s) key =>
    let (ok, s) := s.validate key 0
    (if ok then accepted + 1 else accepted, s)) (0, service)

def collectRuns (s : Service) : Nat → List RunSummary × Service
  | 0 => ([], s)
  | n + 1 =>
    match s.refill.nextRun with
    | (none, s) => ([], s)
    | (some summary, s) =>
      let (summaries, s) := collectRuns s n
      (summary :: summaries, s)

/-- The report of a check, from the runs in the order in which they were applied. -/
def concludeCheck (summaries : List RunSummary) (s : Service) : CheckReport where
  documents := summaries.mergeSort fun a b => a.document.le b.document
  notices := s.notices
  status := s.snapshot.status

variable {σ : Type}

def check (m : Machine σ) (s : σ) (config : Config) (files : List String) : CheckReport × σ :=
  let (accepted, service) := startCheck config files
  let settled := { service := service, machine := s : Supervisor σ }.settle m
  let (summaries, service) := collectRuns settled.service accepted
  (concludeCheck summaries service, settled.machine)

end KspWorkbench
