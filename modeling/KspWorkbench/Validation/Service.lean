import KspWorkbench.Validation.Pattern
import KspWorkbench.Validation.ResultQueue
import KspWorkbench.Validation.Settings
import KspWorkbench.Validation.Snapshot

/-!
# The validation service

The service follows the documents that an editor works on and decides when the compiler runs. Its
whole state is one value, and everything that can happen to it is a function on that value: events
from the editor, changes of the configuration, the end of a delay (`fire`), the end of a run
(`complete`), and the application of results (`applyNext`). How these interleave is decided
elsewhere.

A session has at most one run in flight; a request whose delay ends meanwhile is dropped. Results
are applied only to the session that they belong to. A run that could not start pauses its session
until the program in the configuration changes.
-/

namespace KspWorkbench

inductive DocumentEvent where
  | opened (key : DocumentKey)
  | saved (key : DocumentKey)
  | edited (key : DocumentKey)
  | closed (key : DocumentKey)
  deriving DecidableEq, Repr

/-- A run in flight: the session that it belongs to, the document, and what was requested. -/
structure Flight where
  session : SessionId
  document : DocumentKey
  plan : Plan
  deriving DecidableEq, Repr

/-- What is published of a run that was applied; there is an exit code if the process ended. -/
structure RunSummary where
  document : DocumentKey
  exitCode : Option Int
  diagnostics : List Diagnostic
  deriving DecidableEq, Repr

/-- What is published of the run of a document that reports `report`. -/
def Report.summary (report : Report) (key : DocumentKey) : RunSummary :=
  ⟨key, report.outcome.exitCode?, report.diagnostics⟩

abbrev KeySet := List DocumentKey

def KeySet.add (s : KeySet) (key : DocumentKey) : KeySet :=
  if s.contains key then s else key :: s

def KeySet.remove (s : KeySet) (key : DocumentKey) : KeySet :=
  s.filter (· ≠ key)

@[simp] theorem KeySet.mem_add {s : KeySet} {key other : DocumentKey} :
    other ∈ s.add key ↔ other = key ∨ other ∈ s := by
  unfold KeySet.add
  split
  · next h =>
    have hmem : key ∈ s := by simpa using h
    exact ⟨.inr, fun ho => ho.elim (fun he => he ▸ hmem) id⟩
  · exact List.mem_cons

@[simp] theorem KeySet.mem_remove {s : KeySet} {key other : DocumentKey} :
    other ∈ s.remove key ↔ other ∈ s ∧ other ≠ key := by
  simp [KeySet.remove]

structure Service where
  compiler : Options
  settings : Settings := {}
  -- the delay of live validation, and whether one that is too short was reported.
  liveDelay : Nat := defaultLiveDelay
  delayWarned : Bool := false
  patterns : List Pattern := []
  registry : Registry := {}
  -- the flags of sessions, alive or not; a run in flight may outlive its session.
  running : List SessionId := []
  inFlight : List Flight := []
  -- the marks of documents: open, saved by the editor on its own behalf, with an edit that was
  -- accepted since the last save.
  openDocuments : KeySet := []
  ownSaves : KeySet := []
  liveEdits : KeySet := []
  -- what was not fetched or applied yet, the oldest first.
  notices : List Notice := []
  results : ResultQueue := {}
  -- the time in milliseconds, and the number of requests accepted so far.
  now : Nat := 0
  tickets : Nat := 0

namespace Service

/-! ## Configuration -/

def shortDelayNotice (delay : Nat) : Notice where
  kind := .configWarning
  document := none
  message := "Live validation delay of " ++ toString delay ++ " ms is below the minimum of " ++
    toString minLiveDelay ++ " ms; using " ++ toString defaultLiveDelay ++ " ms"

def badPatternNotice (pattern : String) : Notice where
  kind := .configWarning
  document := none
  message := "Ignoring invalid file pattern '" ++ pattern ++ "'"

/-- Puts settings in force. A delay that is too short is replaced, which is reported once; texts
that are no patterns are reported every time. -/
def setSettings (s : Service) (settings : Settings) : Service :=
  let short := settings.liveDelay?.isNone
  let patterns := PatternSet.ofStrings settings.filePatterns
  { s with
    settings := settings
    liveDelay := settings.liveDelay?.getD defaultLiveDelay
    delayWarned := s.delayWarned || short
    patterns := patterns.valid
    notices := s.notices ++
      (if short && !s.delayWarned then [shortDelayNotice settings.delay] else []) ++
      patterns.invalid.map badPatternNotice }

def create (compiler : Options) (settings : Settings) : Service :=
  { compiler := compiler : Service }.setSettings settings

def selects (s : Service) (key : DocumentKey) : Bool :=
  s.patterns.any (·.covers key.path)

/-- Whether events of a document lead to runs. -/
def shouldValidate (s : Service) (key : DocumentKey) : Bool :=
  s.settings.enabled && s.selects key

/-! ## Requests -/

/-- The run that a request for `key` stands for now. -/
def plan (s : Service) (key : DocumentKey) : Plan where
  ticket := s.tickets + 1
  request := Request.build s.compiler key.path none
  echo := ⟨s.compiler.showStdout, s.compiler.showStderr⟩

/-- Requests a run after `delay`, in place of the one that waits. A paused session refuses. -/
def validate (s : Service) (key : DocumentKey) (delay : Nat) : Bool × Service :=
  let (session, registry) := s.registry.getOrCreate key
  if session.paused then
    (false, { s with registry := registry })
  else
    let plan := s.plan key
    let accept (session : Session) : Session :=
      { session with
        lastExecutable := some plan.request.executable
        gate := (session.gate.setDelay delay).trigger s.now plan }
    (true, { s with registry := registry.modify key accept, tickets := s.tickets + 1 })

/-- Requests a run at once, without regard to whether it is refused. -/
def validateNow (s : Service) (key : DocumentKey) : Service :=
  (s.validate key 0).2

/-- Puts a configuration in force. If the program changed, sessions that another program paused are
resumed. If validation is enabled, every open document that is selected is validated again. -/
def applyConfig (s : Service) (compiler : Options) (settings : Settings) : Service :=
  let changed := !samePath compiler.executable s.compiler.executable
  let s := { s with compiler := compiler }.setSettings settings
  let s :=
    if changed then { s with registry := s.registry.resumeChanged compiler.executable } else s
  if settings.enabled then
    ((DocumentKey.sortDistinct s.openDocuments).filter s.selects).foldl validateNow s
  else
    s

def handle (s : Service) : DocumentEvent → Service
  | .opened key =>
    let s := { s with openDocuments := s.openDocuments.add key }
    if s.shouldValidate key then s.validateNow key else s
  | .saved key =>
    if s.ownSaves.contains key then s
    else
      let s := { s with liveEdits := s.liveEdits.remove key }
      if s.shouldValidate key then s.validateNow key else s
  | .edited key =>
    if s.settings.live && s.shouldValidate key then
      ({ s with liveEdits := s.liveEdits.add key }.validate key s.liveDelay).2
    else
      s
  | .closed key =>
    { s with
      openDocuments := s.openDocuments.remove key
      liveEdits := s.liveEdits.remove key
      ownSaves := s.ownSaves.remove key
      registry := s.registry.dispose key }

/-- From now on saves of the document are the editor's own. -/
def beginOwnSave (s : Service) (key : DocumentKey) : Service :=
  { s with ownSaves := s.ownSaves.add key }

/-- From now on saves of the document are the user's again. -/
def endOwnSave (s : Service) (key : DocumentKey) : Service :=
  { s with ownSaves := s.ownSaves.remove key }

/-- Ends all sessions and forgets all marks. Runs in flight go on. -/
def shutdown (s : Service) : Service :=
  { s with
    registry := s.registry.disposeAll
    openDocuments := []
    liveEdits := []
    ownSaves := [] }

/-! ## Runs -/

/-- The delay of the run that waits for `key` is over. It starts unless a run of the session is in
flight; then it is dropped. -/
def fire (s : Service) (key : DocumentKey) : Option Flight × Service :=
  match s.registry.get? key with
  | none => (none, s)
  | some session =>
    match session.gate.take with
    | (none, _) => (none, s)
    | (some plan, gate) =>
      let registry := s.registry.modify key fun session => { session with gate := gate }
      if s.running.contains session.id then
        (none, { s with registry := registry })
      else
        let flight : Flight := ⟨session.id, key, plan⟩
        (some flight, { s with
          registry := registry
          running := session.id :: s.running
          inFlight := s.inFlight ++ [flight] })

/-- The run in flight of a session has ended: its flag is cleared and its result is queued. -/
def complete (s : Service) (id : SessionId) (report : Report) : Service :=
  match s.inFlight.find? (·.session = id) with
  | none => s
  | some flight =>
    { s with
      running := s.running.filter (· ≠ id)
      inFlight := s.inFlight.filter (·.session ≠ id)
      results := s.results.push
        ⟨flight.document, id, flight.plan.request.executable, report⟩ }

/-- Lets results into the queue as far as there are places. -/
def refill (s : Service) : Service :=
  { s with results := s.results.refill }

def advance (s : Service) (ms : Nat) : Service :=
  { s with now := s.now + ms }

/-- When the request that waits at the gate of a session is due, and its number. -/
def dueTime? (session : Session) : Option (Nat × Nat) := do
  let waiting ← session.gate.waiting
  return (← waiting.due, waiting.task.ticket)

/-- The documents with a request that waits, with the time when it is due: the earliest first, and
of those that are due at the same time the oldest request first. -/
def agenda (s : Service) : List (Nat × DocumentKey) :=
  let waiting := s.registry.sessions.filterMap fun (key, session) =>
    (dueTime? session).map fun (due, ticket) => (due, ticket, key)
  let ordered := waiting.mergeSort fun a b =>
    if a.1 = b.1 then a.2.1 ≤ b.2.1 else a.1 ≤ b.1
  ordered.map fun (due, _, key) => (due, key)

/-! ## Results -/

/-- Whether a session is paused after a run with this outcome. A run that could not start counts
only against the program in the configuration. -/
def pausedAfter (s : Service) (session : Session) (executable : String) : Outcome → Bool
  | .exited _ => false
  | .failed e =>
    session.paused || (e.isSetupFailure && samePath executable s.compiler.executable)

/-- Applies a result. The result of a session that is gone is dropped. -/
def applyResult (s : Service) (r : RunResult) : Option RunSummary × Service :=
  match s.registry.current? r.document r.session with
  | none => (none, s)
  | some session =>
    let paused := s.pausedAfter session r.executable r.report.outcome
    let publish (session : Session) : Session :=
      { session with paused := paused, diagnostics := r.report.diagnostics }
    (some (r.report.summary r.document),
      { s with
        registry := s.registry.modify r.document publish
        notices := s.notices ++ r.report.notices })

/-- Takes the oldest result from the queue and applies it: whether there was one, and its
summary. -/
def applyNext (s : Service) : Option (Option RunSummary) × Service :=
  match s.results.ready with
  | [] => (none, s)
  | r :: rest =>
    let (summary, s) :=
      { s with results := { s.results with ready := rest } }.applyResult r
    (some summary, s)

def poll (s : Service) : Nat → List RunSummary × Service
  | 0 => ([], s)
  | budget + 1 =>
    match s.applyNext with
    | (none, s) => ([], s)
    | (some summary, s) =>
      let (summaries, s) := s.poll budget
      (summary.toList ++ summaries, s)

/-- Applies results until one belongs to a session that is alive; `tries` bounds their number. -/
def nextRunWithin (s : Service) : Nat → Option RunSummary × Service
  | 0 => (none, s)
  | tries + 1 =>
    match s.applyNext with
    | (none, s) => (none, s)
    | (some (some summary), s) => (some summary, s)
    | (some none, s) => s.nextRunWithin tries

def nextRun (s : Service) : Option RunSummary × Service :=
  s.nextRunWithin s.results.ready.length

/-! ## Queries -/

def drainNotices (s : Service) : List Notice × Service :=
  (s.notices, { s with notices := [] })

def snapshot (s : Service) : Snapshot :=
  s.registry.snapshot

def diagnostics (s : Service) (key : DocumentKey) : List Diagnostic :=
  s.registry.published key

def sessionState? (s : Service) (key : DocumentKey) : Option SessionState :=
  (s.registry.get? key).map fun session => session.state (s.running.contains session.id)

def isPaused (s : Service) (key : DocumentKey) : Bool :=
  (s.registry.get? key).any Session.paused

/-- Whether an edit of a document was accepted since the document was saved. -/
def liveEditPending (s : Service) (key : DocumentKey) : Bool :=
  s.liveEdits.contains key

end Service

end KspWorkbench
