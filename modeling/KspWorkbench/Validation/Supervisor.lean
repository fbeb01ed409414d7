import KspWorkbench.Machine.Interface
import KspWorkbench.Validation.Service

/-!
# The supervisor

The supervisor brings a service together with a machine: it fires the requests whose delay is over,
starts the compiler for them, and hands the reports back. A run that cannot start has ended at once.
Processes of documents that are held stay suspended until they are released; all others end before
time goes on, one document after the other.
-/

namespace KspWorkbench

/-- A process that has started and not ended, with what it is going to do. -/
structure Suspended where
  flight : Flight
  process : Process

/-- A service at work on a machine with states of type `σ`. The processes of held documents are
suspended when they have started, the oldest first. What observers were told and what was written to
the log is kept. -/
structure Supervisor (σ : Type) where
  service : Service
  machine : σ
  held : KeySet := []
  suspended : List Suspended := []
  told : List (DocumentKey × ObserverCall) := []
  log : List LogLine := []

namespace Supervisor

variable {σ : Type}

def withService (v : Supervisor σ) (change : Service → Service) : Supervisor σ :=
  { v with service := change v.service }

/-- A run has ended after these events. -/
def conclude (v : Supervisor σ) (flight : Flight) (events : List RunEvent) : Supervisor σ :=
  let calls := observerCalls events
  { v with
    service := v.service.complete flight.session (collectRun flight.document events)
    told := v.told ++ calls.map (flight.document, ·)
    log := v.log ++ flight.plan.echo.log flight.document calls }

def finish (v : Supervisor σ) (p : Suspended) : Supervisor σ :=
  v.conclude p.flight p.process.events

/-- Fires the request that waits for a document. A run that cannot start ends; a process that has
started is suspended. -/
def launch (m : Machine σ) (v : Supervisor σ) (key : DocumentKey) : Supervisor σ :=
  match v.service.fire key with
  | (none, service) => { v with service := service }
  | (some flight, service) =>
    let (started, machine) := m.start v.machine flight.plan.request
    let v := { v with service := service, machine := machine }
    match started with
    | .error e => v.conclude flight (startEvents (.error e))
    | .ok process => { v with suspended := v.suspended ++ [⟨flight, process⟩] }

def dueKeys (v : Supervisor σ) : List DocumentKey :=
  (v.service.agenda.filter fun (due, _) => due ≤ v.service.now).map Prod.snd

/-- Lets the processes end that were started since `before` of them were suspended, those of
documents that are held excepted. Documents come in the order of their keys. -/
def finishSince (v : Supervisor σ) (before : Nat) : Supervisor σ :=
  let (held, free) :=
    (v.suspended.drop before).partition fun p => v.held.contains p.flight.document
  let v := { v with suspended := v.suspended.take before ++ held }
  (free.mergeSort fun a b => a.flight.document.le b.flight.document).foldl finish v

def settle (m : Machine σ) (v : Supervisor σ) : Supervisor σ :=
  let launched := v.dueKeys.foldl (launch m) v
  (launched.finishSince v.suspended.length).withService Service.refill

def tick (m : Machine σ) (v : Supervisor σ) : Supervisor σ :=
  (v.withService (·.advance 1)).settle m

/-- Lets time pass, one millisecond after the other. -/
def pass (m : Machine σ) (v : Supervisor σ) (ms : Nat) : Supervisor σ :=
  Nat.repeat (tick m) ms v

/-- Lets time pass until the next request is due, and does everything that is due then. -/
def skipAhead (m : Machine σ) (v : Supervisor σ) : Supervisor σ :=
  match v.service.agenda with
  | [] => v.settle m
  | (due, _) :: _ => (v.withService fun s => { s with now := max s.now due }).settle m

/-- Processes of a document that start from now on are suspended. -/
def hold (v : Supervisor σ) (key : DocumentKey) : Supervisor σ :=
  { v with held := v.held.add key }

/-- Processes of a document that start from now on are not suspended. -/
def unhold (v : Supervisor σ) (key : DocumentKey) : Supervisor σ :=
  { v with held := v.held.remove key }

/-- Lets the oldest suspended process of a document end: whether there was one. -/
def release (v : Supervisor σ) (key : DocumentKey) : Bool × Supervisor σ :=
  match v.suspended.findIdx? fun p => p.flight.document = key with
  | none => (false, v)
  | some i =>
    match v.suspended[i]? with
    | none => (false, v)
    | some p => (true, { v with suspended := v.suspended.eraseIdx i }.finish p)

/-- Takes what observers were told and what was logged. -/
def drainObserved (v : Supervisor σ) :
    (List (DocumentKey × ObserverCall) × List LogLine) × Supervisor σ :=
  ((v.told, v.log), { v with told := [], log := [] })

end Supervisor

end KspWorkbench
