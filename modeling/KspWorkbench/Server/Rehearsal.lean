import KspWorkbench.Command.Serve
import KspWorkbench.Validation.Supervisor

/-!
# Rehearsed conversations

A conversation with a server at work on a machine, in which time stands still unless the editor
waits for events. Work that is pending is then done piece by piece: runs that have ended are
applied, and if there are none, time goes on to the next request that is due.
-/

namespace KspWorkbench

/-- A conversation with a server at work on a machine with states of type `σ`, and the events that
the editor has not read yet. -/
structure Rehearsal (σ : Type) where
  supervisor : Supervisor σ
  unread : List ServerEvent := []
  ended : Bool := false

namespace Rehearsal

variable {σ : Type}

/-- Further events and the service after them. -/
def tell (r : Rehearsal σ) (events : List ServerEvent) (service : Service) : Rehearsal σ :=
  { r with
    unread := r.unread ++ events
    supervisor := { r.supervisor with service := service } }

/-- One piece of pending work. -/
def work (m : Machine σ) (r : Rehearsal σ) : Rehearsal σ :=
  if r.supervisor.service.results.ready.isEmpty then
    { r with supervisor := r.supervisor.skipAhead m }
  else
    let (events, service) := r.supervisor.service.publishRun
    r.tell events service

/-- A bound on the pieces of pending work: a request is fired and its result is applied. -/
def pending (r : Rehearsal σ) : Nat :=
  2 * r.supervisor.service.agenda.length + r.supervisor.service.results.toList.length

/-- Does at most so many pieces of work until there are `wanted` events. -/
def awaitWithin (m : Machine σ) (r : Rehearsal σ) (wanted : Nat) : Nat → Rehearsal σ
  | 0 => r
  | pieces + 1 =>
    if wanted ≤ r.unread.length then r else (r.work m).awaitWithin m wanted pieces

def hear (m : Machine σ) (r : Rehearsal σ) (line : List UInt8) : Rehearsal σ :=
  if r.ended then r
  else
    match decodeFile line with
    | .error _ => { r with ended := true }
    | .ok text =>
      match r.supervisor.service.handleLine (m.readText r.supervisor.machine) text with
      | .skipped => r
      | .ended => { r with ended := true }
      | .handled events service => r.tell events service

/-- The editor sends lines and waits for `wanted` events: those that it reads. -/
def exchange (m : Machine σ) (r : Rehearsal σ) (input : List UInt8) (wanted : Nat) :
    List ServerEvent × Rehearsal σ :=
  let heard := (inputLines input).foldl (hear m) r
  let waited := if heard.ended then heard else heard.awaitWithin m wanted heard.pending
  (waited.unread.take wanted, { waited with unread := waited.unread.drop wanted })

end Rehearsal

end KspWorkbench
