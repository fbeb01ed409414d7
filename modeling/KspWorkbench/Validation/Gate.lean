/-!
# Debounce gates

A gate has one place for a task that waits. A new task takes the place of the one that waits, so of
a burst of tasks only the last one runs. Waiting can be cancelled; a task that has started runs to
its end, and a task that comes meanwhile starts its delay when the running one has ended.

Between waiting and executing a task is ready: its wait is over, so nothing takes it back, and it
starts as soon as no other task is executing. `next?` is one step of a task from one of these states
to the next, and `settle` takes such steps as long as there are any.

`GateRun` follows one gate through time, in steps of one millisecond, and records when tasks start
and end.
-/

namespace KspWorkbench

/-- A task that waits at a gate, with the delay that was in force when it came. The time when it
starts is open as long as another task is executing. -/
structure Waiting (α : Type) where
  task : α
  delay : Nat
  due : Option Nat
  deriving DecidableEq, Repr

/-- A task that has started, and when it ends. -/
structure Executing (α : Type) where
  task : α
  ends : Nat
  deriving DecidableEq, Repr

/-- A gate for tasks of type `α`, with the delay for the tasks to come: at most one task waits and
one executes, and those whose wait is over and that have not started are ready, the oldest first. -/
structure Gate (α : Type) where
  delay : Nat := 0
  waiting : Option (Waiting α) := none
  ready : List α := []
  executing : Option (Executing α) := none
  deriving DecidableEq, Repr

inductive GateEvent (α : Type) where
  | started (task : α) (time : Nat)
  | ended (task : α) (time : Nat)
  deriving DecidableEq, Repr

namespace Gate

variable {α : Type}

def setDelay (g : Gate α) (delay : Nat) : Gate α :=
  { g with delay := delay }

/-- Lets a task wait in place of the one that waits. -/
def trigger (g : Gate α) (now : Nat) (task : α) : Gate α :=
  let due := if g.executing.isSome then none else some (now + g.delay)
  { g with waiting := some ⟨task, g.delay, due⟩ }

def cancel (g : Gate α) : Gate α :=
  { g with waiting := none }

def take (g : Gate α) : Option α × Gate α :=
  (g.waiting.map Waiting.task, g.cancel)

/-- Ends the task that is executing if its time has come. -/
def end? (g : Gate α) (now : Nat) : Option (Gate α × List (GateEvent α)) := do
  let e ← g.executing
  if e.ends ≤ now then some ({ g with executing := none }, [.ended e.task now]) else none

/-- The task that waits is ready if it is due, whether or not another one is executing. -/
def ripen? (g : Gate α) (now : Nat) : Option (Gate α × List (GateEvent α)) := do
  let w ← g.waiting
  if w.due.any (· ≤ now) then
    some ({ g with waiting := none, ready := g.ready ++ [w.task] }, [])
  else
    none

/-- Starts the first task that is ready if no other is executing. -/
def start? (g : Gate α) (duration : α → Nat) (now : Nat) : Option (Gate α × List (GateEvent α)) :=
  match g.executing, g.ready with
  | none, task :: ready =>
    some ({ g with ready := ready, executing := some ⟨task, now + duration task⟩ },
      [.started task now])
  | _, _ => none

/-- Begins the delay of a task that came while another one was executing, if none is executing any
more and none is going to before it. -/
def admit? (g : Gate α) (now : Nat) : Option (Gate α × List (GateEvent α)) :=
  match g.executing, g.ready, g.waiting with
  | none, [], some ⟨task, delay, none⟩ =>
    some ({ g with waiting := some ⟨task, delay, some (now + delay)⟩ }, [])
  | _, _, _ => none

/-- The next thing that happens at a gate at this moment, if anything does. -/
def next? (g : Gate α) (duration : α → Nat) (now : Nat) : Option (Gate α × List (GateEvent α)) :=
  g.end? now <|> g.ripen? now <|> g.start? duration now <|> g.admit? now

/-- **What one step can be**, with the conditions for it. -/
inductive Step (g : Gate α) (duration : α → Nat) (now : Nat) :
    Gate α → List (GateEvent α) → Prop where
  | ended {e : Executing α} (hexec : g.executing = some e) (hends : e.ends ≤ now) :
      Step g duration now { g with executing := none } [.ended e.task now]
  | ripened {w : Waiting α} {due : Nat} (hwait : g.waiting = some w) (hdue : w.due = some due)
      (hle : due ≤ now) :
      Step g duration now { g with waiting := none, ready := g.ready ++ [w.task] } []
  | started {task : α} {ready : List α} (hidle : g.executing = none)
      (hready : g.ready = task :: ready) :
      Step g duration now
        { g with ready := ready, executing := some ⟨task, now + duration task⟩ }
        [.started task now]
  | admitted {task : α} {delay : Nat} (hidle : g.executing = none) (hready : g.ready = [])
      (hwait : g.waiting = some ⟨task, delay, none⟩) :
      Step g duration now { g with waiting := some ⟨task, delay, some (now + delay)⟩ } []

theorem step_of_end? {g g' : Gate α} {duration : α → Nat} {now : Nat}
    {events : List (GateEvent α)} (h : g.end? now = some (g', events)) :
    g.Step duration now g' events := by
  obtain ⟨e, hexec, h⟩ := Option.bind_eq_some_iff.mp h
  split at h
  · next hends =>
    cases h
    exact .ended hexec hends
  · cases h

theorem step_of_ripen? {g g' : Gate α} {duration : α → Nat} {now : Nat}
    {events : List (GateEvent α)} (h : g.ripen? now = some (g', events)) :
    g.Step duration now g' events := by
  obtain ⟨w, hwait, h⟩ := Option.bind_eq_some_iff.mp h
  split at h
  · next hripe =>
    obtain ⟨due, hdue, hle⟩ := (Option.any_eq_true _ _).mp hripe
    cases h
    exact .ripened hwait hdue (of_decide_eq_true hle)
  · cases h

theorem step_of_start? {g g' : Gate α} {duration : α → Nat} {now : Nat}
    {events : List (GateEvent α)} (h : g.start? duration now = some (g', events)) :
    g.Step duration now g' events := by
  unfold start? at h
  split at h
  · next task ready hidle hready =>
    cases h
    exact .started hidle hready
  · cases h

theorem step_of_admit? {g g' : Gate α} {duration : α → Nat} {now : Nat}
    {events : List (GateEvent α)} (h : g.admit? now = some (g', events)) :
    g.Step duration now g' events := by
  unfold admit? at h
  split at h
  · next task delay hidle hready hwait =>
    cases h
    exact .admitted hidle hready hwait
  · cases h

theorem step_of_next? {g g' : Gate α} {duration : α → Nat} {now : Nat}
    {events : List (GateEvent α)} (h : g.next? duration now = some (g', events)) :
    g.Step duration now g' events := by
  simp only [next?, Option.orElse_eq_orElse, Option.orElse_eq_or, Option.or_eq_some_iff] at h
  rcases h with hend | ⟨-, hripen | ⟨-, hstart | ⟨-, hadmit⟩⟩⟩
  · exact step_of_end? hend
  · exact step_of_ripen? hripen
  · exact step_of_start? hstart
  · exact step_of_admit? hadmit

/-- How many steps the tasks of a gate have before them, at most. -/
def stepsLeft (g : Gate α) : Nat :=
  (g.waiting.elim 0 fun w => if w.due.isNone then 4 else 3) + 2 * g.ready.length +
    if g.executing.isSome then 1 else 0

theorem Step.stepsLeft_lt {g g' : Gate α} {duration : α → Nat} {now : Nat}
    {events : List (GateEvent α)} (h : g.Step duration now g' events) :
    g'.stepsLeft < g.stepsLeft := by
  cases h with
  | ended hexec _ => simp [stepsLeft, hexec]
  | ripened hwait hdue _ => simp [stepsLeft, hwait, hdue]; omega
  | started hidle hready => simp [stepsLeft, hidle, hready]; omega
  | admitted hidle hready hwait => simp [stepsLeft, hidle, hready, hwait]

/-- Everything that happens at a gate at one moment. -/
def settle (g : Gate α) (duration : α → Nat) (now : Nat) : Gate α × List (GateEvent α) :=
  match _h : g.next? duration now with
  | none => (g, [])
  | some (g', events) =>
    let (settled, later) := g'.settle duration now
    (settled, events ++ later)
termination_by g.stepsLeft
decreasing_by exact (step_of_next? _h).stepsLeft_lt

end Gate

/-- A task with its name and its duration in milliseconds. -/
structure TimedTask (ι : Type) where
  id : ι
  takes : Nat
  deriving DecidableEq, Repr

/-- A gate in the course of time. When the gate is dropped, a task that had started still ends. -/
structure GateRun (ι : Type) where
  gate : Gate (TimedTask ι)
  dropped : Bool := false
  now : Nat := 0
  deriving DecidableEq, Repr

abbrev GateLog (ι : Type) :=
  List (GateEvent (TimedTask ι))

inductive GateStep (ι : Type) where
  | setDelay (delay : Nat)
  | trigger (task : TimedTask ι)
  | cancel
  | drop
  | advance (ms : Nat)
  deriving DecidableEq, Repr

namespace GateRun

variable {ι : Type}

/-- Lets everything happen that is due now. -/
def settle (r : GateRun ι) : GateRun ι × GateLog ι :=
  let (gate, events) := r.gate.settle TimedTask.takes r.now
  ({ r with gate := gate }, events)

/-- Lets one millisecond pass after what happened before. -/
def tick (past : GateRun ι × GateLog ι) : GateRun ι × GateLog ι :=
  let (r, events) := { past.1 with now := past.1.now + 1 }.settle
  (r, past.2 ++ events)

/-- Lets time pass, one millisecond after the other. -/
def pass (r : GateRun ι) (ms : Nat) : GateRun ι × GateLog ι :=
  Nat.repeat tick ms (r, [])

/-- One step, with what happens in it. Only time still works on a gate that was dropped. -/
def step (r : GateRun ι) : GateStep ι → GateRun ι × GateLog ι
  | .advance ms =>
    let (r, atOnce) := r.settle
    let (r, events) := r.pass ms
    (r, atOnce ++ events)
  | .setDelay delay => (if r.dropped then r else { r with gate := r.gate.setDelay delay }, [])
  | .trigger task => (if r.dropped then r else { r with gate := r.gate.trigger r.now task }, [])
  | .cancel => (if r.dropped then r else { r with gate := r.gate.cancel }, [])
  | .drop => ({ r with gate := r.gate.cancel, dropped := true }, [])

end GateRun

end KspWorkbench
