import KspWorkbench.Proofs.Validation.Debounce

/-!
# When a task starts

A task that is triggered starts when it is due, neither before nor after. The delay counts from the
trigger, or from the end of the task that was executing then. What is due is said from the steps and
the log alone: `elapsed` for the time, `delayAfter` for the delay in force, `running?` for the task
that has started and not ended.

* **`Awaits`** — where a task stands after its trigger, with the log since then: held up by another
  task, waiting for its due time, ready, executing, or done.
* **`awaits_of_step`** — each step at a gate takes a task from one of these to the next.
* **`Idle`** — nothing is left to happen at this moment; then a task that is due has started.

Time passes one millisecond after the other, so no due time is stepped over (`awaits_tick`).
-/

namespace KspWorkbench

namespace GateRun

variable {ι : Type}

open Chronicle

/-! ## §1 — time and delay, from the steps -/

/-- How much time passes in a sequence of steps. -/
def elapsed : List (GateStep ι) → Nat
  | [] => 0
  | .advance ms :: steps => ms + elapsed steps
  | _ :: steps => elapsed steps

/-- The delay in force after a sequence of steps: the last one that was set. -/
def delayAfter (delay : Nat) : List (GateStep ι) → Nat
  | [] => delay
  | .setDelay next :: steps => delayAfter next steps
  | _ :: steps => delayAfter delay steps

/-- The task that a log leaves executing, with its end. -/
def running? (L : GateLog ι) : Option (Executing (TimedTask ι)) :=
  match L.getLast? with
  | some (.started task time) => some ⟨task, time + task.takes⟩
  | _ => none

/-- The starts in a log, with their times. -/
def starts (L : GateLog ι) : List (TimedTask ι × Nat) :=
  L.filterMap fun
    | .started task time => some (task, time)
    | .ended _ _ => none

/-- The log alone tells which task executes. -/
theorem Orderly.executing_eq_running? {L : GateLog ι}
    {executing : Option (Executing (TimedTask ι))} {last : Nat} (h : Orderly L executing last) :
    executing = running? L := by
  cases h with
  | nil => rfl
  | started task _ _ => simp [running?]
  | ended _ => simp [running?]

theorem elapsed_append (steps more : List (GateStep ι)) :
    elapsed (steps ++ more) = elapsed steps + elapsed more := by
  fun_induction elapsed steps with
  | case1 => simp
  | case2 ms steps ih => simp only [List.cons_append, elapsed, ih]; omega
  | case3 step steps hstep ih => simp only [List.cons_append, elapsed, ih]

/-- The chronicle goes on from the gate that the first steps leave. -/
theorem chronicle_append (r : GateRun ι) (steps more : List (GateStep ι)) :
    r.chronicle (steps ++ more) = r.chronicle steps ++ (r.stepAll steps).chronicle more := by
  induction steps generalizing r with
  | nil => rfl
  | cons step steps ih =>
    rw [List.cons_append, chronicle, chronicle, ih, ← List.append_assoc]
    rfl

/-- A step at a gate is not one of time, and sets no delay. -/
theorem delay_settle (g : Gate (TimedTask ι)) (now : Nat) :
    (g.settle TimedTask.takes now).1.delay = g.delay := by
  fun_induction Gate.settle g TimedTask.takes now with
  | case1 => rfl
  | case2 g g' events hnext settled later hsettle ih =>
    rw [hsettle] at ih
    rw [ih]
    cases Gate.step_of_next? hnext <;> rfl

/-- Time passes and the delay of the gate stays. -/
theorem pass_frame (r : GateRun ι) (ms : Nat) :
    (r.pass ms).1.now = r.now + ms ∧ (r.pass ms).1.gate.delay = r.gate.delay ∧
      (r.pass ms).1.dropped = r.dropped := by
  induction ms with
  | zero => exact ⟨rfl, rfl, rfl⟩
  | succ ms ih =>
    obtain ⟨hnow, hdelay, hdropped⟩ := ih
    refine ⟨?_, ?_, hdropped⟩
    · show (r.pass ms).1.now + 1 = r.now + (ms + 1)
      rw [hnow, Nat.add_assoc]
    · show ((r.pass ms).1.gate.settle TimedTask.takes ((r.pass ms).1.now + 1)).1.delay = _
      rw [delay_settle, hdelay]

/-- Only time advances the clock, and only a new delay changes the delay. -/
theorem step_frame {r : GateRun ι} (hr : r.dropped = false) {step : GateStep ι}
    (hstep : step ≠ .drop) :
    (r.step step).1.now = r.now + elapsed [step] ∧
      (r.step step).1.gate.delay = delayAfter r.gate.delay [step] ∧
      (r.step step).1.dropped = false := by
  -- a gate that was not dropped takes every step.
  cases step with
  | advance ms =>
    obtain ⟨hnow, hdelay, hdropped⟩ := pass_frame r.settle.1 ms
    exact ⟨hnow, hdelay.trans (delay_settle r.gate r.now), hdropped.trans hr⟩
  | drop => exact absurd rfl hstep
  | setDelay delay =>
    simp only [GateRun.step, hr, Bool.false_eq_true, if_false]
    exact ⟨rfl, rfl, trivial⟩
  | trigger task =>
    simp only [GateRun.step, hr, Bool.false_eq_true, if_false]
    exact ⟨rfl, rfl, trivial⟩
  | cancel =>
    simp only [GateRun.step, hr, Bool.false_eq_true, if_false]
    exact ⟨rfl, rfl, trivial⟩

/-- **The state has the time and the delay of the steps**, as long as the gate is not dropped. -/
theorem stepAll_frame {r : GateRun ι} (hr : r.dropped = false) {steps : List (GateStep ι)}
    (hopen : .drop ∉ steps) :
    (r.stepAll steps).now = r.now + elapsed steps ∧
      (r.stepAll steps).gate.delay = delayAfter r.gate.delay steps ∧
      (r.stepAll steps).dropped = false := by
  -- by induction on the steps, each of which adds its own time and may change the delay.
  induction steps generalizing r with
  | nil => exact ⟨rfl, rfl, hr⟩
  | cons step steps ih =>
    obtain ⟨hstep, hsteps⟩ := not_or.mp (List.mem_cons.not.mp hopen)
    obtain ⟨hnow, hdelay, hdropped⟩ := step_frame hr (Ne.symm hstep)
    obtain ⟨hnow', hdelay', hdropped'⟩ := ih hdropped hsteps
    refine ⟨?_, ?_, hdropped'⟩
    · have hsplit : elapsed (step :: steps) = elapsed [step] + elapsed steps :=
        elapsed_append [step] steps
      rw [hsplit, ← Nat.add_assoc, ← hnow]
      exact hnow'
    · have hsplit : delayAfter r.gate.delay (step :: steps) =
          delayAfter (delayAfter r.gate.delay [step]) steps := by
        cases step <;> rfl
      rw [hsplit, ← hdelay]
      exact hdelay'

/-! ## §2 — where a task stands after its trigger -/

/-- The end of the task that was executing when another one was triggered. -/
def endOf (blocker : Option (Executing (TimedTask ι))) : GateLog ι :=
  blocker.toList.map fun e => .ended e.task e.ends

/-- **Where a task stands** that was triggered with the delay `d` and is due at `due`, with the log
since its trigger. -/
inductive Awaits (blocker : Option (Executing (TimedTask ι))) (task : TimedTask ι) (d due : Nat) :
    GateLog ι → GateRun ι → Prop where
  | blocked {r : GateRun ι} {e : Executing (TimedTask ι)} (hblocker : blocker = some e)
      (hdue : due = e.ends + d) (hexec : r.gate.executing = some e) (hready : r.gate.ready = [])
      (hwait : r.gate.waiting = some ⟨task, d, none⟩) (hnow : r.now ≤ e.ends) :
      Awaits blocker task d due [] r
  | released {r : GateRun ι} (hdue : due = r.now + d) (hexec : r.gate.executing = none)
      (hready : r.gate.ready = []) (hwait : r.gate.waiting = some ⟨task, d, none⟩) :
      Awaits blocker task d due (endOf blocker) r
  | waits {r : GateRun ι} (hexec : r.gate.executing = none) (hready : r.gate.ready = [])
      (hwait : r.gate.waiting = some ⟨task, d, some due⟩) (hnow : r.now ≤ due) :
      Awaits blocker task d due (endOf blocker) r
  | ready {r : GateRun ι} (hexec : r.gate.executing = none) (hready : r.gate.ready = [task])
      (hwait : r.gate.waiting = none) (hnow : r.now = due) :
      Awaits blocker task d due (endOf blocker) r
  | executes {r : GateRun ι} (hexec : r.gate.executing = some ⟨task, due + task.takes⟩)
      (hready : r.gate.ready = []) (hwait : r.gate.waiting = none) (hstart : due ≤ r.now)
      (hnow : r.now ≤ due + task.takes) :
      Awaits blocker task d due (endOf blocker ++ [.started task due]) r
  | done {r : GateRun ι} (hexec : r.gate.executing = none) (hready : r.gate.ready = [])
      (hwait : r.gate.waiting = none) (hnow : due + task.takes ≤ r.now) :
      Awaits blocker task d due
        (endOf blocker ++ [.started task due, .ended task (due + task.takes)]) r

variable {blocker : Option (Executing (TimedTask ι))} {task : TimedTask ι} {d due : Nat}
  {L : GateLog ι} {r : GateRun ι}

/-- **Each step takes the task to where it stands next.** The steps that are not possible there
contradict what is known of the gate. -/
theorem awaits_of_step (h : Awaits blocker task d due L r) {gate : Gate (TimedTask ι)}
    {events : GateLog ι} (hstep : r.gate.Step TimedTask.takes r.now gate events) :
    Awaits blocker task d due (L ++ events) { r with gate := gate } := by
  cases h with
  | blocked hblocker hdue hexec hready hwait hnow =>
    cases hstep with
    | ended hexec' hends =>
      rw [hexec] at hexec'
      cases hexec'
      -- the time of the other task was not over before, so it is over exactly now.
      have hover : _ = r.now := Nat.le_antisymm hends hnow
      subst hblocker
      rw [List.nil_append, ← hover]
      exact .released (hover ▸ hdue) rfl hready hwait
    | ripened hwait' hdue' _ =>
      rw [hwait] at hwait'
      cases hwait'
      cases hdue'
    | started hidle _ => rw [hexec] at hidle; cases hidle
    | admitted hidle _ _ => rw [hexec] at hidle; cases hidle
  | released hdue hexec hready hwait =>
    cases hstep with
    | ended hexec' _ => rw [hexec] at hexec'; cases hexec'
    | ripened hwait' hdue' _ =>
      rw [hwait] at hwait'
      cases hwait'
      cases hdue'
    | started _ hready' => rw [hready] at hready'; cases hready'
    | admitted _ _ hwait' =>
      rw [hwait] at hwait'
      cases hwait'
      rw [List.append_nil, ← hdue]
      exact .waits hexec hready rfl (by show r.now ≤ due; omega)
  | waits hexec hready hwait hnow =>
    cases hstep with
    | ended hexec' _ => rw [hexec] at hexec'; cases hexec'
    | ripened hwait' hdue' hle =>
      rw [hwait] at hwait'
      cases hwait'
      cases hdue'
      rw [List.append_nil, hready]
      exact .ready hexec rfl rfl (Nat.le_antisymm hnow hle)
    | started _ hready' => rw [hready] at hready'; cases hready'
    | admitted _ _ hwait' => rw [hwait] at hwait'; cases hwait'
  | ready hexec hready hwait hnow =>
    cases hstep with
    | ended hexec' _ => rw [hexec] at hexec'; cases hexec'
    | ripened hwait' _ _ => rw [hwait] at hwait'; cases hwait'
    | started _ hready' =>
      rw [hready] at hready'
      cases hready'
      rw [hnow]
      exact .executes rfl rfl hwait (Nat.le_refl _) (Nat.le_add_right _ _)
    | admitted _ hready' _ => rw [hready] at hready'; cases hready'
  | executes hexec hready hwait hstart hnow =>
    cases hstep with
    | ended hexec' hends =>
      rw [hexec] at hexec'
      cases hexec'
      have hover : due + task.takes = r.now := Nat.le_antisymm hends hnow
      rw [List.append_assoc, ← hover]
      exact .done rfl hready hwait (Nat.le_refl _)
    | ripened hwait' _ _ => rw [hwait] at hwait'; cases hwait'
    | started hidle _ => rw [hexec] at hidle; cases hidle
    | admitted hidle _ _ => rw [hexec] at hidle; cases hidle
  | done hexec hready hwait hnow =>
    cases hstep with
    | ended hexec' _ => rw [hexec] at hexec'; cases hexec'
    | ripened hwait' _ _ => rw [hwait] at hwait'; cases hwait'
    | started _ hready' => rw [hready] at hready'; cases hready'
    | admitted _ _ hwait' => rw [hwait] at hwait'; cases hwait'

/-! ## §3 — moments -/

/-- Nothing is left to happen at this moment. -/
structure Idle (r : GateRun ι) : Prop where
  executing : ∀ e, r.gate.executing = some e → r.now < e.ends
  ready : r.gate.executing = none → r.gate.ready = []
  waiting : ∀ w time, r.gate.waiting = some w → w.due = some time → r.now < time
  admitted : r.gate.executing = none → r.gate.ready = [] →
    ∀ w, r.gate.waiting = some w → w.due ≠ none

/-- A gate at which nothing can happen is idle: no end, no delay and no start is due. -/
theorem idle_of_next? (h : r.gate.next? TimedTask.takes r.now = none) : Idle r := by
  simp only [Gate.next?, Option.orElse_eq_orElse, Option.orElse_eq_or, Option.or_eq_none_iff] at h
  obtain ⟨hend, hripen, hstart, hadmit⟩ := h
  refine ⟨?_, ?_, ?_, ?_⟩
  -- each of the four changes is refused, which says what it is waiting for.
  · intro e hexec
    by_contra hle
    simp [Gate.end?, hexec, Nat.le_of_not_lt hle] at hend
  · intro hexec
    cases hready : r.gate.ready with
    | nil => rfl
    | cons first rest => simp [Gate.start?, hexec, hready] at hstart
  · intro w time hwait hdue
    by_contra hle
    simp [Gate.ripen?, hwait, hdue, Nat.le_of_not_lt hle] at hripen
  · intro hexec hready w hwait hdue
    obtain ⟨task, delay, due⟩ := w
    subst hdue
    simp [Gate.admit?, hexec, hready, hwait] at hadmit

/-- **At rest, a task that is due has started**, and one that is not has not. -/
theorem Awaits.log_of_idle (h : Awaits blocker task d due L r) (hidle : Idle r) :
    (r.now < due ∧ starts L = []) ∨
    (due ≤ r.now ∧ ∃ tail, L = endOf blocker ++ .started task due :: tail ∧ starts tail = []) := by
  cases h with
  | blocked _ hdue hexec =>
    have hlt := hidle.executing _ hexec
    exact Or.inl ⟨by omega, rfl⟩
  | released _ hexec hready hwait => exact absurd rfl (hidle.admitted hexec hready _ hwait)
  | waits hexec hready hwait =>
    refine Or.inl ⟨hidle.waiting _ _ hwait rfl, ?_⟩
    cases blocker <;> rfl
  | ready hexec hready =>
    rw [hidle.ready hexec] at hready
    cases hready
  | executes _ _ _ hstart => exact Or.inr ⟨hstart, [], rfl, rfl⟩
  | done _ _ _ hnow => exact Or.inr ⟨by omega, [.ended task (due + task.takes)], rfl, rfl⟩

/-- The task keeps its place through everything that happens at one moment. -/
theorem awaits_gate_settle (g : Gate (TimedTask ι)) (h : Awaits blocker task d due L { r with gate := g }) :
    Awaits blocker task d due (L ++ (g.settle TimedTask.takes r.now).2)
      { r with gate := (g.settle TimedTask.takes r.now).1 } ∧
    Idle { r with gate := (g.settle TimedTask.takes r.now).1 } := by
  fun_induction Gate.settle g TimedTask.takes r.now generalizing L with
  | case1 g hquiet =>
    rw [List.append_nil]
    exact ⟨h, idle_of_next? hquiet⟩
  | case2 g g' events hnext settled later hsettle ih =>
    have hlater := ih (awaits_of_step h (Gate.step_of_next? hnext))
    rw [hsettle] at hlater
    rw [← List.append_assoc]
    exact hlater

/-- After a moment has been dealt with, the gate is idle. -/
theorem awaits_settle (h : Awaits blocker task d due L r) :
    Awaits blocker task d due (L ++ r.settle.2) r.settle.1 ∧ Idle r.settle.1 :=
  awaits_gate_settle r.gate h

/-- One millisecond later nothing has been stepped over. -/
theorem Awaits.later (h : Awaits blocker task d due L r) (hidle : Idle r) :
    Awaits blocker task d due L { r with now := r.now + 1 } := by
  cases h with
  | blocked hblocker hdue hexec hready hwait _ =>
    exact .blocked hblocker hdue hexec hready hwait (hidle.executing _ hexec)
  | released _ hexec hready hwait => exact absurd rfl (hidle.admitted hexec hready _ hwait)
  | waits hexec hready hwait _ => exact .waits hexec hready hwait (hidle.waiting _ _ hwait rfl)
  | ready hexec hready =>
    rw [hidle.ready hexec] at hready
    cases hready
  | executes hexec hready hwait hstart _ =>
    exact .executes hexec hready hwait (Nat.le_succ_of_le hstart) (hidle.executing _ hexec)
  | done hexec hready hwait hnow => exact .done hexec hready hwait (Nat.le_succ_of_le hnow)

/-- The task keeps its place over a millisecond. -/
theorem awaits_tick {past : GateRun ι × GateLog ι}
    (h : Awaits blocker task d due (L ++ past.2) past.1 ∧ Idle past.1) :
    Awaits blocker task d due (L ++ (tick past).2) (tick past).1 ∧ Idle (tick past).1 := by
  obtain ⟨hawaits, hidle⟩ := h
  rw [tick, ← List.append_assoc]
  exact awaits_settle (hawaits.later hidle)

/-- The task keeps its place over any stretch of time. -/
theorem awaits_pass (h : Awaits blocker task d due L r) (hidle : Idle r) (ms : Nat) :
    Awaits blocker task d due (L ++ (r.pass ms).2) (r.pass ms).1 ∧ Idle (r.pass ms).1 := by
  induction ms with
  | zero =>
    refine ⟨?_, hidle⟩
    show Awaits blocker task d due (L ++ []) r
    rwa [List.append_nil]
  | succ ms ih => exact awaits_tick ih

/-- The task keeps its place when time is advanced, and the gate is idle afterwards. -/
theorem awaits_advance (h : Awaits blocker task d due L r) (ms : Nat) :
    Awaits blocker task d due (L ++ (r.step (.advance ms)).2) (r.step (.advance ms)).1 ∧
      Idle (r.step (.advance ms)).1 := by
  obtain ⟨hsettled, hidle⟩ := awaits_settle h
  rw [GateRun.step, ← List.append_assoc]
  exact awaits_pass hsettled hidle ms

/-! ## §4 — steps that leave the task alone -/

/-- Nothing is triggered, cancelled or dropped. -/
structure Undisturbed (steps : List (GateStep ι)) : Prop where
  trigger : ∀ task, .trigger task ∉ steps
  cancel : .cancel ∉ steps
  drop : .drop ∉ steps

/-- Steps that leave the task alone let time pass or set the delay. -/
theorem Undisturbed.cons {step : GateStep ι} {steps : List (GateStep ι)}
    (h : Undisturbed (step :: steps)) :
    ((∃ ms, step = .advance ms) ∨ ∃ delay, step = .setDelay delay) ∧ Undisturbed steps := by
  refine ⟨?_, fun task hmem => h.trigger task (List.mem_cons_of_mem _ hmem),
    fun hmem => h.cancel (List.mem_cons_of_mem _ hmem),
    fun hmem => h.drop (List.mem_cons_of_mem _ hmem)⟩
  cases step with
  | advance ms => exact Or.inl ⟨ms, rfl⟩
  | setDelay delay => exact Or.inr ⟨delay, rfl⟩
  | trigger task => exact absurd List.mem_cons_self (h.trigger task)
  | cancel => exact absurd List.mem_cons_self h.cancel
  | drop => exact absurd List.mem_cons_self h.drop

/-- A new delay is for later triggers, and does not move the task. -/
theorem awaits_setDelay (h : Awaits blocker task d due L r) (delay : Nat) :
    Awaits blocker task d due L (r.step (.setDelay delay)).1 := by
  have hset : Awaits blocker task d due L { r with gate := r.gate.setDelay delay } := by
    cases h with
    | blocked hblocker hdue hexec hready hwait hnow =>
      exact .blocked hblocker hdue hexec hready hwait hnow
    | released hdue hexec hready hwait => exact .released hdue hexec hready hwait
    | waits hexec hready hwait hnow => exact .waits hexec hready hwait hnow
    | ready hexec hready hwait hnow => exact .ready hexec hready hwait hnow
    | executes hexec hready hwait hstart hnow => exact .executes hexec hready hwait hstart hnow
    | done hexec hready hwait hnow => exact .done hexec hready hwait hnow
  rw [GateRun.step]
  split
  · exact h
  · exact hset

theorem idle_setDelay (h : Idle r) (delay : Nat) : Idle (r.step (.setDelay delay)).1 := by
  rw [GateRun.step]
  split
  · exact h
  · exact ⟨h.executing, h.ready, h.waiting, h.admitted⟩

theorem events_chronicle_cons (r : GateRun ι) (step : GateStep ι) (steps : List (GateStep ι)) :
    (r.chronicle (step :: steps)).events =
      (r.step step).2 ++ ((r.step step).1.chronicle steps).events := by
  have hsaw : Chronicle.events ((r.step step).2.map Entry.saw) = (r.step step).2 := by
    simp [Chronicle.events, Entry.event?, List.filterMap_map, Function.comp_def]
  have hdid : Chronicle.events [Entry.did step] = [] := rfl
  rw [chronicle, ← List.singleton_append, events_append, events_append, hsaw, hdid]
  rfl

/-- **The task is followed through all of them.** From the first advance on the gate is idle after
every step. -/
theorem awaits_stepAll {steps : List (GateStep ι)} (h : Awaits blocker task d due L r)
    (hsteps : Undisturbed steps) :
    Awaits blocker task d due (L ++ (r.chronicle steps).events) (r.stepAll steps) ∧
      ((Idle r ∨ ∃ ms, .advance ms ∈ steps) → Idle (r.stepAll steps)) := by
  -- by induction on the steps; once time has been advanced the gate is idle, and it stays so.
  induction steps generalizing L r with
  | nil =>
    refine ⟨?_, fun hidle => hidle.elim id fun ⟨_, hmem⟩ => absurd hmem List.not_mem_nil⟩
    show Awaits blocker task d due (L ++ []) r
    rwa [List.append_nil]
  | cons step steps ih =>
    obtain ⟨hkind, hrest⟩ := hsteps.cons
    rw [events_chronicle_cons, ← List.append_assoc]
    rcases hkind with ⟨ms, rfl⟩ | ⟨delay, rfl⟩
    · obtain ⟨hnext, hidle⟩ := awaits_advance h ms
      obtain ⟨hlast, hlater⟩ := ih hnext hrest
      exact ⟨hlast, fun _ => hlater (Or.inl hidle)⟩
    · obtain ⟨hlast, hlater⟩ := ih (awaits_setDelay h delay) hrest
      rw [show (r.step (.setDelay delay)).2 = [] from rfl, List.append_nil]
      refine ⟨hlast, fun hidle => hlater ?_⟩
      rcases hidle with hidle | ⟨ms, hmem⟩
      · exact Or.inl (idle_setDelay hidle delay)
      · exact Or.inr ⟨ms, (List.mem_cons.mp hmem).resolve_left (by simp)⟩

/-- Without an advance nothing happens. -/
theorem events_eq_nil {steps : List (GateStep ι)} (hsteps : ∀ ms, .advance ms ∉ steps) :
    (r.chronicle steps).events = [] := by
  induction steps generalizing r with
  | nil => rfl
  | cons step steps ih =>
    have hrest : ∀ ms, .advance ms ∉ steps := fun ms hmem =>
      hsteps ms (List.mem_cons_of_mem _ hmem)
    rw [events_chronicle_cons, ih hrest, List.append_nil]
    cases step with
    | advance ms => exact absurd List.mem_cons_self (hsteps ms)
    | _ => rfl

/-- **A trigger** at a gate at rest. -/
theorem awaits_trigger (hrest : AtRest r) (hdropped : r.dropped = false) (task : TimedTask ι) :
    Awaits r.gate.executing task r.gate.delay
      (r.gate.executing.elim r.now Executing.ends + r.gate.delay) []
      (r.step (.trigger task)).1 := by
  have hstep : (r.step (.trigger task)).1 = { r with gate := r.gate.trigger r.now task } := by
    simp [GateRun.step, hdropped]
  rw [hstep]
  cases hexec : r.gate.executing with
  | none =>
    refine .waits hexec hrest.ready ?_ (Nat.le_add_right _ _)
    simp [Gate.trigger, hexec]
  | some e =>
    refine .blocked rfl rfl hexec hrest.ready ?_ (Nat.le_of_lt (hrest.unexpired e hexec))
    simp [Gate.trigger, hexec]

/-! ## §5 — timing -/

/-- **Debounce timing.** A task is triggered at a gate that was not dropped, and then nothing is
triggered, cancelled or dropped as long as `quiet` lasts. It is due when the delay in force at its
trigger is over, counted from the trigger, or from the end of the task that was executing then. If
time has been advanced so far, the task has started in `quiet`, once and exactly when it was due, and
before it nothing happened but the end of the other task; if not, no task has started. Delays that
are set in `quiet`, and whatever comes later, play no part. -/
theorem debounce_timing (delay : Nat) (early quiet later : List (GateStep ι)) (task : TimedTask ι)
    (hopen : .drop ∉ early) (hquiet : Undisturbed quiet) :
    let before : Chronicle ι := (fresh delay).chronicle early
    let during : Chronicle ι := ((fresh delay).stepAll (early ++ [.trigger task])).chronicle quiet
    let blocker := running? before.events
    let due := blocker.elim (elapsed early) Executing.ends + delayAfter delay early
    let processed := (∃ ms, .advance ms ∈ quiet) ∧ due ≤ elapsed early + elapsed quiet
    (∃ after, (fresh delay).chronicle (early ++ .trigger task :: (quiet ++ later)) =
      before ++ .did (.trigger task) :: (during ++ after)) ∧
    (processed → ∃ tail, during.events = endOf blocker ++ .started task due :: tail ∧
      starts tail = []) ∧
    (¬ processed → starts during.events = []) := by
  intro before during blocker due processed
  have hfresh : (fresh delay : GateRun ι).dropped = false := rfl
  obtain ⟨hnow, hdelay, hdropped⟩ := stepAll_frame hfresh hopen
  obtain ⟨htracks, hrest⟩ := tracks_stepAll (tracks_fresh delay) (atRest_fresh delay) early
  obtain ⟨last, -, hlog⟩ := htracks.orderly
  have hblocker : ((fresh delay).stepAll early).gate.executing = blocker :=
    hlog.executing_eq_running?
  have hstate : (fresh delay).stepAll (early ++ [.trigger task]) =
      (((fresh delay).stepAll early).step (.trigger task)).1 := by
    simp [stepAll]
  have htime : ((fresh delay).stepAll early).now = elapsed early := hnow.trans (Nat.zero_add _)
  have hd : ((fresh delay).stepAll early).gate.delay = delayAfter delay early := hdelay
  -- the task is followed from its trigger on, with the blocker and the due time fixed there.
  have hstart := awaits_trigger hrest hdropped task
  rw [hblocker, htime, hd, ← hstate] at hstart
  obtain ⟨hawaits, hidle⟩ := awaits_stepAll hstart hquiet
  rw [List.nil_append] at hawaits
  have hend : (((fresh delay).stepAll (early ++ [.trigger task])).stepAll quiet).now =
      elapsed early + elapsed quiet := by
    have htrigger : GateStep.trigger task ≠ .drop := by simp
    obtain ⟨hnow', -, hdropped'⟩ := step_frame hdropped htrigger
    rw [← hstate] at hnow' hdropped'
    rw [(stepAll_frame hdropped' hquiet.drop).1, hnow', htime]
    rfl
  refine ⟨⟨(((fresh delay).stepAll (early ++ [.trigger task])).stepAll quiet).chronicle later, ?_⟩,
    ?_, ?_⟩
  · rw [chronicle_append, chronicle, ← hstate, chronicle_append]
    rfl
  · rintro ⟨hadvance, hdue⟩
    rcases hawaits.log_of_idle (hidle (Or.inr hadvance)) with ⟨hlt, -⟩ | ⟨-, hstarted⟩
    · rw [hend] at hlt
      omega
    · exact hstarted
  · intro hearly
    by_cases hadvance : ∃ ms, .advance ms ∈ quiet
    · rcases hawaits.log_of_idle (hidle (Or.inr hadvance)) with ⟨-, hnone⟩ | ⟨hle, -⟩
      · exact hnone
      · rw [hend] at hle
        exact absurd ⟨hadvance, hle⟩ hearly
    · have hnone : during.events = [] := events_eq_nil (not_exists.mp hadvance)
      rw [hnone]
      rfl

/-- A task comes while another one is executing, and its delay counts from the end of that one. The
delay that is set afterwards is for others, and a cancel comes too late. -/
theorem due_after_end_of_blocker :
    let a : TimedTask Nat := ⟨0, 3⟩
    let b : TimedTask Nat := ⟨1, 1⟩
    let early : List (GateStep Nat) := [.trigger a, .advance 1, .setDelay 2]
    let quiet : List (GateStep Nat) := [.setDelay 9, .advance 2, .advance 2]
    let before : Chronicle Nat := (fresh 0).chronicle early
    let during : Chronicle Nat := ((fresh 0).stepAll (early ++ [.trigger b])).chronicle quiet
    before.events = [.started a 0] ∧ elapsed early = 1 ∧ delayAfter 0 early = 2 ∧
    (∃ after, (fresh 0).chronicle (early ++ .trigger b :: (quiet ++ [.cancel])) =
      before ++ .did (.trigger b) :: (during ++ after)) ∧
    ∃ tail, during.events = [.ended a 3] ++ .started b 5 :: tail ∧ starts tail = [] := by
  intro a b early quiet before during
  have hbefore : before.events = [.started a 0] := by decide +kernel
  have hquiet : Undisturbed quiet := ⟨by simp [quiet], by simp [quiet], by simp [quiet]⟩
  obtain ⟨hcourse, hstart, -⟩ :=
    debounce_timing 0 early quiet [.cancel] b (by simp [early]) hquiet
  rw [hbefore] at hstart
  exact ⟨hbefore, rfl, rfl, hcourse, hstart ⟨⟨2, by simp [quiet]⟩, by decide⟩⟩

end GateRun

end KspWorkbench
