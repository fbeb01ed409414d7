import KspWorkbench.Proofs.Compiler.RunReport
import KspWorkbench.Proofs.Compiler.Runner
import Mathlib.Data.List.FinRange
import Mathlib.Data.List.TakeWhile

/-!
# What the observers of a run are told

The observers of a run are told of its events one event at a time, and of each event one after the
other. When the run is over, they are told of the outcome.

* **`callsTo_dispatch`** — every observer is told the same, in the same order.
* **`observerCalls_started`** — what the observers of a process are told: of its lines and of the end
  of its standard output in the order of the events, and then of its exit.
* **`observer_contract`** — what they are told in all, whatever becomes of the start of the process,
  of its streams and of its end, and whatever the order of the events.
-/

namespace KspWorkbench

/-! ## §1 — one call after the other -/

/-- The calls that tell `n` observers, numbered in the order in which they were registered. -/
def tellAll (n : Nat) (calls : List ObserverCall) : List (Fin n × ObserverCall) :=
  calls.flatMap fun call => (List.finRange n).map fun i => (i, call)

/-- The calls of a run with `n` observers. -/
def dispatch (n : Nat) (events : List RunEvent) : List (Fin n × ObserverCall) :=
  (runEvents events).flatMap (fun event => tellAll n event.calls) ++
    tellAll n (runOutcome events).calls

/-- The calls to one observer. -/
def callsTo {n : Nat} (i : Fin n) (calls : List (Fin n × ObserverCall)) : List ObserverCall :=
  (calls.filter (·.1 = i)).map Prod.snd

theorem callsTo_append {n : Nat} (i : Fin n) (calls calls' : List (Fin n × ObserverCall)) :
    callsTo i (calls ++ calls') = callsTo i calls ++ callsTo i calls' := by
  simp [callsTo]

/-- Each observer is told of an event once, whatever its place among the observers. -/
theorem callsTo_tellAll {n : Nat} (i : Fin n) (calls : List ObserverCall) :
    callsTo i (tellAll n calls) = calls := by
  induction calls with
  | nil => rfl
  | cons call calls ih =>
    have hself : (List.finRange n).filter (· = i) = [i] := by
      rw [List.filter_eq, List.count_eq_one_of_mem (List.nodup_finRange n) (List.mem_finRange i)]
      rfl
    have hcall : callsTo i ((List.finRange n).map fun j => (j, call)) = [call] := by
      rw [callsTo, List.filter_map]
      change (((List.finRange n).filter (· = i)).map fun j => (j, call)).map Prod.snd = [call]
      rw [hself]
      rfl
    rw [tellAll, List.flatMap_cons, callsTo_append, hcall]
    exact congrArg (call :: ·) ih

/-- **Every observer is told the same.** -/
theorem callsTo_dispatch {n : Nat} (i : Fin n) (events : List RunEvent) :
    callsTo i (dispatch n events) = observerCalls events := by
  have hevents : ∀ es : List RunEvent,
      callsTo i (es.flatMap fun event => tellAll n event.calls) = es.flatMap RunEvent.calls := by
    intro es
    induction es with
    | nil => rfl
    | cons event es ih =>
      rw [List.flatMap_cons, callsTo_append, callsTo_tellAll, ih, List.flatMap_cons]
  rw [dispatch, callsTo_append, hevents, callsTo_tellAll, observerCalls]

/-! ## §2 — the calls of a process -/

/-- What the observers are told of the standard output of a process. -/
def Process.stdoutCalls (p : Process) : List ObserverCall :=
  (streamLines p.stdout).map .stdoutLine ++ [.runEnd]

/-- What the observers are told of the standard error of a process. -/
def Process.stderrCalls (p : Process) : List ObserverCall :=
  (streamLines p.stderr).map .stderrLine

/-- The events of the standard output are told as its lines and the end of the run. -/
theorem calls_stdoutEvents (p : Process) :
    p.stdoutEvents.flatMap RunEvent.calls = p.stdoutCalls := by
  rw [Process.stdoutEvents, List.flatMap_append, List.flatMap_map, Process.stdoutCalls,
    List.map_eq_flatMap]
  rfl

/-- The events of the standard error are told as its lines, and nothing tells its end. -/
theorem calls_stderrEvents (p : Process) :
    p.stderrEvents.flatMap RunEvent.calls = p.stderrCalls := by
  rw [Process.stderrEvents, List.flatMap_map, Process.stderrCalls, List.map_eq_flatMap]
  rfl

theorem runEvents_of_unfinished {events : List RunEvent}
    (h : ∀ event ∈ events, event.outcome? = none) : runEvents events = events := by
  rw [runEvents_eq_takeWhile, List.takeWhile_eq_self_iff]
  intro event hmem
  rw [h event hmem]
  rfl

/-- No outcome is among the lines of a process. -/
theorem outcome?_of_interleaves {p : Process} {lines : List RunEvent}
    (h : Interleaves p.stdoutEvents p.stderrEvents lines) :
    ∀ event ∈ lines, event.outcome? = none := by
  intro event hmem
  have hparts := h.perm.mem_iff.mpr hmem
  simp only [Process.stdoutEvents, Process.stderrEvents, List.mem_append, List.mem_map,
    List.mem_singleton] at hparts
  rcases hparts with (⟨line, -, rfl⟩ | rfl) | ⟨line, -, rfl⟩ <;> rfl

/-- What the observers of a process are told. -/
theorem observerCalls_started {p : Process} {lines : List RunEvent}
    (h : Interleaves p.stdoutEvents p.stderrEvents lines) :
    ∃ calls, Interleaves p.stdoutCalls p.stderrCalls calls ∧
      observerCalls (lines ++ [.finished p.outcome]) = calls ++ p.outcome.calls := by
  have hunfinished := outcome?_of_interleaves h
  refine ⟨lines.flatMap RunEvent.calls, ?_, ?_⟩
  · rw [← calls_stdoutEvents, ← calls_stderrEvents]
    exact h.flatMap RunEvent.calls
  · have hnone : lines.findSome? RunEvent.outcome? = none :=
      List.findSome?_eq_none_iff.mpr hunfinished
    rw [observerCalls, runEvents_append_finished, runEvents_of_unfinished hunfinished,
      runOutcome_append_finished, hnone]
    rfl

/-! ## §3 — the contract -/

def ObserverCall.isExit : ObserverCall → Bool
  | .exit _ => true
  | _ => false

/-- A single call that is neither an exit nor the end of the standard output. -/
theorem counts_of_single {call : ObserverCall} (hexit : call.isExit = false) (hend : call ≠ .runEnd) :
    [call].countP ObserverCall.isExit = 0 ∧ [call].count .runEnd = 0 ∧
    ∀ before code after, [call] = before ++ .exit code :: after → .runEnd ∈ before := by
  refine ⟨by simp [hexit], List.count_eq_zero.mpr (by simpa using hend.symm), ?_⟩
  intro before code after hsplit
  have hmem : .exit code ∈ [call] := by rw [hsplit]; simp
  rw [← List.mem_singleton.mp hmem] at hexit
  cases hexit

section Process

variable {p : Process} {calls : List ObserverCall}

/-- The lines of a process tell of no exit. -/
theorem isExit_of_interleaves (h : Interleaves p.stdoutCalls p.stderrCalls calls) :
    ∀ call ∈ calls, call.isExit = false := by
  intro call hmem
  have hparts := h.perm.mem_iff.mpr hmem
  simp only [Process.stdoutCalls, Process.stderrCalls, List.mem_append, List.mem_map,
    List.mem_singleton] at hparts
  rcases hparts with (⟨line, -, rfl⟩ | rfl) | ⟨line, -, rfl⟩ <;> rfl

/-- The end of the standard output is told once. -/
theorem count_runEnd_of_interleaves (h : Interleaves p.stdoutCalls p.stderrCalls calls) :
    calls.count .runEnd = 1 := by
  have hstdout : ((streamLines p.stdout).map ObserverCall.stdoutLine).count .runEnd = 0 :=
    List.count_eq_zero.mpr (by simp)
  have hstderr : ((streamLines p.stderr).map ObserverCall.stderrLine).count .runEnd = 0 :=
    List.count_eq_zero.mpr (by simp)
  rw [← h.perm.count_eq, Process.stdoutCalls, Process.stderrCalls, List.count_append,
    List.count_append, hstdout, hstderr]
  rfl

theorem calls_outcome_of_ok {code : Option Int} (h : p.ending = .ok code) :
    p.outcome.calls = [.exit (code.getD (-1))] := by
  rw [Process.outcome, h]
  rfl

/-- A process that was lost tells an exit as well, and then the failure. -/
theorem calls_outcome_of_error {cause : String} (h : p.ending = .error cause) :
    p.outcome.calls = [.exit (-1), .exception (RunError.wait cause).report] := by
  rw [Process.outcome, h]
  rfl

/-- In both cases there is one exit, and no end of the run, which is told by the standard output.
-/
theorem count_outcome_calls (p : Process) :
    p.outcome.calls.countP ObserverCall.isExit = 1 ∧ p.outcome.calls.count .runEnd = 0 := by
  cases hending : p.ending with
  | ok code =>
    rw [calls_outcome_of_ok hending]
    exact ⟨rfl, rfl⟩
  | error cause =>
    rw [calls_outcome_of_error hending]
    exact ⟨rfl, rfl⟩

/-- The exit of a process is told once, after the one end of its standard output. -/
theorem counts_of_process (h : Interleaves p.stdoutCalls p.stderrCalls calls) :
    (calls ++ p.outcome.calls).countP ObserverCall.isExit = 1 ∧
    (calls ++ p.outcome.calls).count .runEnd = 1 ∧
    ∀ before code after, calls ++ p.outcome.calls = before ++ .exit code :: after →
      .runEnd ∈ before := by
  have hunexited := isExit_of_interleaves h
  have honce := count_runEnd_of_interleaves h
  obtain ⟨hexits, hends⟩ := count_outcome_calls p
  have hnone : calls.countP ObserverCall.isExit = 0 :=
    List.countP_eq_zero.mpr fun call hmem => by simp [hunexited call hmem]
  refine ⟨by rw [List.countP_append, hnone, hexits], by rw [List.count_append, honce, hends], ?_⟩
  intro before code after hsplit
  rcases split_append hsplit with ⟨rest, hcalls, -⟩ | ⟨rest, rfl, -⟩
  · have hexit := hunexited (.exit code) (by rw [hcalls]; simp)
    cases hexit
  · have hmem : .runEnd ∈ calls := List.count_pos_iff.mp (by omega)
    exact List.mem_append_left rest hmem

end Process

/-- **What the observers of a run are told.** Let a process be started, or fail to start because its
program is missing or cannot be run, and let its two streams be read in any order. All observers are
told the same. A missing program is an error, and one that cannot be run an exception, and that is
all. Else the lines of the standard output are told once and in order, and then its end; among these
the lines of the standard error, once and in order; and then the exit, with the code of the process
or with -1 if it has none or could not be waited for, in which case an exception comes last. So
the exit and the end of the standard output are told once if the process started, the end of the
standard output first, and not at all if it did not start. -/
theorem observer_contract (started : Except RunError Process) {events : List RunEvent} {n : Nat}
    (hstart : ∀ e, started = .error e → e.isSetupFailure = true)
    (hevents : (Runner.start started).Delivers events) (i : Fin n) :
    let calls := callsTo i (dispatch n events)
    (∀ j : Fin n, callsTo j (dispatch n events) = calls) ∧
    (∀ program, started = .error (.notFound program) →
      calls = [.error (RunError.notFound program).report]) ∧
    (∀ program cause, started = .error (.spawn program cause) →
      calls = [.exception (RunError.spawn program cause).report]) ∧
    (∀ p, started = .ok p → ∃ lines,
      Interleaves ((streamLines p.stdout).map .stdoutLine ++ [.runEnd])
        ((streamLines p.stderr).map .stderrLine) lines ∧
      (∀ code, p.ending = .ok code → calls = lines ++ [.exit (code.getD (-1))]) ∧
      (∀ cause, p.ending = .error cause →
        calls = lines ++ [.exit (-1), .exception (RunError.wait cause).report])) ∧
    calls.countP ObserverCall.isExit = (if started.isOk then 1 else 0) ∧
    calls.count .runEnd = (if started.isOk then 1 else 0) ∧
    ∀ before code after, calls = before ++ .exit code :: after → .runEnd ∈ before := by
  intro calls
  have hcalls : calls = observerCalls events := callsTo_dispatch i events
  refine ⟨fun j => by rw [hcalls, callsTo_dispatch], ?_⟩
  -- a process that did not start has one event, and a process that did has its lines and its
  -- outcome.
  cases started with
  | error e =>
    rw [Runner.delivers_error.mp hevents] at hcalls
    cases e with
    | notFound program =>
      have hone : calls = [.error (RunError.notFound program).report] := hcalls
      rw [hone]
      refine ⟨?_, by simp, by simp, counts_of_single rfl (by simp)⟩
      intro program' hprogram
      cases hprogram
      rfl
    | spawn program cause =>
      have hone : calls = [.exception (RunError.spawn program cause).report] := hcalls
      rw [hone]
      refine ⟨by simp, ?_, by simp, counts_of_single rfl (by simp)⟩
      intro program' cause' hspawn
      cases hspawn
      rfl
    | wait cause => cases hstart _ rfl
  | ok p =>
    obtain ⟨lines, horder, rfl⟩ := Runner.delivers_ok.mp hevents
    obtain ⟨told, htold, hsum⟩ := observerCalls_started horder
    rw [hcalls, hsum]
    refine ⟨by simp, by simp, ?_, counts_of_process htold⟩
    intro p' hp
    cases hp
    refine ⟨told, htold, ?_, ?_⟩
    · intro code hending
      rw [calls_outcome_of_ok hending]
    · intro cause hending
      rw [calls_outcome_of_error hending]

/-- A process that writes a line to each stream and then cannot be waited for, as the second of two
observers sees it. -/
theorem lost_process_observed :
    let p : Process :=
      { stdout := [.bytes [97, 10]], stderr := [.bytes [120, 10]], ending := .error "gone" }
    let events : List RunEvent :=
      [.stderr "x", .stdout "a", .stdoutClosed, .finished (.failed (.wait "gone"))]
    let calls := callsTo (1 : Fin 2) (dispatch 2 events)
    (Runner.start (.ok p)).Delivers events ∧
    calls.countP ObserverCall.isExit = 1 ∧ calls.count .runEnd = 1 ∧
    ∃ lines,
      Interleaves ((streamLines p.stdout).map .stdoutLine ++ [.runEnd])
        ((streamLines p.stderr).map .stderrLine) lines ∧
      calls = lines ++ [.exit (-1), .exception "failed waiting for compiler process: gone"] := by
  intro p events calls
  have hstdout : p.stdoutEvents = [.stdout "a", .stdoutClosed] := by decide
  have hstderr : p.stderrEvents = [.stderr "x"] := by decide
  have hevents : (Runner.start (.ok p)).Delivers events := by
    refine Runner.delivers_ok.mpr ⟨[.stderr "x", .stdout "a", .stdoutClosed], ?_, rfl⟩
    rw [hstdout, hstderr]
    exact .right _ (.left _ (.left _ .nil))
  obtain ⟨-, -, -, hprocess, hexits, hends, -⟩ :=
    observer_contract (.ok p) (by simp) hevents (1 : Fin 2)
  obtain ⟨lines, horder, -, hlost⟩ := hprocess p rfl
  exact ⟨hevents, hexits, hends, lines, horder, hlost "gone" rfl⟩

end KspWorkbench
