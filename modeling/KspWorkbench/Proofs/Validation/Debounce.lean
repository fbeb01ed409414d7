import KspWorkbench.Proofs.Sequences
import KspWorkbench.Validation.Gate

/-!
# Debounce gates are safe

A gate is followed through any sequence of steps, and everything is written down in one `Chronicle`:
what was done to the gate and what happened at it. Four things hold of every chronicle.

* Tasks do not overlap, and a task that has started ends after its own duration: the log of starts
  and ends is `Orderly`.
* A task starts only on account of the last trigger, and only if the gate was neither cancelled nor
  dropped since then (`Founded`).
* No trigger lets a task start twice (`Tracks.once`).
* A task whose wait is over starts in the same moment. What is ready can no longer be taken back, so
  the second point rests on this: whenever something is done to a gate, no task is ready (`AtRest`).

The invariant `Tracks` says these things of a gate in the middle of a moment too, where a task may be
ready. It is kept by each single step that a task can take (`tracks_of_step`), hence by `settle`.
-/

namespace KspWorkbench

/-- When something happened at a gate. -/
def GateEvent.time {α : Type} : GateEvent α → Nat
  | .started _ time | .ended _ time => time

namespace GateRun

variable {ι : Type}

/-! ## §1 — chronicles -/

/-- Something that was done to a gate, or something that happened at it. -/
inductive Entry (ι : Type) where
  | did (step : GateStep ι)
  | saw (event : GateEvent (TimedTask ι))
  deriving DecidableEq

abbrev Chronicle (ι : Type) := List (Entry ι)

def fresh (delay : Nat) : GateRun ι :=
  { gate := { delay := delay } }

def stepAll (r : GateRun ι) (steps : List (GateStep ι)) : GateRun ι :=
  steps.foldl (fun r step => (r.step step).1) r

def chronicle (r : GateRun ι) : List (GateStep ι) → Chronicle ι
  | [] => []
  | step :: steps =>
    .did step :: (r.step step).2.map .saw ++ (r.step step).1.chronicle steps

def Entry.event? : Entry ι → Option (GateEvent (TimedTask ι))
  | .saw event => some event
  | .did _ => none

def Entry.triggered? : Entry ι → Option (TimedTask ι)
  | .did (.trigger task) => some task
  | _ => none

def Entry.started? : Entry ι → Option (TimedTask ι)
  | .saw (.started task _) => some task
  | _ => none

/-- Whether nothing waits any more for what was triggered before: there is a new trigger, or a
cancel, or a drop, or a task has started. -/
def Entry.supersedes : Entry ι → Bool
  | .did (.trigger _) | .did .cancel | .did .drop | .saw (.started _ _) => true
  | _ => false

namespace Chronicle

def events (C : Chronicle ι) : GateLog ι :=
  C.filterMap Entry.event?

def triggered (C : Chronicle ι) : List (TimedTask ι) :=
  C.filterMap Entry.triggered?

def started (C : Chronicle ι) : List (TimedTask ι) :=
  C.filterMap Entry.started?

@[simp] theorem events_append (C E : Chronicle ι) : events (C ++ E) = events C ++ events E :=
  List.filterMap_append

@[simp] theorem triggered_append (C E : Chronicle ι) :
    triggered (C ++ E) = triggered C ++ triggered E :=
  List.filterMap_append

@[simp] theorem started_append (C E : Chronicle ι) : started (C ++ E) = started C ++ started E :=
  List.filterMap_append

/-- The task was triggered, and nothing has superseded it since. -/
def Pending (C : Chronicle ι) (task : TimedTask ι) : Prop :=
  ∃ early late, C = early ++ .did (.trigger task) :: late ∧
    ∀ entry ∈ late, entry.supersedes = false

theorem pending_concat (C : Chronicle ι) (task : TimedTask ι) :
    Pending (C ++ [.did (.trigger task)]) task :=
  ⟨C, [], rfl, by simp⟩

/-- A task stays pending as long as nothing takes its place. -/
theorem Pending.append {C E : Chronicle ι} {task : TimedTask ι} (h : C.Pending task)
    (hE : ∀ entry ∈ E, entry.supersedes = false) : Pending (C ++ E) task := by
  obtain ⟨early, late, rfl, hlate⟩ := h
  refine ⟨early, late ++ E, by simp, ?_⟩
  intro entry hmem
  rcases List.mem_append.mp hmem with hold | hnew
  · exact hlate entry hold
  · exact hE entry hnew

/-- Every start is that of the task that was triggered last, and that nothing has superseded. -/
def Founded (C : Chronicle ι) : Prop :=
  ∀ early task time late, C = early ++ .saw (.started task time) :: late → Pending early task

/-- A chronicle stays founded when no start is added. -/
theorem Founded.append {C E : Chronicle ι} (h : C.Founded)
    (hE : ∀ entry ∈ E, entry.started? = none) : Founded (C ++ E) := by
  intro early task time late hsplit
  rcases split_append hsplit with ⟨rest, hC, -⟩ | ⟨rest, -, hE'⟩
  · exact h early task time rest hC
  · have hnone := hE (.saw (.started task time)) (by rw [hE']; simp)
    cases hnone

/-- A chronicle stays founded when a pending task starts. -/
theorem Founded.concat {C : Chronicle ι} (h : C.Founded) {task : TimedTask ι}
    (hpending : C.Pending task) (time : Nat) : Founded (C ++ [.saw (.started task time)]) := by
  intro early task' time' late hsplit
  rcases split_append hsplit with ⟨rest, hC, -⟩ | ⟨rest, rfl, hE⟩
  · exact h early task' time' rest hC
  · -- the entry is the new one, so all of `C` stands before it.
    cases rest with
    | nil =>
      cases hE
      simpa using hpending
    | cons _ rest => simp at hE

end Chronicle

open Chronicle

/-! ## §2 — orderly logs -/

/-- Tasks start one after the other, each when the one before has ended, and each ends after its own
duration. The log comes with the task that has not ended and with the time of its last event. -/
inductive Orderly : GateLog ι → Option (Executing (TimedTask ι)) → Nat → Prop where
  | nil : Orderly [] none 0
  | started {L : GateLog ι} {last now : Nat} (task : TimedTask ι) (h : Orderly L none last)
      (hle : last ≤ now) :
      Orderly (L ++ [.started task now]) (some ⟨task, now + task.takes⟩) now
  | ended {L : GateLog ι} {last ends : Nat} {task : TimedTask ι}
      (h : Orderly L (some ⟨task, ends⟩) last) : Orderly (L ++ [.ended task ends]) none ends

namespace Orderly

/-- A task that has not ended was the last to start, and is to end after its own duration. -/
theorem executing_eq {L : GateLog ι} {e : Executing (TimedTask ι)} {last : Nat}
    (h : Orderly L (some e) last) :
    e.ends = last + e.task.takes ∧ ∃ L', L = L' ++ [.started e.task last] := by
  cases h with
  | started task h hle => exact ⟨rfl, _, rfl⟩

/-- No event is later than the last one. -/
theorem time_le {L : GateLog ι} {executing : Option (Executing (TimedTask ι))} {last : Nat}
    (h : Orderly L executing last) : ∀ event ∈ L, event.time ≤ last := by
  induction h with
  | nil => simp
  | started task _ hle ih =>
    intro event hmem
    rcases List.mem_append.mp hmem with hold | hnew
    · exact Nat.le_trans (ih event hold) hle
    · rw [List.mem_singleton.mp hnew]
      exact Nat.le_refl _
  -- the task ends when its time is over, which is not before it has started.
  | ended h ih =>
    intro event hmem
    rcases List.mem_append.mp hmem with hold | hnew
    · have hends := h.executing_eq.1
      have hle := ih event hold
      simp only at hends
      omega
    · rw [List.mem_singleton.mp hnew]
      exact Nat.le_refl _

/-- **A start is followed by its end**, unless it is the last thing in the log: then the task has not
ended. -/
theorem after_start {L : GateLog ι} {executing : Option (Executing (TimedTask ι))} {last : Nat}
    (h : Orderly L executing last) {before after : GateLog ι} {task : TimedTask ι} {time : Nat}
    (hL : L = before ++ .started task time :: after) :
    (after = [] ∧ executing = some ⟨task, time + task.takes⟩) ∨
    ∃ rest, after = .ended task (time + task.takes) :: rest := by
  induction h generalizing after with
  | nil => simp at hL
  | started task' _ _ ih =>
    rcases split_append hL with ⟨rest, hold, rfl⟩ | ⟨rest, -, hnew⟩
    · -- nothing was executing before the new start, so the older one was followed by its end.
      rcases ih hold with ⟨-, hnone⟩ | ⟨rest', rfl⟩
      · cases hnone
      · exact Or.inr ⟨_, rfl⟩
    · cases rest with
      | nil =>
        cases hnew
        exact Or.inl ⟨rfl, rfl⟩
      | cons _ rest => simp at hnew
  | ended _ ih =>
    rcases split_append hL with ⟨rest, hold, rfl⟩ | ⟨rest, -, hnew⟩
    · rcases ih hold with ⟨rfl, hexec⟩ | ⟨rest', rfl⟩
      · cases hexec
        exact Or.inr ⟨[], rfl⟩
      · exact Or.inr ⟨_, rfl⟩
    · cases rest with
      | nil => cases hnew
      | cons _ rest => simp at hnew

/-- **An end follows its start** directly. -/
theorem before_end {L : GateLog ι} {executing : Option (Executing (TimedTask ι))} {last : Nat}
    (h : Orderly L executing last) {before after : GateLog ι} {task : TimedTask ι} {time : Nat}
    (hL : L = before ++ .ended task time :: after) :
    ∃ rest start, before = rest ++ [.started task start] ∧ time = start + task.takes := by
  induction h generalizing after with
  | nil => simp at hL
  | started _ _ _ ih =>
    rcases split_append hL with ⟨rest, hold, -⟩ | ⟨rest, -, hnew⟩
    · exact ih hold
    · cases rest with
      | nil => cases hnew
      | cons _ rest => simp at hnew
  -- the last end follows the start of its own task directly, as nothing else can happen between.
  | ended h ih =>
    rcases split_append hL with ⟨rest, hold, -⟩ | ⟨rest, rfl, hnew⟩
    · exact ih hold
    · cases rest with
      | nil =>
        cases hnew
        obtain ⟨hends, L', rfl⟩ := h.executing_eq
        exact ⟨L', _, by simp, hends⟩
      | cons _ rest => simp at hnew

/-- Times do not go back in a log. -/
theorem sorted {L : GateLog ι} {executing : Option (Executing (TimedTask ι))} {last : Nat}
    (h : Orderly L executing last) : L.Pairwise (·.time ≤ ·.time) := by
  induction h with
  | nil => exact .nil
  | started task h hle ih =>
    refine List.pairwise_append.mpr ⟨ih, List.pairwise_singleton _ _, ?_⟩
    intro event hmem event' hmem'
    rw [List.mem_singleton.mp hmem']
    exact Nat.le_trans (h.time_le event hmem) hle
  | ended h ih =>
    refine List.pairwise_append.mpr ⟨ih, List.pairwise_singleton _ _, ?_⟩
    intro event hmem event' hmem'
    rw [List.mem_singleton.mp hmem']
    exact h.ended.time_le event (List.mem_append_left _ hmem)

/-- **Tasks do not overlap**: before the next start there is the end of the one before. -/
theorem between_starts {L : GateLog ι} {executing : Option (Executing (TimedTask ι))} {last : Nat}
    (h : Orderly L executing last) {before between after : GateLog ι} {a b : TimedTask ι}
    {t u : Nat} (hL : L = before ++ .started a t :: (between ++ .started b u :: after)) :
    .ended a (t + a.takes) ∈ between ∧ t + a.takes ≤ u := by
  rcases h.after_start hL with ⟨hnil, -⟩ | ⟨rest, hrest⟩
  · simp at hnil
  cases between with
  | nil => cases hrest
  | cons event between =>
    obtain ⟨rfl, -⟩ := List.cons.inj hrest
    refine ⟨List.mem_cons_self, ?_⟩
    have hsorted := h.sorted
    rw [hL, List.pairwise_append] at hsorted
    have htail := (List.pairwise_cons.mp (List.pairwise_cons.mp hsorted.2.1).2).1
    exact htail (.started b u) (by simp)

end Orderly

/-! ## §3 — the invariant -/

/-- The tasks that are to start: those that are ready, and the one that waits. -/
def expected (r : GateRun ι) : List (TimedTask ι) :=
  r.gate.ready ++ r.gate.waiting.toList.map Waiting.task

/-- What the chronicle says of a gate. A task that waits beside an executing one waits for its end,
and a task that is ready is alone at the gate. -/
structure Tracks (C : Chronicle ι) (r : GateRun ι) : Prop where
  orderly : ∃ last ≤ r.now, Orderly C.events r.gate.executing last
  unexpired : ∀ e, r.gate.executing = some e → r.now ≤ e.ends
  waits : ∀ w, r.gate.waiting = some w →
    C.Pending w.task ∧ (r.gate.executing.isSome → w.due = none)
  ready : r.gate.ready = [] ∨
    ∃ task, r.gate.ready = [task] ∧ C.Pending task ∧ r.gate.executing = none ∧
      r.gate.waiting = none
  founded : C.Founded
  once : (C.started ++ r.expected).Sublist C.triggered
  dropped : r.dropped = true → r.gate.waiting = none

/-- Between the moments: no task is ready, and the one that is executing still has time. -/
structure AtRest (r : GateRun ι) : Prop where
  ready : r.gate.ready = []
  unexpired : ∀ e, r.gate.executing = some e → r.now < e.ends

theorem tracks_fresh (delay : Nat) : Tracks [] (fresh delay : GateRun ι) where
  orderly := ⟨0, Nat.le_refl _, .nil⟩
  unexpired := by simp [fresh]
  waits := by simp [fresh]
  ready := Or.inl rfl
  founded := by simp [Founded]
  once := .slnil
  dropped := by simp [fresh]

theorem atRest_fresh (delay : Nat) : AtRest (fresh delay : GateRun ι) :=
  ⟨rfl, by simp [fresh]⟩

/-- The tasks that have started are some of those that were triggered, in the same order. -/
theorem Tracks.started_sublist {C : Chronicle ι} {r : GateRun ι} (h : Tracks C r) :
    C.started.Sublist C.triggered :=
  (List.sublist_append_left _ _).trans h.once

/-! ## §4 — one moment -/

/-- Beside an executing task, and beside one that waits, no task is ready. -/
theorem Tracks.ready_eq_nil {C : Chronicle ι} {r : GateRun ι} (h : Tracks C r)
    (hother : r.gate.executing ≠ none ∨ r.gate.waiting ≠ none) : r.gate.ready = [] := by
  rcases h.ready with hnil | ⟨_, -, -, hidle, hwait⟩
  · exact hnil
  · exact absurd hother (by simp [hidle, hwait])

/-- The task that executes comes to its end. -/
theorem tracks_of_ended {C : Chronicle ι} {r : GateRun ι} (h : Tracks C r)
    {e : Executing (TimedTask ι)} (hexec : r.gate.executing = some e) (hends : e.ends ≤ r.now) :
    Tracks (C ++ [.saw (.ended e.task r.now)])
      { r with gate := { r.gate with executing := none } } := by
  obtain ⟨last, -, hL⟩ := h.orderly
  -- the time of the task was not over before, so it is over exactly now.
  have hnow : e.ends = r.now := Nat.le_antisymm hends (h.unexpired e hexec)
  rw [hexec] at hL
  have hlog := hL.ended
  rw [hnow] at hlog
  have hnone : Chronicle.started [Entry.saw (.ended e.task r.now)] = [] := rfl
  have hready : r.gate.ready = [] := h.ready_eq_nil (Or.inl (by simp [hexec]))
  refine ⟨⟨r.now, Nat.le_refl _, ?_⟩, by simp, ?_, Or.inl hready, ?_, ?_, h.dropped⟩
  · rw [events_append]
    exact hlog
  · intro w hw
    refine ⟨(h.waits w hw).1.append ?_, by simp⟩
    simp [Entry.supersedes]
  · exact h.founded.append (by simp [Entry.started?])
  · rw [started_append, hnone, List.append_nil, triggered_append]
    exact h.once.trans (List.sublist_append_left _ _)

/-- The delay of the waiting task is over, and it is ready. -/
theorem tracks_of_ripened {C : Chronicle ι} {r : GateRun ι} (h : Tracks C r)
    {w : Waiting (TimedTask ι)} {due : Nat} (hwait : r.gate.waiting = some w)
    (hdue : w.due = some due) :
    Tracks C { r with gate := { r.gate with waiting := none, ready := r.gate.ready ++ [w.task] } } := by
  obtain ⟨hpending, hlock⟩ := h.waits w hwait
  have hready : r.gate.ready = [] := h.ready_eq_nil (Or.inr (by simp [hwait]))
  -- a task with a due time does not wait for another one, so none is executing.
  have hidle : r.gate.executing = none := by
    cases hexec : r.gate.executing with
    | none => rfl
    | some e =>
      rw [hlock (by rw [hexec]; rfl)] at hdue
      cases hdue
  have honce := h.once
  rw [expected, hready, hwait] at honce
  refine ⟨h.orderly, h.unexpired, by simp, Or.inr ⟨w.task, ?_, hpending, hidle, rfl⟩, h.founded,
    ?_, fun _ => rfl⟩
  · rw [hready]
    rfl
  · simpa [expected, hready] using honce

/-- The first task that is ready starts. -/
theorem tracks_of_started {C : Chronicle ι} {r : GateRun ι} (h : Tracks C r)
    {task : TimedTask ι} {ready : List (TimedTask ι)} (hready : r.gate.ready = task :: ready) :
    Tracks (C ++ [.saw (.started task r.now)])
      { r with gate :=
        { r.gate with ready := ready, executing := some ⟨task, r.now + task.takes⟩ } } := by
  obtain ⟨last, hlast, hL⟩ := h.orderly
  -- the task that is ready is alone, and nothing has superseded it.
  obtain ⟨hpending, rfl, hidle, hwait⟩ : C.Pending task ∧ ready = [] ∧
      r.gate.executing = none ∧ r.gate.waiting = none := by
    rcases h.ready with hnil | ⟨task', hone, hpending, hidle, hwait⟩
    · rw [hready] at hnil
      cases hnil
    · rw [hready] at hone
      cases hone
      exact ⟨hpending, rfl, hidle, hwait⟩
  rw [hidle] at hL
  have honce := h.once
  rw [expected, hready, hwait] at honce
  have hone : Chronicle.started [Entry.saw (.started task r.now)] = [task] := rfl
  refine ⟨⟨r.now, Nat.le_refl _, ?_⟩, ?_, by simp [hwait], Or.inl rfl, ?_, ?_, fun _ => hwait⟩
  · rw [events_append]
    exact hL.started task hlast
  · intro e he
    cases he
    exact Nat.le_add_right _ _
  · exact h.founded.concat hpending r.now
  · rw [started_append, hone, triggered_append, expected, hwait]
    simpa using honce.trans (List.sublist_append_left _ _)

/-- A task that waited for another one to end has its delay count from now on. -/
theorem tracks_of_admitted {C : Chronicle ι} {r : GateRun ι} (h : Tracks C r)
    {task : TimedTask ι} {delay : Nat} (hidle : r.gate.executing = none)
    (hready : r.gate.ready = []) (hwait : r.gate.waiting = some ⟨task, delay, none⟩) (due : Nat) :
    Tracks C
      { r with gate := { r.gate with waiting := some ⟨task, delay, some due⟩ } } := by
  have honce := h.once
  rw [expected, hwait] at honce
  refine ⟨h.orderly, h.unexpired, ?_, Or.inl hready, h.founded, honce, ?_⟩
  · intro w hw
    cases hw
    refine ⟨(h.waits _ hwait).1, ?_⟩
    simp [hidle]
  · intro hdropped
    rw [h.dropped hdropped] at hwait
    cases hwait

/-- **Each step of a task keeps the invariant.** -/
theorem tracks_of_step {C : Chronicle ι} {r : GateRun ι} (h : Tracks C r)
    {gate : Gate (TimedTask ι)} {events : GateLog ι}
    (hstep : r.gate.Step TimedTask.takes r.now gate events) :
    Tracks (C ++ events.map .saw) { r with gate := gate } := by
  cases hstep with
  | ended hexec hends => exact tracks_of_ended h hexec hends
  | ripened hwait hdue _ =>
    rw [List.map_nil, List.append_nil]
    exact tracks_of_ripened h hwait hdue
  | started _ hready => exact tracks_of_started h hready
  | admitted hidle hready hwait =>
    rw [List.map_nil, List.append_nil]
    exact tracks_of_admitted h hidle hready hwait _

/-- Where no step is left, the gate is at rest. -/
theorem atRest_of_next? {C : Chronicle ι} {r : GateRun ι} (h : Tracks C r)
    (hquiet : r.gate.next? TimedTask.takes r.now = none) : AtRest r := by
  simp only [Gate.next?, Option.orElse_eq_orElse, Option.orElse_eq_or, Option.or_eq_none_iff]
    at hquiet
  obtain ⟨hend, -, hstart, -⟩ := hquiet
  refine ⟨?_, ?_⟩
  · rcases h.ready with hnil | ⟨task, hone, -, hidle, -⟩
    · exact hnil
    · simp [Gate.start?, hone, hidle] at hstart
  · intro e hexec
    by_contra hle
    simp [Gate.end?, hexec, Nat.le_of_not_lt hle] at hend

/-- Everything that happens at one moment, change by change. -/
theorem tracks_gate_settle (r : GateRun ι) (g : Gate (TimedTask ι)) {C : Chronicle ι}
    (h : Tracks C { r with gate := g }) :
    Tracks (C ++ (g.settle TimedTask.takes r.now).2.map .saw)
      { r with gate := (g.settle TimedTask.takes r.now).1 } ∧
    AtRest { r with gate := (g.settle TimedTask.takes r.now).1 } := by
  fun_induction Gate.settle g TimedTask.takes r.now generalizing C with
  | case1 g hquiet =>
    simp only [List.map_nil, List.append_nil]
    exact ⟨h, atRest_of_next? h hquiet⟩
  | case2 g g' events hnext settled later hsettle ih =>
    have hstep : Tracks (C ++ events.map .saw) { r with gate := g' } :=
      tracks_of_step h (Gate.step_of_next? hnext)
    have hlater := ih hstep
    rw [hsettle] at hlater
    rw [List.map_append, ← List.append_assoc]
    exact hlater

/-- **A moment keeps the invariant**, and after it the gate is at rest. -/
theorem tracks_settle {C : Chronicle ι} {r : GateRun ι} (h : Tracks C r) :
    Tracks (C ++ r.settle.2.map .saw) r.settle.1 ∧ AtRest r.settle.1 :=
  tracks_gate_settle r r.gate h

/-! ## §5 — the course of time -/

/-- A millisecond passes, and everything due at its end happens. -/
theorem tracks_tick {C : Chronicle ι} {past : GateRun ι × GateLog ι}
    (h : Tracks (C ++ past.2.map .saw) past.1 ∧ AtRest past.1) :
    Tracks (C ++ (tick past).2.map .saw) (tick past).1 ∧ AtRest (tick past).1 := by
  obtain ⟨htracks, hrest⟩ := h
  obtain ⟨last, hlast, hL⟩ := htracks.orderly
  have hlater : Tracks (C ++ past.2.map .saw) { past.1 with now := past.1.now + 1 } :=
    { htracks with
      orderly := ⟨last, Nat.le_succ_of_le hlast, hL⟩
      unexpired := fun e he => hrest.unexpired e he }
  rw [tick, List.map_append, ← List.append_assoc]
  exact tracks_settle hlater

/-- Any stretch of time, millisecond by millisecond. -/
theorem tracks_pass {C : Chronicle ι} {r : GateRun ι} (h : Tracks C r) (hrest : AtRest r)
    (ms : Nat) : Tracks (C ++ (r.pass ms).2.map .saw) (r.pass ms).1 ∧ AtRest (r.pass ms).1 := by
  induction ms with
  | zero => exact ⟨by simpa [pass, Nat.repeat] using h, hrest⟩
  | succ ms ih => exact tracks_tick ih

/-- Something is done to a gate at rest: it is enough to look at the task that waits afterwards. -/
theorem Tracks.did {C : Chronicle ι} {r r' : GateRun ι} (h : Tracks C r) (hrest : AtRest r)
    (step : GateStep ι) (hnow : r'.now = r.now)
    (hexec : r'.gate.executing = r.gate.executing) (hready : r'.gate.ready = r.gate.ready)
    (hwaits : ∀ w, r'.gate.waiting = some w → Pending (C ++ [.did step]) w.task ∧
      (r.gate.executing.isSome → w.due = none) ∧
      (C.started ++ [w.task]).Sublist (triggered (C ++ [.did step])))
    (hdropped : r'.dropped = true → r'.gate.waiting = none) :
    Tracks (C ++ [.did step]) r' ∧ AtRest r' := by
  obtain ⟨last, hlast, hL⟩ := h.orderly
  have hnil : r'.gate.ready = [] := by rw [hready, hrest.ready]
  have hevents : Chronicle.events (C ++ [.did step]) = C.events := by
    simp [Chronicle.events, Entry.event?]
  have hstarted : Chronicle.started (C ++ [.did step]) = C.started := by
    simp [Chronicle.started, Entry.started?]
  -- the step has no events of its own, so all but what waits is as it was.
  refine ⟨⟨⟨last, ?_, ?_⟩, ?_, ?_, Or.inl hnil, ?_, ?_, hdropped⟩, hnil, ?_⟩
  · rw [hnow]
    exact hlast
  · rw [hevents, hexec]
    exact hL
  · rw [hexec, hnow]
    exact h.unexpired
  · intro w hw
    obtain ⟨hpending, hlock, -⟩ := hwaits w hw
    rw [hexec]
    exact ⟨hpending, hlock⟩
  · exact h.founded.append (by simp [Entry.started?])
  · rw [hstarted, expected, hnil, List.nil_append]
    cases hw : r'.gate.waiting with
    | none =>
      rw [triggered_append]
      simpa using h.started_sublist.trans (List.sublist_append_left _ _)
    | some w => exact (hwaits w hw).2.2
  · rw [hexec, hnow]
    exact hrest.unexpired

/-- What is done leaves the task that waits. -/
theorem Tracks.keep {C : Chronicle ι} {r r' : GateRun ι} (h : Tracks C r) (hrest : AtRest r)
    {step : GateStep ι} (hstep : (Entry.did step).supersedes = false) (hnow : r'.now = r.now)
    (hexec : r'.gate.executing = r.gate.executing) (hready : r'.gate.ready = r.gate.ready)
    (hwaiting : r'.gate.waiting = r.gate.waiting) (hdropped : r'.dropped = r.dropped) :
    Tracks (C ++ [.did step]) r' ∧ AtRest r' := by
  refine h.did hrest step hnow hexec hready ?_ ?_
  · intro w hw
    rw [hwaiting] at hw
    obtain ⟨hpending, hlock⟩ := h.waits w hw
    have honce := h.once
    rw [expected, hrest.ready, hw] at honce
    refine ⟨hpending.append (by simpa using hstep), hlock, ?_⟩
    rw [triggered_append]
    exact honce.trans (List.sublist_append_left _ _)
  · rw [hdropped, hwaiting]
    exact h.dropped

/-- What is done leaves no task waiting. -/
theorem Tracks.clear {C : Chronicle ι} {r r' : GateRun ι} (h : Tracks C r) (hrest : AtRest r)
    (step : GateStep ι) (hnow : r'.now = r.now)
    (hexec : r'.gate.executing = r.gate.executing) (hready : r'.gate.ready = r.gate.ready)
    (hwaiting : r'.gate.waiting = none) : Tracks (C ++ [.did step]) r' ∧ AtRest r' := by
  refine h.did hrest step hnow hexec hready ?_ (fun _ => hwaiting)
  intro w hw
  rw [hwaiting] at hw
  cases hw

/-- A trigger puts its task in the place of the one that waits. -/
theorem tracks_trigger {C : Chronicle ι} {r : GateRun ι} (h : Tracks C r) (hrest : AtRest r)
    (hdropped : r.dropped = false) (task : TimedTask ι) :
    Tracks (C ++ [.did (.trigger task)]) { r with gate := r.gate.trigger r.now task } ∧
      AtRest { r with gate := r.gate.trigger r.now task } := by
  refine h.did hrest (.trigger task) rfl rfl rfl ?_ (by simp [hdropped])
  intro w hw
  cases hw
  refine ⟨pending_concat C task, ?_, ?_⟩
  · intro hexec
    simp [hexec]
  · rw [triggered_append]
    exact h.started_sublist.append_right _

/-- **Every step keeps the invariant**, and the gate is at rest before and after it. -/
theorem tracks_step {C : Chronicle ι} {r : GateRun ι} (h : Tracks C r) (hrest : AtRest r)
    (step : GateStep ι) :
    Tracks (C ++ .did step :: (r.step step).2.map .saw) (r.step step).1 ∧
      AtRest (r.step step).1 := by
  -- time is the only step with events; the others change what waits, and a gate that was dropped
  -- takes no more of them.
  cases step with
  | advance ms =>
    have hdid : Tracks (C ++ [.did (.advance ms)]) r :=
      (h.keep hrest rfl rfl rfl rfl rfl rfl).1
    obtain ⟨hsettled, hquiet⟩ := tracks_settle hdid
    have hpassed := tracks_pass hsettled hquiet ms
    have hchronicle : C ++ .did (.advance ms) :: (r.step (.advance ms)).2.map .saw =
        C ++ [.did (.advance ms)] ++ r.settle.2.map .saw ++
          (r.settle.1.pass ms).2.map .saw := by
      simp [GateRun.step]
    rw [hchronicle]
    exact hpassed
  | setDelay delay =>
    rw [GateRun.step]
    split
    · exact h.keep hrest rfl rfl rfl rfl rfl rfl
    · exact h.keep hrest rfl rfl rfl rfl rfl rfl
  | trigger task =>
    rw [GateRun.step]
    split
    · next hdropped => exact h.clear hrest _ rfl rfl rfl (h.dropped hdropped)
    · next hdropped => exact tracks_trigger h hrest (by simpa using hdropped) task
  | cancel =>
    rw [GateRun.step]
    split
    · next hdropped => exact h.clear hrest _ rfl rfl rfl (h.dropped hdropped)
    · exact h.clear hrest _ rfl rfl rfl rfl
  | drop => exact h.clear hrest _ rfl rfl rfl rfl

/-- **The invariant holds of every course of a gate.** -/
theorem tracks_stepAll {C : Chronicle ι} {r : GateRun ι} (h : Tracks C r) (hrest : AtRest r)
    (steps : List (GateStep ι)) :
    Tracks (C ++ r.chronicle steps) (r.stepAll steps) ∧ AtRest (r.stepAll steps) := by
  induction steps generalizing C r with
  | nil => exact ⟨by simpa [chronicle, stepAll] using h, hrest⟩
  | cons step steps ih =>
    obtain ⟨hnext, hrest'⟩ := tracks_step h hrest step
    rw [chronicle, ← List.append_assoc]
    exact ih hnext hrest'

/-! ## §6 — safety -/

/-- **Debounce safety.** Take a new gate through any sequence of steps. A task starts only after the
end of every task that started before it. No trigger lets a task start twice: the tasks that started
are among those that were triggered, each once and in their order. A task that has started and whose
duration is over has ended, exactly when it was over and before anything else happened; one whose
duration is not over has not; and nothing else ends. And a task starts only if nothing was triggered
since its own trigger and the gate was neither cancelled nor dropped. -/
theorem debounce_safety (delay : Nat) (steps : List (GateStep ι)) :
    let r : GateRun ι := (fresh delay).stepAll steps
    let C : Chronicle ι := (fresh delay).chronicle steps
    (∀ before a t between b u after,
      C.events = before ++ .started a t :: (between ++ .started b u :: after) →
      .ended a (t + a.takes) ∈ between ∧ t + a.takes ≤ u) ∧
    C.started.Sublist C.triggered ∧
    (∀ before a t after, C.events = before ++ .started a t :: after →
      (r.now < t + a.takes ∧ after = []) ∨
      (t + a.takes ≤ r.now ∧ ∃ rest, after = .ended a (t + a.takes) :: rest)) ∧
    (∀ before a u after, C.events = before ++ .ended a u :: after →
      ∃ rest t, before = rest ++ [.started a t] ∧ u = t + a.takes) ∧
    (∀ early a t later, C = early ++ .saw (.started a t) :: later → Pending early a) := by
  intro r C
  have hrest₀ : AtRest (fresh delay : GateRun ι) := atRest_fresh delay
  obtain ⟨htracks, hrest⟩ := tracks_stepAll (tracks_fresh delay) hrest₀ steps
  rw [List.nil_append] at htracks
  obtain ⟨last, hlast, hL⟩ := htracks.orderly
  refine ⟨?_, htracks.started_sublist, ?_, ?_, htracks.founded⟩
  · intro before a t between b u after hevents
    exact hL.between_starts hevents
  -- a task that has not ended is the one that executes, and its end is still to come.
  · intro before a t after hevents
    rcases hL.after_start hevents with ⟨hnil, hexec⟩ | ⟨rest, hrest'⟩
    · exact Or.inl ⟨hrest.unexpired _ hexec, hnil⟩
    · refine Or.inr ⟨?_, rest, hrest'⟩
      have hended : GateEvent.ended a (t + a.takes) ∈ Chronicle.events C := by
        rw [hevents, hrest']
        simp
      exact Nat.le_trans (hL.time_le _ hended) hlast
  · intro before a u after hevents
    exact hL.before_end hevents

/-- Of two tasks that come while a third one is executing only the second starts, and its delay
begins at the end of the third. -/
theorem later_of_two_triggers_starts :
    let a : TimedTask Nat := ⟨0, 2⟩
    let b : TimedTask Nat := ⟨1, 1⟩
    let c : TimedTask Nat := ⟨2, 1⟩
    let steps : List (GateStep Nat) :=
      [.trigger a, .advance 2, .trigger b, .trigger c, .advance 3]
    let early : Chronicle Nat :=
      [.did (.trigger a), .did (.advance 2), .saw (.started a 1), .did (.trigger b),
       .did (.trigger c), .did (.advance 3), .saw (.ended a 3)]
    let before : GateLog Nat := [.started a 1, .ended a 3, .started c 4]
    let after : GateLog Nat := [.ended a 3, .started c 4, .ended c 5]
    let C := (fresh 1).chronicle steps
    C = early ++ .saw (.started c 4) :: [.saw (.ended c 5)] ∧
    (.ended a 3 ∈ ([.ended a 3] : GateLog Nat) ∧ 3 ≤ 4) ∧
    ((5 < 3 ∧ after = []) ∨ (3 ≤ 5 ∧ ∃ rest, after = .ended a 3 :: rest)) ∧
    (∃ rest t, before = rest ++ [.started c t] ∧ 5 = t + 1) ∧
    Pending early c := by
  intro a b c steps early before after C
  have hC : C = early ++ .saw (.started c 4) :: [.saw (.ended c 5)] := by decide +kernel
  have hnow : ((fresh 1).stepAll steps).now = 5 := by decide +kernel
  have hevents : C.events = [.started a 1, .ended a 3, .started c 4, .ended c 5] := by
    rw [hC]
    rfl
  obtain ⟨hapart, -, hafter, hbefore, hfounded⟩ := debounce_safety 1 steps
  rw [hnow] at hafter
  exact ⟨hC, hapart [] a 1 [.ended a 3] c 4 [.ended c 5] hevents, hafter [] a 1 after hevents,
    hbefore before c 5 [] hevents, hfounded early c 4 _ hC⟩

end GateRun

end KspWorkbench
