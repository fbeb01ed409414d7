import KspWorkbench.Validation.Service

/-!
# The course of a service

Everything that can happen to a service, one after the other and in any order: calls from outside,
the end of a delay, the end of a run, the passing of time. An `Action` is one of these as the
outside sees it, and `perform` is the service's own function for it. Nothing restricts when a
request fires or when a run ends, so the sequences of actions cover every interleaving.

Several actions are made of the same few parts: applying a configuration requests runs, polling
applies results one by one. These parts are the `Move`s, and `perform_eq_playAll` takes every action
apart into them. Two things follow from it:

* **`history`** — the record of an action sequence: the requests that were accepted, the runs that
  started and ended, and the results that were taken from the queue, in order.
* **`history_induction`** — what holds of a new service and is kept by every move holds of every
  state that actions lead to, together with the history that led there.
-/

namespace KspWorkbench

namespace Service

/-! ## §1 — actions: what the outside sees -/

/-- What can happen to a service: calls from outside first, in the order of the service's own
functions. -/
inductive Action where
  | handle (event : DocumentEvent)
  | beginOwnSave (key : DocumentKey)
  | endOwnSave (key : DocumentKey)
  | validate (key : DocumentKey) (delay : Nat)
  | applyConfig (compiler : Options) (settings : Settings)
  | poll (budget : Nat)
  | nextRun
  | drainNotices
  | shutdown
  -- what no call brings about: the end of a delay, the end of a run, results that come into the
  -- queue from outside, time that passes.
  | fire (key : DocumentKey)
  | complete (id : SessionId) (report : Report)
  | refill
  | advance (ms : Nat)

def perform (s : Service) : Action → Service
  | .handle event => s.handle event
  | .beginOwnSave key => s.beginOwnSave key
  | .endOwnSave key => s.endOwnSave key
  | .validate key delay => (s.validate key delay).2
  | .applyConfig compiler settings => s.applyConfig compiler settings
  | .poll budget => (s.poll budget).2
  | .nextRun => s.nextRun.2
  | .drainNotices => s.drainNotices.2
  | .shutdown => s.shutdown
  | .fire key => (s.fire key).2
  | .complete id report => s.complete id report
  | .refill => s.refill
  | .advance ms => s.advance ms

def performAll (s : Service) (actions : List Action) : Service :=
  actions.foldl perform s

/-! ## §2 — moves: what actions are made of -/

/-- Puts a configuration in force without validating anything: the part of `applyConfig` that comes
before its requests. -/
def reconfigure (s : Service) (compiler : Options) (settings : Settings) : Service :=
  let changed := !samePath compiler.executable s.compiler.executable
  let s := { s with compiler := compiler }.setSettings settings
  if changed then { s with registry := s.registry.resumeChanged compiler.executable } else s

inductive Move where
  | reconfigure (compiler : Options) (settings : Settings)
  | request (key : DocumentKey) (delay : Nat)
  | mark (openDocuments liveEdits ownSaves : KeySet)
  | dispose (key : DocumentKey)
  | disposeAll
  | fire (key : DocumentKey)
  | complete (id : SessionId) (report : Report)
  | refill
  | applyNext
  | drainNotices
  | advance (ms : Nat)

def play (s : Service) : Move → Service
  | .reconfigure compiler settings => s.reconfigure compiler settings
  | .request key delay => (s.validate key delay).2
  | .mark openDocuments liveEdits ownSaves =>
    { s with openDocuments := openDocuments, liveEdits := liveEdits, ownSaves := ownSaves }
  | .dispose key => { s with registry := s.registry.dispose key }
  | .disposeAll => { s with registry := s.registry.disposeAll }
  | .fire key => (s.fire key).2
  | .complete id report => s.complete id report
  | .refill => s.refill
  | .applyNext => s.applyNext.2
  | .drainNotices => s.drainNotices.2
  | .advance ms => s.advance ms

def playAll (s : Service) (moves : List Move) : Service :=
  moves.foldl play s

@[simp] theorem playAll_nil (s : Service) : s.playAll [] = s :=
  rfl

@[simp] theorem playAll_cons (s : Service) (m : Move) (ms : List Move) :
    s.playAll (m :: ms) = (s.play m).playAll ms :=
  rfl

theorem playAll_append (s : Service) (ms ms' : List Move) :
    s.playAll (ms ++ ms') = (s.playAll ms).playAll ms' :=
  List.foldl_append

/-- What every move of a sequence leaves as it is, the whole sequence leaves as it is. -/
theorem playAll_keeps {β : Type} (view : Service → β) {ms : List Move}
    (h : ∀ s, ∀ m ∈ ms, view (play s m) = view s) (s : Service) :
    view (s.playAll ms) = view s := by
  induction ms generalizing s with
  | nil => rfl
  | cons m ms ih =>
    rw [playAll_cons, ih fun s m' hm' => h s m' (List.mem_cons_of_mem m hm'),
      h s m List.mem_cons_self]

/-- The number of results that `nextRunWithin` takes from the queue. -/
def drawn (s : Service) : Nat → Nat
  | 0 => 0
  | tries + 1 =>
    match s.applyNext with
    | (none, _) => 0
    | (some (some _), _) => 1
    | (some none, s) => s.drawn tries + 1

/-- The request that an event of a document leads to, if the document is validated. -/
def requestIfValidated (s : Service) (key : DocumentKey) : List Move :=
  if s.shouldValidate key then [.request key 0] else []

def movesOfEvent (s : Service) : DocumentEvent → List Move
  | .opened key =>
    .mark (s.openDocuments.add key) s.liveEdits s.ownSaves :: s.requestIfValidated key
  | .saved key =>
    if s.ownSaves.contains key then []
    else .mark s.openDocuments (s.liveEdits.remove key) s.ownSaves :: s.requestIfValidated key
  | .edited key =>
    if s.settings.live && s.shouldValidate key then
      [.mark s.openDocuments (s.liveEdits.add key) s.ownSaves, .request key s.liveDelay]
    else
      []
  | .closed key =>
    [.mark (s.openDocuments.remove key) (s.liveEdits.remove key) (s.ownSaves.remove key),
     .dispose key]

/-- The requests that a configuration leads to: every open document that is selected. -/
def revalidated (s : Service) (settings : Settings) : List Move :=
  if settings.enabled then
    ((DocumentKey.sortDistinct s.openDocuments).filter s.selects).map (.request · 0)
  else
    []

def movesOf (s : Service) : Action → List Move
  | .handle event => s.movesOfEvent event
  | .beginOwnSave key => [.mark s.openDocuments s.liveEdits (s.ownSaves.add key)]
  | .endOwnSave key => [.mark s.openDocuments s.liveEdits (s.ownSaves.remove key)]
  | .validate key delay => [.request key delay]
  | .applyConfig compiler settings =>
    .reconfigure compiler settings :: (s.reconfigure compiler settings).revalidated settings
  | .poll budget => List.replicate budget .applyNext
  | .nextRun => List.replicate (s.drawn s.results.ready.length) .applyNext
  | .drainNotices => [.drainNotices]
  | .shutdown => [.disposeAll, .mark [] [] []]
  | .fire key => [.fire key]
  | .complete id report => [.complete id report]
  | .refill => [.refill]
  | .advance ms => [.advance ms]

/-! ## §3 — every action is the sequence of its moves -/

/-- When no result is ready, nothing changes. -/
theorem applyNext_snd_of_fst_eq_none {s : Service} (h : s.applyNext.1 = none) :
    s.applyNext.2 = s := by
  unfold applyNext at h ⊢
  cases hready : s.results.ready with
  | nil => rfl
  | cons r rest => rw [hready] at h; simp at h

/-- Where nothing is left to apply, further attempts change nothing. -/
theorem playAll_replicate_applyNext_of_none {s : Service} (h : s.applyNext.1 = none) (n : Nat) :
    s.playAll (List.replicate n .applyNext) = s := by
  induction n with
  | zero => rfl
  | succ n ih =>
    rw [List.replicate_succ, playAll_cons,
      show s.play .applyNext = s from applyNext_snd_of_fst_eq_none h]
    exact ih

/-- Polling applies results one after the other, as many as its budget allows. -/
theorem poll_snd (s : Service) (budget : Nat) :
    (s.poll budget).2 = s.playAll (List.replicate budget .applyNext) := by
  induction budget generalizing s with
  | zero => rfl
  | succ n ih =>
    cases hnext : s.applyNext with
    | mk taken t =>
      cases taken with
      | none =>
        -- the queue is empty: polling stops, while the moves go on to no effect.
        have hnone : s.applyNext.1 = none := by rw [hnext]
        rw [playAll_replicate_applyNext_of_none hnone, poll, hnext]
        rw [← applyNext_snd_of_fst_eq_none hnone, hnext]
      | some summary =>
        rw [poll, hnext, List.replicate_succ, playAll_cons, play, hnext]
        exact ih t

/-- Waiting for the next run applies results up to the first that is not dropped. -/
theorem nextRunWithin_snd (s : Service) (tries : Nat) :
    (s.nextRunWithin tries).2 = s.playAll (List.replicate (s.drawn tries) .applyNext) := by
  induction tries generalizing s with
  | zero => rfl
  | succ n ih =>
    cases hnext : s.applyNext with
    | mk taken t =>
      cases taken with
      | none =>
        have hnone : s.applyNext.1 = none := by rw [hnext]
        -- nothing is drawn from an empty queue, and the service is what it was.
        rw [nextRunWithin, drawn, hnext]
        have hself := applyNext_snd_of_fst_eq_none hnone
        rw [hnext] at hself
        simpa using hself
      | some summary =>
        cases summary with
        | none =>
          -- a result that was dropped counts as drawn, and the next one is tried.
          rw [nextRunWithin, drawn, hnext]
          simp only [List.replicate_succ, playAll_cons, play, hnext]
          exact ih t
        | some summary =>
          rw [nextRunWithin, drawn, hnext]
          simp [List.replicate_succ, play, hnext]

theorem foldl_validateNow (s : Service) (keys : List DocumentKey) :
    keys.foldl validateNow s = s.playAll (keys.map (.request · 0)) := by
  rw [playAll, List.foldl_map]
  rfl

/-- A new configuration first changes the settings, and then requests what has to be validated
again. -/
theorem applyConfig_eq (s : Service) (compiler : Options) (settings : Settings) :
    s.applyConfig compiler settings =
      (s.reconfigure compiler settings).playAll
        ((s.reconfigure compiler settings).revalidated settings) := by
  unfold revalidated
  -- `reconfigure` is what `applyConfig` does before its requests.
  rw [show s.applyConfig compiler settings =
    if settings.enabled then
      ((DocumentKey.sortDistinct (s.reconfigure compiler settings).openDocuments).filter
        (s.reconfigure compiler settings).selects).foldl validateNow
          (s.reconfigure compiler settings)
    else s.reconfigure compiler settings from rfl]
  split
  · exact foldl_validateNow _ _
  · rfl

/-- Setting marks and then requesting a run if the document is validated: whether it is does not
depend on the marks. -/
theorem playAll_mark_requestIfValidated (s : Service) (key : DocumentKey)
    (openDocuments liveEdits ownSaves : KeySet) :
    let marked := s.play (.mark openDocuments liveEdits ownSaves)
    s.playAll (.mark openDocuments liveEdits ownSaves :: s.requestIfValidated key) =
      if marked.shouldValidate key then marked.validateNow key else marked := by
  intro marked
  have hmarks : marked.shouldValidate key = s.shouldValidate key := rfl
  rw [playAll_cons, hmarks, requestIfValidated]
  split <;> rfl

theorem handle_eq (s : Service) (event : DocumentEvent) :
    s.handle event = s.playAll (s.movesOfEvent event) := by
  cases event with
  | opened key => exact (playAll_mark_requestIfValidated s key _ _ _).symm
  | saved key =>
    rw [handle, movesOfEvent]
    split
    · rfl
    · exact (playAll_mark_requestIfValidated s key _ _ _).symm
  | edited key =>
    rw [handle, movesOfEvent]
    split <;> rfl
  | closed key => rfl

/-- **Every action is the sequence of its moves.** -/
theorem perform_eq_playAll (s : Service) (a : Action) :
    s.perform a = s.playAll (s.movesOf a) := by
  cases a with
  | handle event => exact handle_eq s event
  | applyConfig compiler settings => exact applyConfig_eq s compiler settings
  | poll budget => exact poll_snd s budget
  | nextRun => exact nextRunWithin_snd s s.results.ready.length
  | _ => rfl

/-! ## §4 — histories -/

/-- What is recorded of the course of a service: a request that a session accepted, with the options
in force; a run that started; a run that ended, with what it reported; a result that was taken from
the queue, with the program configured then, and with a summary if it was applied and none if it was
dropped. -/
inductive Event where
  | requested (session : SessionId) (document : DocumentKey) (compiler : Options) (plan : Plan)
  | started (flight : Flight)
  | ended (flight : Flight) (report : Report)
  | taken (result : RunResult) (configured : String) (summary : Option RunSummary)

/-- A record of what happened, the oldest event first. -/
abbrev History := List Event

/-- What a move adds to the record. -/
def emits (s : Service) : Move → History
  | .request key delay =>
    if (s.validate key delay).1 then
      [.requested (s.registry.getOrCreate key).1.id key s.compiler (s.plan key)]
    else
      []
  | .fire key => ((s.fire key).1.map .started).toList
  | .complete id report => ((s.inFlight.find? (·.session = id)).map (.ended · report)).toList
  | .applyNext =>
    match s.results.ready, s.applyNext.1 with
    | r :: _, some summary => [.taken r s.compiler.executable summary]
    | _, _ => []
  | _ => []

def log (s : Service) : List Move → History
  | [] => []
  | m :: ms => s.emits m ++ (s.play m).log ms

def movesOfAll (s : Service) : List Action → List Move
  | [] => []
  | a :: as => s.movesOf a ++ (s.perform a).movesOfAll as

def history (s : Service) (actions : List Action) : History :=
  s.log (s.movesOfAll actions)

/-- **A course of actions is a course of moves.** -/
theorem performAll_eq_playAll (s : Service) (actions : List Action) :
    s.performAll actions = s.playAll (s.movesOfAll actions) := by
  induction actions generalizing s with
  | nil => rfl
  | cons a as ih =>
    rw [movesOfAll, playAll_append, ← perform_eq_playAll]
    exact ih (s.perform a)

/-- The log goes on from the service that the first moves leave. -/
theorem log_append (s : Service) (ms ms' : List Move) :
    s.log (ms ++ ms') = s.log ms ++ (s.playAll ms).log ms' := by
  induction ms generalizing s with
  | nil => rfl
  | cons m ms ih => simp [log, ih, List.append_assoc]

/-- The moves of later actions depend on what the earlier ones leave. -/
theorem movesOfAll_append (s : Service) (as as' : List Action) :
    s.movesOfAll (as ++ as') = s.movesOfAll as ++ (s.performAll as).movesOfAll as' := by
  induction as generalizing s with
  | nil => rfl
  | cons a as ih =>
    rw [List.cons_append, movesOfAll, movesOfAll, ih, List.append_assoc]
    rfl

theorem performAll_append (s : Service) (as as' : List Action) :
    s.performAll (as ++ as') = (s.performAll as).performAll as' :=
  List.foldl_append

/-- The history of a course in two parts is the two histories, one after the other. -/
theorem history_append (s : Service) (as as' : List Action) :
    s.history (as ++ as') = s.history as ++ (s.performAll as).history as' := by
  rw [history, movesOfAll_append, log_append, ← performAll_eq_playAll]
  rfl

/-! ## §5 — the runs in a history -/

def Event.started? : Event → Option Flight
  | .started flight => some flight
  | _ => none

def Event.ended? : Event → Option (Flight × Report)
  | .ended flight report => some (flight, report)
  | _ => none

def Event.taken? : Event → Option RunResult
  | .taken result _ _ => some result
  | _ => none

namespace History

def starts (L : History) : List Flight :=
  L.filterMap Event.started?

def ends (L : History) : List (Flight × Report) :=
  L.filterMap Event.ended?

def taken (L : History) : List RunResult :=
  L.filterMap Event.taken?

@[simp] theorem starts_append (L L' : History) : starts (L ++ L') = starts L ++ starts L' :=
  List.filterMap_append

@[simp] theorem ends_append (L L' : History) : ends (L ++ L') = ends L ++ ends L' :=
  List.filterMap_append

@[simp] theorem taken_append (L L' : History) : taken (L ++ L') = taken L ++ taken L' :=
  List.filterMap_append

end History

/-! ## §6 — induction over the course -/

/-- What every move keeps is kept by every sequence of moves, whatever was recorded before. -/
theorem log_induction {motive : History → Service → Prop}
    (hmove : ∀ L s m, motive L s → motive (L ++ s.emits m) (s.play m))
    {L : History} {s : Service} (h : motive L s) (ms : List Move) :
    motive (L ++ s.log ms) (s.playAll ms) := by
  induction ms generalizing L s with
  | nil => simpa [log] using h
  | cons m ms ih =>
    rw [log, playAll_cons, ← List.append_assoc]
    exact ih (hmove L s m h)

/-- **Induction over the course of a service.** What holds at the start and is kept by every move
holds after any sequence of actions, together with the history of that sequence. -/
theorem history_induction {motive : History → Service → Prop} {s : Service}
    (hstart : motive [] s)
    (hmove : ∀ L s m, motive L s → motive (L ++ s.emits m) (s.play m))
    (actions : List Action) : motive (s.history actions) (s.performAll actions) := by
  rw [performAll_eq_playAll, history]
  simpa using log_induction hmove hstart (s.movesOfAll actions)

end Service

end KspWorkbench
