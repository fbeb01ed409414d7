import KspWorkbench.Proofs.Validation.Course

/-!
# What a move does

The state of a service is looked at in three ways: the sessions by document, the runs in flight
with the running flags, and the results that wait. For each of them this module says once what one
move can do to it, so that invariants are proved by going through a few cases and no proof has to
open the service's functions again.

* **`play_frame`** — what a move leaves alone.
* **`origin_of_get?_play`** — where the session of a document comes from after a move.
* **`flightChange_play`** — which runs start or end in a move.
* **`resultChange_play`** — which results are queued or taken in a move.
* **`eventOf_of_mem`** — which move an event of the history is of.

`flightChange_play` and `resultChange_play` also say what the move adds to the history.
-/

namespace KspWorkbench

/-! ## §1 — the sessions after the operations of a registry -/

namespace Registry

theorem getOrCreate_of_some {r : Registry} {key : DocumentKey} {session : Session}
    (h : r.get? key = some session) : r.getOrCreate key = (session, r) := by
  rw [getOrCreate, h]

theorem getOrCreate_of_none {r : Registry} {key : DocumentKey} (h : r.get? key = none) :
    r.getOrCreate key =
      ({ id := r.lastId + 1 },
        { sessions := r.sessions ++ [(key, { id := r.lastId + 1 })], lastId := r.lastId + 1 }) := by
  rw [getOrCreate, h]

theorem get?_getOrCreate (r : Registry) (key other : DocumentKey) :
    (r.getOrCreate key).2.get? other =
      if other = key then some (r.getOrCreate key).1 else r.get? other := by
  cases hget : r.get? key with
  | some session =>
    rw [getOrCreate_of_some hget]
    split
    · next h => rw [h, hget]
    · rfl
  | none =>
    -- a new session stands behind all others and has a document of its own.
    have hlookup : r.sessions.lookup key = none := hget
    rw [getOrCreate_of_none hget]
    simp only [get?, List.lookup_append, List.lookup_cons]
    by_cases h : other = key
    · simp [h, hlookup]
    · have hne : (other == key) = false := by simpa using h
      simp [h, hne]

theorem lastId_getOrCreate (r : Registry) (key : DocumentKey) :
    (r.getOrCreate key).2.lastId =
      if (r.get? key).isSome then r.lastId else r.lastId + 1 := by
  unfold getOrCreate
  cases r.get? key <;> rfl

@[simp] theorem get?_resumeChanged (r : Registry) (executable : String) (key : DocumentKey) :
    (r.resumeChanged executable).get? key =
      (r.get? key).map fun session =>
        if isStale session executable then { session with paused := false } else session :=
  lookup_map_of_key
    (fun _ session => if isStale session executable then { session with paused := false }
      else session) key r.sessions

/-- A session is current when it is the one that its document has now. -/
theorem current?_eq_some_iff {r : Registry} {key : DocumentKey} {id : SessionId}
    {session : Session} :
    r.current? key id = some session ↔ r.get? key = some session ∧ session.id = id := by
  simp [current?, Option.filter_eq_some_iff]

theorem current?_eq_none_iff {r : Registry} {key : DocumentKey} {id : SessionId} :
    r.current? key id = none ↔ ∀ session, r.get? key = some session → session.id ≠ id := by
  simp [current?, Option.filter_eq_none_iff]

end Registry

/-- The result of a run that ends with `report`. -/
def Flight.result (flight : Flight) (report : Report) : RunResult :=
  ⟨flight.document, flight.session, flight.plan.request.executable, report⟩

namespace Service

/-! ## §2 — the parts of the state that moves change -/

/-- The session of a document after a request. -/
def sessionAfterRequest (s : Service) (key : DocumentKey) (delay : Nat) : Session :=
  let session := (s.registry.getOrCreate key).1
  if session.paused then session
  else
    { session with
      lastExecutable := some s.compiler.executable
      gate := (session.gate.setDelay delay).trigger s.now (s.plan key) }

/-- A session after the compiler options have been replaced. -/
def sessionAfterReconfigure (s : Service) (compiler : Options) (session : Session) : Session :=
  if !samePath compiler.executable s.compiler.executable
      && Registry.isStale session compiler.executable then
    { session with paused := false }
  else
    session

/-- A session after a result of its own has been applied. -/
def sessionAfterResult (s : Service) (r : RunResult) (session : Session) : Session :=
  { session with
    paused := s.pausedAfter session r.executable r.report.outcome
    diagnostics := r.report.diagnostics }

@[simp] theorem id_sessionAfterRequest (s : Service) (key : DocumentKey) (delay : Nat) :
    (s.sessionAfterRequest key delay).id = (s.registry.getOrCreate key).1.id := by
  unfold sessionAfterRequest
  simp only
  split <;> rfl

@[simp] theorem paused_sessionAfterRequest (s : Service) (key : DocumentKey) (delay : Nat) :
    (s.sessionAfterRequest key delay).paused = (s.registry.getOrCreate key).1.paused := by
  unfold sessionAfterRequest
  simp only
  split <;> rfl

@[simp] theorem diagnostics_sessionAfterRequest (s : Service) (key : DocumentKey) (delay : Nat) :
    (s.sessionAfterRequest key delay).diagnostics =
      (s.registry.getOrCreate key).1.diagnostics := by
  unfold sessionAfterRequest
  simp only
  split <;> rfl

/-- A paused session refuses a request and stays as it is. -/
theorem sessionAfterRequest_of_paused {s : Service} {key : DocumentKey} {delay : Nat}
    (h : (s.sessionAfterRequest key delay).paused = true) :
    s.registry.get? key = some (s.sessionAfterRequest key delay) := by
  rw [paused_sessionAfterRequest] at h
  cases hget : s.registry.get? key with
  | none =>
    rw [Registry.getOrCreate_of_none hget] at h
    cases h
  | some session =>
    rw [Registry.getOrCreate_of_some hget] at h
    have hpaused : session.paused = true := h
    simp [sessionAfterRequest, Registry.getOrCreate_of_some hget, hpaused]

@[simp] theorem id_sessionAfterReconfigure (s : Service) (compiler : Options)
    (session : Session) : (s.sessionAfterReconfigure compiler session).id = session.id := by
  unfold sessionAfterReconfigure
  split <;> rfl

@[simp] theorem diagnostics_sessionAfterReconfigure (s : Service) (compiler : Options)
    (session : Session) :
    (s.sessionAfterReconfigure compiler session).diagnostics = session.diagnostics := by
  unfold sessionAfterReconfigure
  split <;> rfl

@[simp] theorem lastExecutable_sessionAfterReconfigure (s : Service) (compiler : Options)
    (session : Session) :
    (s.sessionAfterReconfigure compiler session).lastExecutable = session.lastExecutable := by
  unfold sessionAfterReconfigure
  split <;> rfl

/-- Replaces the gate of the session of a document. -/
def setGate (s : Service) (key : DocumentKey) (gate : Gate Plan) : Service :=
  { s with registry := s.registry.modify key fun session => { session with gate := gate } }

/-- A run starts: the flag of its session is set. -/
def takeOff (s : Service) (flight : Flight) : Service :=
  { s with running := flight.session :: s.running, inFlight := s.inFlight ++ [flight] }

/-- A run ends: the flag of its session is cleared and its result is queued. -/
def land (s : Service) (flight : Flight) (report : Report) : Service :=
  { s with
    running := s.running.filter (· ≠ flight.session)
    inFlight := s.inFlight.filter (·.session ≠ flight.session)
    results := s.results.push (flight.result report) }

theorem get?_setGate (s : Service) (key other : DocumentKey) (gate : Gate Plan) :
    (s.setGate key gate).registry.get? other =
      if other = key then (s.registry.get? other).map ({ · with gate := gate })
      else s.registry.get? other :=
  Registry.get?_modify _ _ _ _

/-! ## §3 — the service's functions, case by case -/

/-- **The end of a delay.** Nothing waits and nothing happens; or a request waits and is dropped
because the flag of its session is set; or its run starts. -/
theorem fire_cases (s : Service) (key : DocumentKey) :
    s.fire key = (none, s) ∨
    ∃ session waiting, s.registry.get? key = some session ∧ session.gate.waiting = some waiting ∧
      ((session.id ∈ s.running ∧ s.fire key = (none, s.setGate key session.gate.cancel)) ∨
       (session.id ∉ s.running ∧
        s.fire key = (some ⟨session.id, key, waiting.task⟩,
          (s.setGate key session.gate.cancel).takeOff ⟨session.id, key, waiting.task⟩))) := by
  unfold fire
  cases hget : s.registry.get? key with
  | none => exact Or.inl rfl
  | some session =>
    -- without a request at the gate nothing happens, and with one it depends on the running
    -- flag.
    cases hwait : session.gate.waiting with
    | none => left; simp [Gate.take, hwait]
    | some waiting =>
      refine Or.inr ⟨session, waiting, rfl, hwait, ?_⟩
      by_cases hrun : session.id ∈ s.running
      · exact Or.inl ⟨hrun, by simp [Gate.take, hwait, hrun, setGate]⟩
      · exact Or.inr ⟨hrun, by simp [Gate.take, hwait, hrun, setGate, takeOff]⟩

/-- **The end of a run.** The session has no run in flight and nothing happens, or its run lands. -/
theorem complete_cases (s : Service) (id : SessionId) (report : Report) :
    (s.inFlight.find? (·.session = id) = none ∧ s.complete id report = s) ∨
    ∃ flight, s.inFlight.find? (·.session = id) = some flight ∧ flight ∈ s.inFlight ∧
      flight.session = id ∧ s.complete id report = s.land flight report := by
  unfold complete
  cases hfind : s.inFlight.find? (·.session = id) with
  | none => exact Or.inl ⟨rfl, rfl⟩
  | some flight =>
    have hid : flight.session = id := by simpa using List.find?_some hfind
    refine Or.inr ⟨flight, rfl, List.mem_of_find?_eq_some hfind, hid, ?_⟩
    subst hid
    rfl

/-- The service without the oldest result in the queue. -/
def dropResult (s : Service) : Service :=
  { s with results := { s.results with ready := s.results.ready.tail } }

theorem applyNext_of_empty {s : Service} (hready : s.results.ready = []) :
    s.applyNext = (none, s) := by
  rw [applyNext, hready]

/-- **The application of a result.** The session of the oldest result is gone and the result is
dropped, or the result is applied to its session. -/
theorem applyNext_of_ready {s : Service} {r : RunResult} {rest : List RunResult}
    (hready : s.results.ready = r :: rest) :
    (s.registry.current? r.document r.session = none ∧
      s.applyNext = (some none, s.dropResult)) ∨
    ∃ session, s.registry.get? r.document = some session ∧ session.id = r.session ∧
      s.applyNext =
        (some (some (r.report.summary r.document)),
          { s.dropResult with
            registry := s.registry.modify r.document fun other =>
              { other with
                paused := s.pausedAfter session r.executable r.report.outcome
                diagnostics := r.report.diagnostics }
            notices := s.notices ++ r.report.notices }) := by
  unfold applyNext
  -- the result goes to the session that it was started for, and to no later one of the document.
  cases hcur : s.registry.current? r.document r.session with
  | none => exact Or.inl ⟨rfl, by simp [applyResult, hcur, dropResult, hready]⟩
  | some session =>
    obtain ⟨hget, hid⟩ := Registry.current?_eq_some_iff.mp hcur
    refine Or.inr ⟨session, hget, hid, ?_⟩
    simp [applyResult, hcur, dropResult, hready, pausedAfter]

/-- **A request.** The registry holds the session of the document afterwards, and all other sessions
as before. -/
theorem get?_validate (s : Service) (key other : DocumentKey) (delay : Nat) :
    (s.validate key delay).2.registry.get? other =
      if other = key then some (s.sessionAfterRequest key delay) else s.registry.get? other := by
  unfold validate sessionAfterRequest
  simp only
  split
  · exact Registry.get?_getOrCreate _ _ _
  · rw [Registry.get?_modify, Registry.get?_getOrCreate]
    split <;> rfl

theorem lastId_validate (s : Service) (key : DocumentKey) (delay : Nat) :
    (s.validate key delay).2.registry.lastId =
      if (s.registry.get? key).isSome then s.registry.lastId else s.registry.lastId + 1 := by
  rw [← Registry.lastId_getOrCreate]
  unfold validate
  simp only
  split <;> rfl

/-- A new configuration keeps every session and at most resumes it. -/
theorem get?_reconfigure (s : Service) (compiler : Options) (settings : Settings)
    (key : DocumentKey) :
    (s.reconfigure compiler settings).registry.get? key =
      (s.registry.get? key).map (s.sessionAfterReconfigure compiler) := by
  unfold reconfigure sessionAfterReconfigure
  cases samePath compiler.executable s.compiler.executable with
  | true => simp [setSettings]
  | false => simp [setSettings]

theorem lastId_fire (s : Service) (key : DocumentKey) :
    (s.fire key).2.registry.lastId = s.registry.lastId := by
  rcases fire_cases s key with hfire | ⟨_, _, -, -, ⟨-, hfire⟩ | ⟨-, hfire⟩⟩ <;> rw [hfire] <;> rfl

theorem lastId_applyNext (s : Service) :
    s.applyNext.2.registry.lastId = s.registry.lastId := by
  cases hready : s.results.ready with
  | nil => rw [applyNext_of_empty hready]
  | cons r rest =>
    rcases applyNext_of_ready hready with ⟨-, hnext⟩ | ⟨_, -, -, hnext⟩ <;> rw [hnext] <;> rfl

theorem lastId_reconfigure (s : Service) (compiler : Options) (settings : Settings) :
    (s.reconfigure compiler settings).registry.lastId = s.registry.lastId := by
  unfold reconfigure
  simp only
  split <;> rfl

/-! ## §4 — what moves leave alone

Each of the service's functions touches a few fields of the state. A frame lemma writes the state
afterwards as the state before with just these fields replaced, so that a view that reads none of
them is seen to be kept by `rfl`. -/

/-- Requests touch nothing but the registry and the number of requests. -/
theorem validate_frame (s : Service) (key : DocumentKey) (delay : Nat) :
    (s.validate key delay).2 =
      { s with
        registry := (s.validate key delay).2.registry
        tickets := (s.validate key delay).2.tickets } := by
  unfold validate
  simp only
  split <;> rfl

/-- The end of a delay touches nothing but the registry, the flags and the runs in flight. -/
theorem fire_frame (s : Service) (key : DocumentKey) :
    (s.fire key).2 =
      { s with
        registry := (s.fire key).2.registry
        running := (s.fire key).2.running
        inFlight := (s.fire key).2.inFlight } := by
  rcases fire_cases s key with hfire | ⟨_, _, -, -, ⟨-, hfire⟩ | ⟨-, hfire⟩⟩
  · rw [hfire]
  · rw [hfire]
    rfl
  · rw [hfire]
    rfl

/-- The end of a run touches nothing but the flags, the runs in flight and the results. -/
theorem complete_frame (s : Service) (id : SessionId) (report : Report) :
    s.complete id report =
      { s with
        running := (s.complete id report).running
        inFlight := (s.complete id report).inFlight
        results := (s.complete id report).results } := by
  rcases complete_cases s id report with ⟨-, hcomplete⟩ | ⟨_, -, -, -, hcomplete⟩
  · rw [hcomplete]
  · rw [hcomplete]
    rfl

/-- The application of a result touches nothing but the registry, the notices and the results. -/
theorem applyNext_frame (s : Service) :
    s.applyNext.2 =
      { s with
        registry := s.applyNext.2.registry
        notices := s.applyNext.2.notices
        results := s.applyNext.2.results } := by
  cases hready : s.results.ready with
  | nil => rw [applyNext_of_empty hready]
  | cons r rest =>
    rcases applyNext_of_ready hready with ⟨-, hnext⟩ | ⟨_, -, -, hnext⟩
    · rw [hnext]
      rfl
    · rw [hnext]
      rfl

/-- A new configuration touches neither flags nor runs nor results. -/
theorem reconfigure_frame (s : Service) (compiler : Options) (settings : Settings) :
    (s.reconfigure compiler settings).running = s.running ∧
    (s.reconfigure compiler settings).inFlight = s.inFlight ∧
    (s.reconfigure compiler settings).results = s.results ∧
    (s.reconfigure compiler settings).tickets = s.tickets ∧
    (s.reconfigure compiler settings).compiler = compiler := by
  unfold reconfigure
  simp only
  split <;> exact ⟨rfl, rfl, rfl, rfl, rfl⟩

/-- Whether a move sets the configuration or the marks of documents. -/
def Move.isSetting : Move → Bool
  | .reconfigure .. | .mark .. => true
  | _ => false

/-- **What a move leaves alone.** A move that sets neither the configuration nor the marks touches
only what runs are made of: sessions, runs, results, notices, the time and the number of
requests. -/
theorem play_frame (s : Service) {m : Move} (hm : m.isSetting = false) :
    s.play m =
      { s with
        registry := (s.play m).registry
        running := (s.play m).running
        inFlight := (s.play m).inFlight
        notices := (s.play m).notices
        results := (s.play m).results
        now := (s.play m).now
        tickets := (s.play m).tickets } := by
  cases m with
  | reconfigure compiler settings => cases hm
  | mark openDocuments liveEdits ownSaves => cases hm
  | request key delay =>
    rw [play, validate_frame]
  | fire key =>
    rw [play, fire_frame]
  | complete id report =>
    rw [play, complete_frame]
  | applyNext =>
    rw [play, applyNext_frame]
  -- disposals, the queue, the clock and the notices touch only the fields that are listed.
  | _ => rfl

/-! ## §5 — where the session of a document comes from -/

/-- Where the session of a document comes from after a move: it was there before, or a request made
it or was accepted by it, or a configuration may have resumed it, or the request that waited at it
has fired, or a result was applied to it. -/
inductive Origin (s : Service) (key : DocumentKey) : Move → Session → Prop where
  | kept {m : Move} {session : Session} (hget : s.registry.get? key = some session)
      (hconfig : ∀ compiler settings, m ≠ .reconfigure compiler settings) : Origin s key m session
  | requested (delay : Nat) : Origin s key (.request key delay) (s.sessionAfterRequest key delay)
  | reconfigured {compiler : Options} {settings : Settings} {session : Session}
      (hget : s.registry.get? key = some session) :
      Origin s key (.reconfigure compiler settings) (s.sessionAfterReconfigure compiler session)
  | fired {session : Session} (hget : s.registry.get? key = some session) :
      Origin s key (.fire key) { session with gate := session.gate.cancel }
  | published {r : RunResult} {rest : List RunResult} {session : Session}
      (hready : s.results.ready = r :: rest) (hkey : r.document = key)
      (hget : s.registry.get? key = some session) (hid : session.id = r.session) :
      Origin s key .applyNext (s.sessionAfterResult r session)

/-- The end of a delay leaves every session but for the request that waits at it. -/
theorem origin_fire {s : Service} {key other : DocumentKey} {session : Session}
    (h : (s.play (.fire key)).registry.get? other = some session) :
    Origin s other (.fire key) session := by
  rcases fire_cases s key with hnone | ⟨owner, waiting, howner, -, hrest⟩
  · rw [play, hnone] at h
    exact .kept h (by simp)
  -- dropped or started, the gate of the session is emptied in the same way.
  · have hgate : (s.setGate key owner.gate.cancel).registry.get? other = some session := by
      rcases hrest with ⟨-, hfire⟩ | ⟨-, hfire⟩ <;> rw [play, hfire] at h <;> exact h
    rw [get?_setGate] at hgate
    by_cases hkey : other = key
    · subst hkey
      rw [if_pos rfl, howner] at hgate
      cases hgate
      exact .fired howner
    · rw [if_neg hkey] at hgate
      exact .kept hgate (by simp)

/-- A result that is applied changes the session of its own document, and leaves all others. -/
theorem origin_applyNext {s : Service} {key : DocumentKey} {session : Session}
    (h : (s.play .applyNext).registry.get? key = some session) :
    Origin s key .applyNext session := by
  cases hready : s.results.ready with
  | nil =>
    rw [play, applyNext_of_empty hready] at h
    exact .kept h (by simp)
  | cons r rest =>
    rcases applyNext_of_ready hready with ⟨-, hnext⟩ | ⟨owner, howner, hid, hnext⟩
    · rw [play, hnext] at h
      exact .kept h (by simp)
    · rw [play, hnext] at h
      simp only [Registry.get?_modify] at h
      -- the session found under the document is the owner, since it is current.
      by_cases hkey : key = r.document
      · subst hkey
        rw [if_pos rfl, howner] at h
        cases h
        exact .published hready rfl howner hid
      · rw [if_neg hkey] at h
        exact .kept h (by simp)

/-- **Where the session of a document comes from.** -/
theorem origin_of_get?_play {s : Service} {m : Move} {key : DocumentKey} {session : Session}
    (h : (s.play m).registry.get? key = some session) : Origin s key m session := by
  -- one case for each move: it makes the session, changes it, or keeps it.
  cases m with
  | reconfigure compiler settings =>
    rw [play, get?_reconfigure] at h
    obtain ⟨old, hold, rfl⟩ := Option.map_eq_some_iff.mp h
    exact .reconfigured hold
  | request key' delay =>
    rw [play, get?_validate] at h
    by_cases hkey : key = key'
    · subst hkey
      rw [if_pos rfl] at h
      cases h
      exact .requested delay
    · rw [if_neg hkey] at h
      exact .kept h (by simp)
  | dispose key' =>
    simp only [play, Registry.get?_dispose] at h
    split at h
    · cases h
    · exact .kept h (by simp)
  | disposeAll => simp [play] at h
  | fire key' => exact origin_fire h
  | complete id report =>
    rw [play, complete_frame] at h
    exact .kept h (by simp)
  | applyNext => exact origin_applyNext h
  | _ => exact .kept h (by simp)

/-! ## §6 — the events of a move -/

/-- The record of an application tells of the result that was first in the queue, if there was one,
and of what became of it. -/
theorem emits_applyNext (s : Service) :
    (s.results.ready = [] ∧ s.emits .applyNext = []) ∨
    ∃ r rest summary, s.results.ready = r :: rest ∧ s.applyNext.1 = some summary ∧
      s.emits .applyNext = [.taken r s.compiler.executable summary] := by
  rw [emits]
  cases hready : s.results.ready with
  | nil => exact Or.inl ⟨rfl, rfl⟩
  | cons r rest =>
    rcases applyNext_of_ready hready with ⟨-, hnext⟩ | ⟨_, -, -, hnext⟩
    · rw [hnext]
      exact Or.inr ⟨r, rest, none, rfl, rfl, rfl⟩
    · rw [hnext]
      exact Or.inr ⟨r, rest, some _, rfl, rfl, rfl⟩

/-- **Which move an event is of**, and what the service was about to do then. All other moves leave
no record. -/
inductive EventOf (s : Service) : Move → Event → Prop where
  | requested {key : DocumentKey} {delay : Nat} (haccepted : (s.validate key delay).1 = true) :
      EventOf s (.request key delay)
        (.requested (s.registry.getOrCreate key).1.id key s.compiler (s.plan key))
  | started {key : DocumentKey} {flight : Flight} (hfire : (s.fire key).1 = some flight) :
      EventOf s (.fire key) (.started flight)
  | ended {id : SessionId} {report : Report} {flight : Flight}
      (hfind : s.inFlight.find? (·.session = id) = some flight) :
      EventOf s (.complete id report) (.ended flight report)
  | taken {r : RunResult} {rest : List RunResult} {summary : Option RunSummary}
      (hready : s.results.ready = r :: rest) (hnext : s.applyNext.1 = some summary) :
      EventOf s .applyNext (.taken r s.compiler.executable summary)

/-- **The membership inversion of `emits`.** An event that a move records is of that move, with the
state it was recorded in. -/
theorem eventOf_of_mem {s : Service} {m : Move} {event : Event} (h : event ∈ s.emits m) :
    EventOf s m event := by
  -- the four moves with events, each of which has one at most.
  cases m with
  | request key delay =>
    rw [emits] at h
    split at h
    · next haccepted =>
      rw [List.mem_singleton.mp h]
      exact .requested haccepted
    · cases h
  | fire key =>
    rw [emits, Option.mem_toList] at h
    obtain ⟨flight, hfire, rfl⟩ := Option.map_eq_some_iff.mp h
    exact .started hfire
  | complete id report =>
    rw [emits, Option.mem_toList] at h
    obtain ⟨flight, hfind, rfl⟩ := Option.map_eq_some_iff.mp h
    exact .ended hfind
  | applyNext =>
    rcases emits_applyNext s with ⟨-, hemits⟩ | ⟨r, rest, summary, hready, hnext, hemits⟩
    · rw [hemits] at h
      cases h
    · rw [hemits] at h
      rw [List.mem_singleton.mp h]
      exact .taken hready hnext
  | _ => cases h

/-! ## §7 — which runs start and end -/

/-- What a move does to the runs in flight and to the running flags, with what it adds to the
history. A run starts only on account of a request that waits at a session whose flag is not set. -/
inductive FlightChange (s : Service) (t : Service) (L : History) : Prop where
  | none (hrunning : t.running = s.running) (hflight : t.inFlight = s.inFlight)
      (hstarts : L.starts = []) (hends : L.ends = [])
  | started (session : Session) (waiting : Waiting Plan) (flight : Flight)
      (hget : s.registry.get? flight.document = some session) (hid : session.id = flight.session)
      (hwait : session.gate.waiting = some waiting) (hplan : flight.plan = waiting.task)
      (hidle : flight.session ∉ s.running)
      (hrunning : t.running = flight.session :: s.running)
      (hflight : t.inFlight = s.inFlight ++ [flight])
      (hstarts : L.starts = [flight]) (hends : L.ends = [])
  | ended (flight : Flight) (report : Report) (hmem : flight ∈ s.inFlight)
      (hrunning : t.running = s.running.filter (· ≠ flight.session))
      (hflight : t.inFlight = s.inFlight.filter (·.session ≠ flight.session))
      (hstarts : L.starts = []) (hends : L.ends = [(flight, report)])

theorem flightChange_fire (s : Service) (key : DocumentKey) :
    FlightChange s (s.play (.fire key)) (s.emits (.fire key)) := by
  rw [play, emits]
  rcases fire_cases s key with hnone | ⟨session, waiting, hget, hwait, hrest⟩
  · rw [hnone]
    exact .none rfl rfl rfl rfl
  · rcases hrest with ⟨-, hfire⟩ | ⟨hidle, hfire⟩
    · rw [hfire]
      exact .none rfl rfl rfl rfl
    · rw [hfire]
      exact .started session waiting ⟨session.id, key, waiting.task⟩ hget rfl hwait rfl hidle
        rfl rfl rfl rfl

theorem flightChange_complete (s : Service) (id : SessionId) (report : Report) :
    FlightChange s (s.play (.complete id report)) (s.emits (.complete id report)) := by
  rw [play, emits]
  rcases complete_cases s id report with ⟨hfind, hcomplete⟩ | ⟨flight, hfind, hmem, -, hcomplete⟩
  · rw [hfind, hcomplete]
    exact .none rfl rfl rfl rfl
  · rw [hfind, hcomplete]
    exact .ended flight report hmem rfl rfl rfl rfl

theorem flightChange_applyNext (s : Service) :
    FlightChange s (s.play .applyNext) (s.emits .applyNext) := by
  rw [play, applyNext_frame]
  rcases emits_applyNext s with ⟨-, hemits⟩ | ⟨r, rest, summary, -, -, hemits⟩
  · rw [hemits]
    exact .none rfl rfl rfl rfl
  · rw [hemits]
    exact .none rfl rfl rfl rfl

/-- **Which runs start and end in a move.** -/
theorem flightChange_play (s : Service) (m : Move) : FlightChange s (s.play m) (s.emits m) := by
  cases m with
  | reconfigure compiler settings =>
    obtain ⟨hrunning, hflight, -⟩ := reconfigure_frame s compiler settings
    exact .none hrunning hflight rfl rfl
  | request key delay =>
    rw [play, validate_frame, emits]
    split <;> exact .none rfl rfl rfl rfl
  | fire key => exact flightChange_fire s key
  | complete id report => exact flightChange_complete s id report
  | applyNext => exact flightChange_applyNext s
  | _ => exact .none rfl rfl rfl rfl

/-- A run that starts in a move belongs to the session that its document has. -/
theorem owner_of_start {s : Service} {m : Move} {flight : Flight}
    (h : flight ∈ (s.emits m).starts) :
    ∃ session, s.registry.get? flight.document = some session ∧ session.id = flight.session := by
  cases flightChange_play s m with
  | none _ _ hstarts _ => rw [hstarts] at h; cases h
  | started session _ flight' hget hid _ _ _ _ _ hstarts _ =>
    rw [hstarts, List.mem_singleton] at h
    subst h
    exact ⟨session, hget, hid⟩
  | ended _ _ _ _ _ hstarts _ => rw [hstarts] at h; cases h

/-! ## §8 — which results are queued and taken -/

/-- What a move does to the results that wait, with what it adds to the history. Results are queued
behind all others and taken from the front. -/
inductive ResultChange (s : Service) (t : Service) (L : History) : Prop where
  | none (hresults : t.results.toList = s.results.toList)
      (hends : L.ends = []) (htaken : L.taken = [])
  | queued (flight : Flight) (report : Report)
      (hresults : t.results.toList = s.results.toList ++ [flight.result report])
      (hends : L.ends = [(flight, report)]) (htaken : L.taken = [])
  | taken (r : RunResult) (hresults : s.results.toList = r :: t.results.toList)
      (hends : L.ends = []) (htaken : L.taken = [r])

theorem toList_applyNext {s : Service} {r : RunResult} {rest : List RunResult}
    (hready : s.results.ready = r :: rest) :
    s.results.toList = r :: s.applyNext.2.results.toList := by
  have hdrop : s.applyNext.2.results = s.dropResult.results := by
    rcases applyNext_of_ready hready with ⟨-, hnext⟩ | ⟨_, -, -, hnext⟩
    · rw [hnext]
    · rw [hnext]
  rw [hdrop]
  simp [dropResult, ResultQueue.toList, hready]

/-- **Which results are queued and taken in a move.** -/
theorem resultChange_play (s : Service) (m : Move) : ResultChange s (s.play m) (s.emits m) := by
  cases m with
  | reconfigure compiler settings =>
    have hresults := (reconfigure_frame s compiler settings).2.2.1
    exact .none (by rw [play, hresults]) rfl rfl
  | request key delay =>
    rw [play, validate_frame, emits]
    split <;> exact .none rfl rfl rfl
  | fire key =>
    rw [play, fire_frame, emits]
    cases (s.fire key).1 <;> exact .none rfl rfl rfl
  | complete id report =>
    rw [play, emits]
    rcases complete_cases s id report with ⟨hfind, hcomplete⟩ | ⟨flight, hfind, -, -, hcomplete⟩
    · rw [hfind, hcomplete]
      exact .none rfl rfl rfl
    · rw [hfind, hcomplete]
      exact .queued flight report (ResultQueue.toList_push _ _) rfl rfl
  | refill => exact .none (ResultQueue.toList_refill _) rfl rfl
  -- a result is taken from the front of the queue whether it is then applied or dropped.
  | applyNext =>
    rcases emits_applyNext s with ⟨hready, hemits⟩ | ⟨r, rest, summary, hready, -, hemits⟩
    · rw [hemits]
      exact .none (by rw [play, applyNext_of_empty hready]) rfl rfl
    · rw [hemits]
      exact .taken r (toList_applyNext hready) rfl rfl
  | _ => exact .none rfl rfl rfl

end Service

end KspWorkbench
