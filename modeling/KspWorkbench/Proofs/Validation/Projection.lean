import KspWorkbench.Proofs.Sequences
import KspWorkbench.Proofs.Validation.Delivery
import KspWorkbench.Proofs.Validation.DocumentState

/-!
# What a service holds of one document

`Service.document` reads the state of one document off a service. What happens to a service then
happens to the state of a document as `DocumentState` says if it is about this document, and leaves
the state alone if it is about another one. Only two facts about the whole service are needed for
this: no flag is set for an identity that was not handed out yet, and a run in flight is the only one
of its session.
-/

namespace KspWorkbench

def Flight.launch (flight : Flight) : Launch :=
  ⟨flight.session, flight.plan.request, flight.plan.echo⟩

def RunResult.toReturn (r : RunResult) : Return :=
  ⟨r.session, r.executable, r.report⟩

def Waiting.pendingRun (w : Waiting Plan) : PendingRun :=
  ⟨w.task.request, w.task.echo, w.delay⟩

namespace Service

def sessionView (s : Service) (session : Session) : SessionView where
  id := session.id
  paused := session.paused
  lastExecutable := session.lastExecutable
  diagnostics := session.diagnostics
  pending := session.gate.waiting.map Waiting.pendingRun
  running := s.running.contains session.id

def flightsFor (s : Service) (key : DocumentKey) : List Flight :=
  s.inFlight.filter (·.document = key)

def resultsFor (s : Service) (key : DocumentKey) : List RunResult :=
  s.results.toList.filter (·.document = key)

/-- **The state of one document.** The numbers of requests and the times when they are due are left
out: they tell of other documents and of the time. -/
def document (s : Service) (key : DocumentKey) : DocumentState where
  compiler := s.compiler
  settings := s.settings
  liveDelay := s.liveDelay
  patterns := s.patterns
  isOpen := s.openDocuments.contains key
  ownSave := s.ownSaves.contains key
  liveEdit := s.liveEdits.contains key
  session? := (s.registry.get? key).map s.sessionView
  flights := (s.flightsFor key).map Flight.launch
  results := (s.resultsFor key).map RunResult.toReturn

variable {s : Service} {key other : DocumentKey}

/-! ## §1 — requests and configurations -/

/-- A request of another document is not seen. -/
theorem document_validate_of_ne (hne : other ≠ key) (delay : Nat) :
    (s.validate other delay).2.document key = s.document key := by
  have hget : (s.validate other delay).2.registry.get? key = s.registry.get? key := by
    rw [get?_validate, if_neg (Ne.symm hne)]
  rw [validate_frame]
  unfold document
  rw [hget]
  rfl

/-- A request is answered by the state of its document. The next identity must not be running, so
that a session that is made begins at rest. -/
theorem document_validate (hfresh : s.registry.lastId + 1 ∉ s.running) (key : DocumentKey)
    (delay : Nat) :
    (s.validate key delay).2.document key =
      (s.document key).request key (s.registry.lastId + 1) delay := by
  have hget : (s.validate key delay).2.registry.get? key =
      some (s.sessionAfterRequest key delay) := by
    rw [get?_validate, if_pos rfl]
  have hview : s.sessionView (s.sessionAfterRequest key delay) =
      (s.document key).accept key delay
        ((s.document key).session?.getD { id := s.registry.lastId + 1 }) := by
    unfold sessionAfterRequest DocumentState.accept
    cases hold : s.registry.get? key with
    | none =>
      -- the flag of a new session is not set, since its identity is new.
      simp [document, hold, Registry.getOrCreate_of_none hold, sessionView, hfresh, plan,
        Gate.trigger, Gate.setDelay, Waiting.pendingRun]
    | some session =>
      simp only [document, hold, Registry.getOrCreate_of_some hold, Option.map_some,
        Option.getD_some]
      cases hpaused : session.paused with
      | true => simp [sessionView, hpaused]
      | false =>
        simp [sessionView, hpaused, plan, Gate.trigger, Gate.setDelay, Waiting.pendingRun]
  rw [DocumentState.request, ← hview, validate_frame]
  unfold document
  rw [hget]
  rfl

/-- A new configuration is answered by every document from its own state. -/
theorem document_reconfigure (s : Service) (key : DocumentKey) (compiler : Options)
    (settings : Settings) :
    (s.reconfigure compiler settings).document key =
      (s.document key).reconfigure compiler settings := by
  -- whether a session resumes depends on nothing but the session and the configured program.
  have hresume : ∀ session, s.sessionView (s.sessionAfterReconfigure compiler session) =
      (s.document key).resume compiler (s.sessionView session) := by
    intro session
    rw [sessionAfterReconfigure, DocumentState.resume, apply_ite s.sessionView]
    rfl
  have hsession : (s.registry.get? key).map (s.sessionView ∘ s.sessionAfterReconfigure compiler) =
      ((s.registry.get? key).map s.sessionView).map ((s.document key).resume compiler) := by
    rw [Option.map_map]
    exact congrFun (congrArg _ (funext hresume)) _
  have hget := get?_reconfigure s compiler settings key
  unfold DocumentState.reconfigure
  show _ = { s.document key with
    compiler := compiler
    settings := settings
    liveDelay := settings.liveDelay?.getD defaultLiveDelay
    patterns := (PatternSet.ofStrings settings.filePatterns).valid
    session? := ((s.registry.get? key).map s.sessionView).map ((s.document key).resume compiler) }
  rw [← hsession, ← Option.map_map, ← hget]
  unfold reconfigure
  cases samePath compiler.executable s.compiler.executable <;> rfl

/-! ## §2 — marks and disposal -/

theorem document_mark (s : Service) (key : DocumentKey) (openDocuments liveEdits ownSaves : KeySet) :
    (s.play (.mark openDocuments liveEdits ownSaves)).document key =
      { s.document key with
        isOpen := openDocuments.contains key
        liveEdit := liveEdits.contains key
        ownSave := ownSaves.contains key } :=
  rfl

theorem document_dispose (s : Service) (key other : DocumentKey) :
    (s.play (.dispose other)).document key =
      if other = key then { s.document key with session? := none } else s.document key := by
  have hget := Registry.get?_dispose s.registry other key
  show { s.document key with session? := ((s.registry.dispose other).get? key).map s.sessionView } = _
  rw [hget]
  by_cases hkey : other = key
  · rw [if_pos hkey.symm, if_pos hkey]
    rfl
  · rw [if_neg (Ne.symm hkey), if_neg hkey]
    rfl

/-! ## §3 — the end of a delay -/

/-- A change of a gate is seen by its own document alone. -/
theorem document_setGate (s : Service) (key other : DocumentKey) (gate : Gate Plan) :
    (s.setGate other gate).document key =
      if other = key then
        { s.document key with
          session? := (s.document key).session?.map
            ({ · with pending := gate.waiting.map Waiting.pendingRun }) }
      else s.document key := by
  have hget := get?_setGate s other key gate
  -- only the session can differ, and it is looked up by the document.
  by_cases hkey : other = key
  · rw [if_pos hkey.symm] at hget
    rw [if_pos hkey]
    refine DocumentState.ext rfl rfl rfl rfl rfl rfl rfl ?_ rfl rfl
    show ((s.setGate other gate).registry.get? key).map _ = ((s.registry.get? key).map _).map _
    rw [hget, Option.map_map, Option.map_map]
    rfl
  · rw [if_neg (Ne.symm hkey)] at hget
    rw [if_neg hkey]
    refine DocumentState.ext rfl rfl rfl rfl rfl rfl rfl ?_ rfl rfl
    show ((s.setGate other gate).registry.get? key).map _ = (s.registry.get? key).map _
    rw [hget]
    rfl

/-- A start sets the running flag of its session, and adds a flight of its document. -/
theorem document_takeOff (s : Service) (key : DocumentKey) (flight : Flight) :
    (s.takeOff flight).document key =
      { s.document key with
        session? := (s.document key).session?.map fun session =>
          if session.id = flight.session then { session with running := true } else session
        flights := (s.document key).flights ++
          if flight.document = key then [flight.launch] else [] } := by
  -- flags belong to identities, so the flag of any session with this one shows; flights belong
  -- to documents.
  refine DocumentState.ext rfl rfl rfl rfl rfl rfl rfl ?_ ?_ rfl
  · show (s.registry.get? key).map _ = ((s.registry.get? key).map _).map _
    rw [Option.map_map]
    refine Option.map_congr fun session _ => ?_
    by_cases hid : session.id = flight.session
    · simp [sessionView, takeOff, hid]
    · simp [sessionView, takeOff, hid]
  · show ((s.inFlight ++ [flight]).filter _).map _ = (s.flightsFor key).map _ ++ _
    rw [List.filter_append, List.map_append]
    by_cases hkey : flight.document = key
    · simp [hkey, flightsFor]
    · simp [hkey, flightsFor]

/-- The end of a delay of another document is not seen: the flag that it sets is of another
session. -/
theorem document_fire_of_ne (hdistinct : s.registry.Distinct) (hne : other ≠ key) :
    (s.fire other).2.document key = s.document key := by
  rcases fire_cases s other with hfire | ⟨owner, waiting, howner, -, ⟨-, hfire⟩ | ⟨-, hfire⟩⟩
  · rw [hfire]
  · rw [hfire, document_setGate, if_neg hne]
  · rw [hfire, document_takeOff, document_setGate, if_neg hne]
    refine DocumentState.ext rfl rfl rfl rfl rfl rfl rfl ?_ ?_ rfl
    · -- the session of the document is another one than that of which a run starts.
      show ((s.registry.get? key).map s.sessionView).map _ = (s.registry.get? key).map s.sessionView
      rw [Option.map_map]
      refine Option.map_congr fun session hsession => ?_
      exact if_neg fun hid => hne (hdistinct.unique howner hsession hid.symm)
    · rw [if_neg hne]
      exact List.append_nil _

/-- The end of a delay is answered by the state of the document. -/
theorem document_fire (s : Service) (key : DocumentKey) :
    (s.fire key).1.map Flight.launch = (s.document key).fire.1 ∧
      (s.fire key).2.document key = (s.document key).fire.2 := by
  cases hget : s.registry.get? key with
  | none =>
    have hnone : (s.document key).session? = none := by simp [document, hget]
    simp [fire, hget, DocumentState.fire, hnone]
  | some session =>
    have hsession : (s.document key).session? = some (s.sessionView session) := by
      simp [document, hget]
    -- both look first for a request that waits, and then at the running flag.
    cases hwaiting : session.gate.waiting with
    | none =>
      have hpending : (s.sessionView session).pending = none := by simp [sessionView, hwaiting]
      simp [fire, hget, Gate.take, hwaiting, DocumentState.fire, hsession, hpending]
    | some waiting =>
      have hpending : (s.sessionView session).pending = some waiting.pendingRun := by
        simp [sessionView, hwaiting]
      by_cases hrunning : session.id ∈ s.running
      · have hflag : (s.sessionView session).running = true := by simp [sessionView, hrunning]
        rw [fire_of_running hget hwaiting hrunning, document_setGate, if_pos rfl, hsession]
        simp [DocumentState.fire, hsession, hpending, hflag, Gate.cancel]
      · have hfire : s.fire key = (some ⟨session.id, key, waiting.task⟩,
            (s.setGate key session.gate.cancel).takeOff ⟨session.id, key, waiting.task⟩) := by
          simp [fire, hget, Gate.take, hwaiting, hrunning, setGate, takeOff]
        rw [hfire, document_takeOff, document_setGate, if_pos rfl, hsession]
        simp [DocumentState.fire, hsession, hwaiting, hrunning, Gate.cancel, Flight.launch,
          Waiting.pendingRun, sessionView]

/-! ## §4 — the end of a run -/

theorem Delivery.started {L : History} (h : Delivery L s) {flight : Flight}
    (hflight : flight ∈ s.inFlight) : flight ∈ L.starts := by
  have hmem : flight ∈ L.startsOf flight.session := by
    rw [h.flight.balance]
    exact List.mem_append_right _ (List.mem_filter.mpr ⟨hflight, by simp⟩)
  exact (List.mem_filter.mp hmem).1

/-- No flag is set for an identity that was not handed out yet. -/
theorem Delivery.fresh_not_running {L : History} (h : Delivery L s) :
    s.registry.lastId + 1 ∉ s.running := by
  intro hrunning
  obtain ⟨flight, hflight⟩ := List.exists_mem_of_ne_nil _ ((h.flight.flag _).mp hrunning)
  obtain ⟨hmem, hid⟩ := List.mem_filter.mp hflight
  have hle := h.known flight (h.started hmem)
  rw [of_decide_eq_true hid] at hle
  exact Nat.not_succ_le_self _ hle

/-- The place of the run of a session among the runs of a document that are in flight. -/
def placeOf? (s : Service) (key : DocumentKey) (id : SessionId) : Option Nat :=
  (s.flightsFor key).findIdx? (·.session = id)

/-- The end of a run clears the flag of its session, and its flight becomes a result. -/
theorem document_land (s : Service) (key : DocumentKey) (flight : Flight) (report : Report) :
    (s.land flight report).document key =
      { s.document key with
        session? := (s.document key).session?.map fun session =>
          if session.id = flight.session then { session with running := false } else session
        flights := ((s.flightsFor key).filter (·.session ≠ flight.session)).map Flight.launch
        results := (s.document key).results ++
          if flight.document = key then [(flight.result report).toReturn] else [] } := by
  -- the session, the flights and the results change, each in its own way.
  refine DocumentState.ext rfl rfl rfl rfl rfl rfl rfl ?_ ?_ ?_
  · show (s.registry.get? key).map _ = ((s.registry.get? key).map _).map _
    rw [Option.map_map]
    refine Option.map_congr fun session _ => ?_
    by_cases hid : session.id = flight.session
    · simp [sessionView, land, hid]
    · simp [sessionView, land, hid]
  · show ((s.inFlight.filter _).filter _).map _ = ((s.inFlight.filter _).filter _).map _
    rw [List.filter_filter, List.filter_filter]
    simp only [Bool.and_comm]
  · show ((s.results.push (flight.result report)).toList.filter _).map _ = _
    rw [ResultQueue.toList_push, List.filter_append, List.map_append]
    by_cases hkey : flight.document = key
    · simp [hkey, document, resultsFor, Flight.result]
    · simp [hkey, document, resultsFor, Flight.result]

/-- The run at the place of a session is the one that ends when the session's run ends. -/
theorem Delivery.flight_at_place {L : History} (h : Delivery L s) {id : SessionId} {place : Nat}
    (hplace : s.placeOf? key id = some place) :
    ∃ flight, (s.flightsFor key)[place]? = some flight ∧ flight.document = key ∧
      flight.session = id ∧ ∀ report, s.complete id report = s.land flight report := by
  obtain ⟨hlt, hid, -⟩ := List.findIdx?_eq_some_iff_getElem.mp hplace
  have hmem := List.mem_filter.mp (List.getElem_mem hlt)
  have hid := of_decide_eq_true hid
  refine ⟨_, List.getElem?_eq_getElem hlt, of_decide_eq_true hmem.2, hid, fun report => ?_⟩
  -- the session has no other run in flight, so the run that is found is this one.
  have hsingle := h.flight.flightsOf_eq_singleton hmem.1
  rcases complete_cases s id report with ⟨hnone, -⟩ | ⟨found, -, hfound, hfound_id, hcomplete⟩
  · exact absurd (by simpa using hid) (List.find?_eq_none.mp hnone _ hmem.1)
  · have hsame : found ∈ s.flightsOf (s.flightsFor key)[place].session :=
      List.mem_filter.mpr ⟨hfound, by simp [hfound_id, hid]⟩
    rw [hsingle, List.mem_singleton] at hsame
    rw [hcomplete, hsame]

/-- The end of a run is answered by the state of its document, which knows the run by its place.
-/
theorem document_complete {L : History} (h : Delivery L s) {id : SessionId} {place : Nat}
    (hplace : s.placeOf? key id = some place) (report : Report) :
    (s.complete id report).document key = (s.document key).land place report := by
  obtain ⟨flight, hflight, hkey, rfl, hcomplete⟩ := h.flight_at_place hplace
  have hone : ((s.flightsFor key).filter (·.session = flight.session)).length ≤ 1 := by
    have hsublist : ((s.flightsFor key).filter (·.session = flight.session)).Sublist
        (s.flightsOf flight.session) := List.filter_sublist.filter _
    exact Nat.le_trans hsublist.length_le (h.flight.unique flight.session)
  -- to take away the runs of the session is then to take away the run at the place.
  have herase := filter_eq_eraseIdx hplace hone
  have hlaunch : (s.document key).flights[place]? = some flight.launch := by
    show ((s.flightsFor key).map Flight.launch)[place]? = _
    rw [List.getElem?_map, hflight]
    rfl
  rw [hcomplete, document_land, DocumentState.land, hlaunch, if_pos hkey]
  refine DocumentState.ext rfl rfl rfl rfl rfl rfl rfl rfl ?_ rfl
  show ((s.flightsFor key).filter _).map _ = ((s.flightsFor key).map _).eraseIdx place
  rw [List.eraseIdx_map, ← herase]
  simp only [ne_eq, decide_not]

/-- The end of a run of another document is not seen. -/
theorem document_complete_of_none {L : History} (h : Delivery L s) {id : SessionId}
    (hplace : s.placeOf? key id = none) (report : Report) :
    (s.complete id report).document key = s.document key := by
  have hnone := List.findIdx?_eq_none_iff.mp hplace
  rcases complete_cases s id report with ⟨-, hcomplete⟩ | ⟨flight, -, hmem, rfl, hcomplete⟩
  · rw [hcomplete]
  · have hkey : flight.document ≠ key := by
      intro hkey
      have hnot := hnone flight (List.mem_filter.mpr ⟨hmem, by simp [hkey]⟩)
      simp at hnot
    rw [hcomplete, document_land, if_neg hkey]
    refine DocumentState.ext rfl rfl rfl rfl rfl rfl rfl ?_ ?_ (List.append_nil _)
    · -- the session of the document is another one than that whose run ends.
      show ((s.registry.get? key).map s.sessionView).map _ = (s.registry.get? key).map s.sessionView
      rw [Option.map_map]
      refine Option.map_congr fun session hsession => ?_
      exact if_neg fun hid => hkey (h.owner hsession flight (h.started hmem) hid.symm)
    · show ((s.flightsFor key).filter _).map _ = (s.flightsFor key).map _
      rw [List.filter_eq_self.mpr]
      intro other hother
      have hnot := hnone other hother
      simpa using hnot

/-! ## §5 — the application of a result -/

theorem resultsFor_dropResult {r : RunResult} {rest : List RunResult}
    (hready : s.results.ready = r :: rest) :
    s.resultsFor key = (if r.document = key then [r] else []) ++ s.dropResult.resultsFor key := by
  have hlist : s.results.toList = r :: s.dropResult.results.toList := by
    simp [ResultQueue.toList, dropResult, hready]
  rw [resultsFor, hlist, List.filter_cons]
  by_cases hkey : r.document = key
  · simp [hkey, resultsFor]
  · simp [hkey, resultsFor]

theorem document_applyNext_of_ne {r : RunResult} {rest : List RunResult}
    (hready : s.results.ready = r :: rest) (hne : r.document ≠ key) :
    s.applyNext.2.document key = s.document key := by
  have hresults : s.resultsFor key = s.dropResult.resultsFor key := by
    rw [resultsFor_dropResult hready, if_neg hne]
    rfl
  rcases applyNext_of_ready hready with ⟨-, hnext⟩ | ⟨session, hget, -, hnext⟩
  · rw [hnext]
    refine DocumentState.ext rfl rfl rfl rfl rfl rfl rfl rfl rfl ?_
    exact congrArg (List.map RunResult.toReturn) hresults.symm
  · rw [hnext]
    refine DocumentState.ext rfl rfl rfl rfl rfl rfl rfl ?_ rfl ?_
    · show ((s.registry.modify r.document _).get? key).map _ = (s.registry.get? key).map _
      rw [Registry.get?_modify, if_neg (Ne.symm hne)]
      rfl
    · exact congrArg (List.map RunResult.toReturn) hresults.symm

/-- The application of a result is answered by the state of its document. -/
theorem document_applyNext {r : RunResult} {rest : List RunResult}
    (hready : s.results.ready = r :: rest) (hkey : r.document = key) :
    s.applyNext.1 = some ((s.document key).applyNext key).1 ∧
      s.applyNext.2.document key = ((s.document key).applyNext key).2 := by
  have hresults : (s.document key).results =
      r.toReturn :: (s.dropResult.resultsFor key).map RunResult.toReturn := by
    show (s.resultsFor key).map _ = _
    rw [resultsFor_dropResult hready, if_pos hkey]
    rfl
  rcases applyNext_of_ready hready with ⟨hgone, hnext⟩ | ⟨session, hget, hid, hnext⟩
  · -- the session of the document, if there is one, is not that of the result.
    have hdropped := DocumentState.applyNext_of_gone hresults (fun view hview => by
      obtain ⟨session, hget, rfl⟩ := Option.map_eq_some_iff.mp hview
      exact Registry.current?_eq_none_iff.mp hgone session (hkey ▸ hget)) key
    rw [hnext, hdropped]
    exact ⟨rfl, rfl⟩
  · rw [hkey] at hget
    have hsession : (s.document key).session? = some (s.sessionView session) := by
      simp [document, hget]
    have happlied := DocumentState.applyNext_of_alive hresults hsession hid key
    have hpaused : s.pausedAfter session r.executable r.report.outcome =
        (s.document key).pausedAfter (s.sessionView session) r.executable r.report.outcome := by
      cases r.report.outcome <;> rfl
    rw [hnext, happlied, hkey]
    refine ⟨rfl, DocumentState.ext rfl rfl rfl rfl rfl rfl rfl ?_ rfl rfl⟩
    show ((s.registry.modify key _).get? key).map _ = _
    rw [Registry.get?_modify, if_pos rfl, hget, hpaused]
    rfl

end Service

end KspWorkbench
