import KspWorkbench.Proofs.Validation.Delivery

/-!
# The breaker

A run that could not start pauses its session if its program is the configured one. A new
configuration with another program resumes the session, unless the program of its *last request* is
the new one. The two programs differ if the session accepted a request between the request of the
run that failed and the application of its result. So a pause can outlive the program that caused
it, and this module says exactly when it does.

* **`History.pausedBy`** — the result that paused a session last.
* **`breaker_exact`** — the program of that result is the configured one, except if the session's
  last request was made for the configured program and not for the one that failed; and after a
  change of the program exactly the paused sessions whose last request was made for the new program
  are still paused.
* **`pause_outlives_program`** — a course in which this happens.
-/

namespace KspWorkbench

theorem samePath_iff {a b : String} :
    samePath a b = true ↔ PathName.ofString a = PathName.ofString b := by
  simp [samePath]

theorem samePath_comm (a b : String) : samePath a b = samePath b a := by
  rw [Bool.eq_iff_iff, samePath_iff, samePath_iff]
  exact eq_comm

theorem samePath_trans {a b c : String} (hab : samePath a b = true) (hbc : samePath b c = true) :
    samePath a c = true := by
  rw [samePath_iff] at *
  rw [hab, hbc]

/-- Whether the process could not be started. -/
def Outcome.isSetupFailure : Outcome → Bool
  | .exited _ => false
  | .failed e => e.isSetupFailure

/-- Whether the last request that a session accepted was made for a program. -/
def Session.lastRequested (session : Session) (executable : String) : Bool :=
  session.lastExecutable.any (samePath executable)

/-- Which spelling of a path is asked about does not matter. -/
theorem Session.lastRequested_congr (session : Session) {a b : String}
    (h : samePath a b = true) : session.lastRequested a = session.lastRequested b := by
  have hsame : samePath a = samePath b := by
    funext c
    rw [samePath_iff] at h
    rw [samePath, samePath, h]
  rw [lastRequested, lastRequested, hsame]

/-- A session's last request was made for one program only. -/
theorem Session.samePath_of_lastRequested {session : Session} {a b : String}
    (ha : session.lastRequested a = true) (hb : session.lastRequested b = true) :
    samePath a b = true := by
  cases hlast : session.lastExecutable with
  | none => simp [lastRequested, hlast] at ha
  | some last =>
    simp only [lastRequested, hlast, Option.any_some] at ha hb
    rw [samePath_comm] at hb
    exact samePath_trans ha hb

namespace Service

/-! ## §1 — the result that paused a session -/

/-- The result that was applied to a session and paused it, if one was: its run could not start, and
its program was the configured one. -/
def Event.pauses? (id : SessionId) : Event → Option RunResult
  | .taken r configured (some _) =>
    if r.session = id ∧ r.report.outcome.isSetupFailure ∧ samePath r.executable configured then
      some r
    else
      none
  | _ => none

/-- The result that paused a session last. -/
def History.pausedBy (L : History) (id : SessionId) : Option RunResult :=
  (L.filterMap (Event.pauses? id)).getLast?

/-- The latest event that pauses a session counts. -/
theorem History.pausedBy_append (L L' : History) (id : SessionId) :
    History.pausedBy (L ++ L') id = (L'.pausedBy id).or (L.pausedBy id) := by
  rw [pausedBy, List.filterMap_append, List.getLast?_append]
  rfl

/-- An event that pauses a session is that of a result that was applied, of a run of the
configured program that could not start. -/
theorem Event.pauses?_eq_some {id : SessionId} {e : Event} {r : RunResult}
    (h : e.pauses? id = some r) :
    ∃ configured summary, e = .taken r configured (some summary) ∧ r.session = id ∧
      r.report.outcome.isSetupFailure = true ∧ samePath r.executable configured = true := by
  cases e with
  | taken result configured summary =>
    cases summary with
    | none => cases h
    | some summary =>
      simp only [pauses?] at h
      split at h
      · next hpause =>
        cases h
        exact ⟨configured, summary, rfl, hpause⟩
      · cases h
  | _ => cases h

theorem History.exists_event_of_pausedBy {L : History} {id : SessionId} {r : RunResult}
    (h : L.pausedBy id = some r) : ∃ e ∈ L, e.pauses? id = some r :=
  List.mem_filterMap.mp (List.mem_of_getLast? h)

/-- A move that pauses a session does so on account of the configured program. -/
theorem samePath_of_pausedBy_emits {s : Service} {m : Move} {id : SessionId} {r : RunResult}
    (h : (s.emits m).pausedBy id = some r) :
    m = .applyNext ∧ samePath r.executable s.compiler.executable = true := by
  obtain ⟨e, he, hpauses⟩ := History.exists_event_of_pausedBy h
  obtain ⟨configured, summary, rfl, -, -, hsame⟩ := Event.pauses?_eq_some hpauses
  cases eventOf_of_mem he with
  | taken => exact ⟨rfl, hsame⟩

/-! ## §2 — the invariant -/

/-- If a session is paused, then the program that failed is the configured one, or else the last
request was made for the configured one. -/
def PauseExplained (L : History) (s : Service) (session : Session) : Prop :=
  session.paused = true → ∃ r, L.pausedBy session.id = some r ∧
    (samePath r.executable s.compiler.executable = true ∨
     session.lastRequested s.compiler.executable = true)

/-- An explanation holds on while the session and the configured program stay as they are; a move
that pauses the session anew explains the pause by itself. -/
theorem PauseExplained.append {L : History} {s t : Service} {old session : Session} {m : Move}
    (h : PauseExplained L s old) (hid : old.id = session.id)
    (hpaused : session.paused = true → old.paused = true)
    (hlast : old.lastExecutable = session.lastExecutable)
    (hcompiler : t.compiler = s.compiler) : PauseExplained (L ++ s.emits m) t session := by
  intro hnow
  obtain ⟨r, hr, hexplained⟩ := h (hpaused hnow)
  rw [History.pausedBy_append, hcompiler]
  cases hnew : (s.emits m).pausedBy session.id with
  | some r' => exact ⟨r', rfl, Or.inl (samePath_of_pausedBy_emits hnew).2⟩
  | none =>
    refine ⟨r, by rw [← hid]; exact hr, hexplained.imp_right ?_⟩
    rw [Session.lastRequested, Session.lastRequested, hlast]
    exact id

/-- The configured compiler changes by a new configuration and by nothing else. -/
theorem compiler_play {s : Service} {m : Move}
    (hm : ∀ compiler settings, m ≠ .reconfigure compiler settings) :
    (s.play m).compiler = s.compiler := by
  cases m with
  | reconfigure compiler settings => exact absurd rfl (hm compiler settings)
  | mark openDocuments liveEdits ownSaves => rfl
  | _ => rw [play_frame s rfl]

/-- A new configuration leaves a session paused if the program is the same or if the last request
was made for the new one. -/
theorem paused_sessionAfterReconfigure (s : Service) (compiler : Options) (session : Session) :
    (s.sessionAfterReconfigure compiler session).paused = true ↔
      session.paused = true ∧
        (samePath compiler.executable s.compiler.executable = true ∨
         session.lastRequested compiler.executable = true) := by
  -- a session resumes when it is paused and its last request was for another program than the
  -- new one.
  have hstale : Registry.isStale session compiler.executable =
      (session.paused && !session.lastRequested compiler.executable) := rfl
  rw [sessionAfterReconfigure, hstale]
  split
  · next h => simp_all
  · next h =>
    constructor
    · intro hpaused
      simp only [hpaused, Bool.true_and, Bool.and_eq_true, Bool.not_eq_true', not_and,
        Bool.not_eq_false] at h
      refine ⟨hpaused, ?_⟩
      cases hsame : samePath compiler.executable s.compiler.executable with
      | true => exact Or.inl rfl
      | false => exact Or.inr (h hsame)
    · exact And.left

/-- A session that is paused after a result was paused before, or the run could not start and its
program is the configured one. -/
theorem paused_sessionAfterResult {s : Service} {r : RunResult} {session : Session}
    (h : (s.sessionAfterResult r session).paused = true) :
    session.paused = true ∨
    (r.report.outcome.isSetupFailure = true ∧
      samePath r.executable s.compiler.executable = true) := by
  have hafter : s.pausedAfter session r.executable r.report.outcome = true := h
  cases houtcome : r.report.outcome with
  | exited code =>
    rw [houtcome, pausedAfter] at hafter
    cases hafter
  | failed e =>
    rw [houtcome, pausedAfter, Bool.or_eq_true, Bool.and_eq_true] at hafter
    exact hafter

/-- The record names the result that pauses a session. -/
theorem pausedBy_emits_applyNext {s : Service} {r : RunResult} {rest : List RunResult}
    {session : Session} (hready : s.results.ready = r :: rest)
    (hget : s.registry.get? r.document = some session) (hid : session.id = r.session)
    (hfailed : r.report.outcome.isSetupFailure = true)
    (hsame : samePath r.executable s.compiler.executable = true) :
    (s.emits .applyNext).pausedBy session.id = some r := by
  rcases applyNext_of_ready hready with ⟨hgone, -⟩ | ⟨_, -, -, hnext⟩
  · rw [Registry.current?_eq_some_iff.mpr ⟨hget, hid⟩] at hgone
    cases hgone
  · rw [emits, hready, hnext]
    simp [History.pausedBy, Event.pauses?, hid, hfailed, hsame]

/-- **The invariant across a move.** -/
theorem pauseExplained_play {L : History} {s : Service}
    (h : ∀ key session, s.registry.get? key = some session → PauseExplained L s session) (m : Move)
    {key : DocumentKey} {session : Session}
    (hget : (s.play m).registry.get? key = some session) :
    PauseExplained (L ++ s.emits m) (s.play m) session := by
  cases origin_of_get?_play hget with
  | kept hold hconfig =>
    exact (h key session hold).append rfl id rfl (compiler_play hconfig)
  | requested delay =>
    intro hpaused
    -- an accepted request would change the last program, but a paused session accepts none.
    have hold := sessionAfterRequest_of_paused hpaused
    exact (h key _ hold).append rfl id rfl (compiler_play (by simp)) hpaused
  | @reconfigured compiler settings old hold =>
    intro hpaused
    obtain ⟨hbefore, hwhy⟩ := (paused_sessionAfterReconfigure s compiler old).mp hpaused
    obtain ⟨r, hr, hexplained⟩ := h key old hold hbefore
    have hcompiler : (s.play (.reconfigure compiler settings)).compiler = compiler :=
      (reconfigure_frame s compiler settings).2.2.2.2
    refine ⟨r, ?_, ?_⟩
    · rw [show s.emits (.reconfigure compiler settings) = [] from rfl, List.append_nil,
        id_sessionAfterReconfigure]
      exact hr
    · rw [hcompiler, Session.lastRequested, lastExecutable_sessionAfterReconfigure]
      -- either the program is the same as before, or the last request was made for it.
      rcases hwhy with hsame | hlast
      · rw [samePath_comm] at hsame
        rcases hexplained with hfailed | hrequested
        · exact Or.inl (samePath_trans hfailed hsame)
        · rw [Session.lastRequested_congr old hsame] at hrequested
          exact Or.inr hrequested
      · exact Or.inr hlast
  | @fired old hold =>
    exact (h key old hold).append rfl id rfl (compiler_play (by simp))
  | @published r rest old hready hkey hold hid =>
    intro hpaused
    have hcompiler : (s.play .applyNext).compiler = s.compiler := compiler_play (by simp)
    by_cases hbefore : old.paused = true
    · exact (h key old hold).append rfl (fun _ => hbefore) rfl hcompiler hpaused
    -- the session was not paused, so this result pauses it.
    · obtain ⟨hfailed, hsame⟩ := (paused_sessionAfterResult hpaused).resolve_left hbefore
      have hnew := pausedBy_emits_applyNext hready (by rw [hkey]; exact hold) hid hfailed hsame
      refine ⟨r, ?_, Or.inl ?_⟩
      · rw [History.pausedBy_append, show (s.sessionAfterResult r old).id = old.id from rfl, hnew]
        rfl
      · rw [hcompiler]
        exact hsame

/-- **Every pause is explained** by a result in the history, after any actions. -/
theorem pauseExplained_performAll (compiler : Options) (settings : Settings)
    (actions : List Action) :
    ∀ key session,
      ((create compiler settings).performAll actions).registry.get? key = some session →
      PauseExplained ((create compiler settings).history actions)
        ((create compiler settings).performAll actions) session :=
  history_induction
    (motive := fun L s => ∀ key session, s.registry.get? key = some session →
      PauseExplained L s session)
    (fun key session hget => by cases hget)
    (fun _ _ m h _ _ hget => pauseExplained_play h m hget) actions

/-! ## §3 — the breaker and the configured program -/

/-- Requests pause nothing and resume nothing. -/
theorem isPaused_validate (s : Service) (key other : DocumentKey) (delay : Nat) :
    (s.validate key delay).2.isPaused other = s.isPaused other := by
  rw [isPaused, get?_validate, isPaused]
  by_cases hkey : other = key
  · subst hkey
    rw [if_pos rfl, Option.any_some, paused_sessionAfterRequest]
    cases hget : s.registry.get? other with
    | none => rw [Registry.getOrCreate_of_none hget]; rfl
    | some session => rw [Registry.getOrCreate_of_some hget]; rfl
  · rw [if_neg hkey]

/-- The requests that follow a new configuration pause and resume nothing. -/
theorem isPaused_applyConfig (s : Service) (compiler : Options) (settings : Settings)
    (key : DocumentKey) :
    (s.applyConfig compiler settings).isPaused key =
      (s.reconfigure compiler settings).isPaused key := by
  have hrequests : ∀ (keys : List DocumentKey) (t : Service),
      (t.playAll (keys.map (.request · 0))).isPaused key = t.isPaused key := by
    intro keys
    induction keys with
    | nil => intro t; rfl
    | cons k keys ih =>
      intro t
      rw [List.map_cons, playAll_cons, ih]
      exact isPaused_validate t k key 0
  rw [applyConfig_eq, revalidated]
  split
  · exact hrequests _ _
  · rfl

/-- After a change of the program, a session is paused exactly if it was paused and its last request
was made for the new program. -/
theorem isPaused_applyConfig_iff {s : Service} {compiler : Options}
    (hchanged : samePath compiler.executable s.compiler.executable = false) (settings : Settings)
    (key : DocumentKey) :
    (s.applyConfig compiler settings).isPaused key = true ↔
      ∃ session, s.registry.get? key = some session ∧ session.paused = true ∧
        session.lastRequested compiler.executable = true := by
  rw [isPaused_applyConfig, isPaused, get?_reconfigure]
  cases hget : s.registry.get? key with
  | none => simp
  | some session =>
    rw [Option.map_some, Option.any_some, paused_sessionAfterReconfigure, hchanged]
    simp

/-- The result that paused a session is that of a run which the session started. -/
theorem Delivery.exists_flight_of_pausedBy {L : History} {s : Service} (h : Delivery L s)
    {id : SessionId} {r : RunResult} (hr : L.pausedBy id = some r) :
    ∃ flight ∈ L.starts, flight.session = id ∧ flight.plan.request.executable = r.executable := by
  obtain ⟨e, he, hpauses⟩ := History.exists_event_of_pausedBy hr
  obtain ⟨configured, summary, rfl, hid, -, -⟩ := Event.pauses?_eq_some hpauses
  have htaken : r ∈ L.taken := List.mem_filterMap.mpr ⟨_, he, rfl⟩
  obtain ⟨run, hrun, rfl⟩ := h.exists_run (List.mem_append_left _ htaken)
  exact ⟨run.1, h.mem_starts hrun, hid, rfl⟩

/-- **When the breaker holds against the configured program.** Whatever happens to a service: if a
session is paused, there is the result that paused it last, of a run of that session which could not
start. The program of that run differs from the configured one exactly if the session's last request
was made for the configured program and not for the one that failed. And after a configuration with
another program exactly those sessions are paused that were paused before and whose last request was
made for the new program. -/
theorem breaker_exact (compiler : Options) (settings : Settings) (actions : List Action) :
    let s := (create compiler settings).performAll actions
    let L := (create compiler settings).history actions
    (∀ key session, s.registry.get? key = some session → session.paused = true →
      ∃ r, L.pausedBy session.id = some r ∧ r.report.outcome.isSetupFailure = true ∧
        (∃ flight ∈ L.starts, flight.session = session.id ∧
          flight.plan.request.executable = r.executable) ∧
        (samePath r.executable s.compiler.executable = false ↔
          session.lastRequested s.compiler.executable = true ∧
          session.lastRequested r.executable = false)) ∧
    ∀ compiler' settings', samePath compiler'.executable s.compiler.executable = false →
      ∀ key, (s.applyConfig compiler' settings').isPaused key = true ↔
        ∃ session, s.registry.get? key = some session ∧ session.paused = true ∧
          session.lastRequested compiler'.executable = true := by
  intro s L
  refine ⟨?_, fun compiler' settings' hchanged key => isPaused_applyConfig_iff hchanged _ key⟩
  intro key session hget hpaused
  obtain ⟨r, hr, hexplained⟩ :=
    pauseExplained_performAll compiler settings actions key session hget hpaused
  have hrun := (delivery_performAll compiler settings actions).exists_flight_of_pausedBy hr
  have hfailed : r.report.outcome.isSetupFailure = true := by
    obtain ⟨e, -, hpauses⟩ := History.exists_event_of_pausedBy hr
    obtain ⟨-, -, -, -, hfailed, -⟩ := Event.pauses?_eq_some hpauses
    exact hfailed
  refine ⟨r, hr, hfailed, hrun, ?_⟩
  -- the last request was made for one program only: the configured one or the one that failed.
  constructor
  · intro hother
    have hlast : session.lastRequested s.compiler.executable = true := by
      rcases hexplained with hsame | hlast
      · rw [hsame] at hother
        cases hother
      · exact hlast
    refine ⟨hlast, Bool.eq_false_iff.mpr fun hfail => ?_⟩
    rw [Session.samePath_of_lastRequested hfail hlast] at hother
    cases hother
  · rintro ⟨hlast, hnot⟩
    refine Bool.eq_false_iff.mpr fun hsame => ?_
    rw [Session.lastRequested_congr session hsame, hlast] at hnot
    cases hnot

/-- **A pause that outlives its program.** A run with the program `old` fails to start. Before its
result is applied, a request is made for the program `new`, and `old` is configured again. The result
pauses the session. Then `new` is configured: the program has changed, and the session is still
paused on account of `old`. -/
theorem pause_outlives_program :
    let key : DocumentKey := ⟨"a.ksp"⟩
    let settings : Settings := { filePatterns := [] }
    let failure : Report := ⟨.failed (.notFound "old"), [], []⟩
    let start := create { executable := "old" } settings
    let actions : List Action :=
      [.validate key 0, .fire key, .complete 1 failure,
       .applyConfig { executable := "new" } settings, .validate key 1000,
       .applyConfig { executable := "old" } settings, .poll 1]
    let change : Action := .applyConfig { executable := "new" } settings
    let s := start.performAll (actions ++ [change])
    samePath s.compiler.executable (start.performAll actions).compiler.executable = false ∧
    s.isPaused key = true ∧
    ∃ r, (start.history (actions ++ [change])).pausedBy 1 = some r ∧
      samePath r.executable s.compiler.executable = false := by
  decide

end Service

end KspWorkbench
