import KspWorkbench.Proofs.DocumentOrder
import KspWorkbench.Proofs.Validation.Breaker
import KspWorkbench.Proofs.Validation.Coalescing
import KspWorkbench.Proofs.Validation.LiveEdits

/-!
# Validation after a new configuration

A new configuration first takes the place of the old one, then resumes the sessions that were paused
on account of another program, and only then requests runs. So which documents are validated again
is decided by the new patterns and by the pauses that are left, and what runs is decided by the new
options.

* **`Revalidates`** — the documents that are validated again, told from the state before.
* **`get?_applyConfig`** — the session of a document afterwards, in three cases.
* **`reconfiguration_revalidates`** — a run is scheduled for exactly these documents; nothing else
  changes but pauses.
-/

namespace KspWorkbench

namespace Service

variable {s : Service} {compiler : Options} {settings : Settings} {key : DocumentKey}

/-! ## §1 — gates at rest

The task at the gate of a session hands its run over and is done. So no request has to wait for
another one to end, and its delay begins when it is made. -/

/-- No session's gate is busy. -/
def GatesIdle (s : Service) : Prop :=
  ∀ {key session}, s.registry.get? key = some session → session.gate.executing = none

theorem executing_getOrCreate (h : s.GatesIdle) (key : DocumentKey) :
    (s.registry.getOrCreate key).1.gate.executing = none := by
  cases hget : s.registry.get? key with
  | none => rw [Registry.getOrCreate_of_none hget]
  | some session =>
    rw [Registry.getOrCreate_of_some hget]
    exact h hget

/-- No gate has a task under way, after any move. -/
theorem gatesIdle_play (h : s.GatesIdle) (m : Move) : (s.play m).GatesIdle := by
  intro key session hget
  -- a session that has just been made has a fresh gate, and no move lets a task execute at one.
  cases origin_of_get?_play hget with
  | kept hold _ => exact h hold
  | requested delay =>
    have hidle := executing_getOrCreate h key
    unfold sessionAfterRequest
    simp only
    split
    · exact hidle
    · exact hidle
  | reconfigured hold =>
    have hidle := h hold
    unfold sessionAfterReconfigure
    split <;> exact hidle
  | fired hold =>
    have hidle := h hold
    exact hidle
  | published _ _ hold _ =>
    have hidle := h hold
    exact hidle

theorem gatesIdle_performAll (compiler : Options) (settings : Settings) (actions : List Action) :
    ((create compiler settings).performAll actions).GatesIdle :=
  history_induction (motive := fun _ s => s.GatesIdle) (fun hget => by cases hget)
    (fun _ _ m h => gatesIdle_play h m) actions

/-! ## §2 — many requests, one after the other -/

/-- What requests for other documents leave to a request. -/
structure Requesting (s u : Service) : Prop where
  compiler : u.compiler = s.compiler
  now : u.now = s.now
  tickets : s.tickets ≤ u.tickets
  lastId : s.registry.lastId ≤ u.registry.lastId

theorem requesting_validate (s : Service) (key : DocumentKey) (delay : Nat) :
    Requesting s (s.validate key delay).2 where
  compiler := by rw [validate_frame]
  now := by rw [validate_frame]
  tickets := by
    rw [tickets_validate]
    split <;> omega
  lastId := by
    rw [lastId_validate]
    split
    · exact Nat.le_refl _
    · exact Nat.le_succ _

theorem Requesting.trans {s t u : Service} (h : Requesting s t) (h' : Requesting t u) :
    Requesting s u where
  compiler := h'.compiler.trans h.compiler
  now := h'.now.trans h.now
  tickets := Nat.le_trans h.tickets h'.tickets
  lastId := Nat.le_trans h.lastId h'.lastId

/-- A document that is not among those requested keeps its session as it was. -/
theorem get?_requests_of_not_mem {keys : List DocumentKey} (h : key ∉ keys) (s : Service) :
    (s.playAll (keys.map (.request · 0))).registry.get? key = s.registry.get? key := by
  induction keys generalizing s with
  | nil => rfl
  | cons other keys ih =>
    rw [List.mem_cons, not_or] at h
    rw [List.map_cons, playAll_cons, ih h.2, play, get?_validate, if_neg h.1]

/-- The request for one of many documents finds the session of the document as it was. -/
theorem get?_requests_of_mem {keys : List DocumentKey} (hnodup : keys.Nodup) (h : key ∈ keys)
    (s : Service) :
    ∃ u, Requesting s u ∧ u.registry.get? key = s.registry.get? key ∧
      (s.playAll (keys.map (.request · 0))).registry.get? key =
        some (u.sessionAfterRequest key 0) := by
  induction keys generalizing s with
  | nil => cases h
  | cons other keys ih =>
    obtain ⟨hother, hrest⟩ := List.nodup_cons.mp hnodup
    rw [List.map_cons, playAll_cons]
    -- the document is requested once; the requests before it make `u`, and those after it do not
    -- touch it.
    by_cases hkey : key = other
    · subst hkey
      refine ⟨s, ⟨rfl, rfl, Nat.le_refl _, Nat.le_refl _⟩, rfl, ?_⟩
      rw [get?_requests_of_not_mem hother, play, get?_validate, if_pos rfl]
    · obtain ⟨u, hframe, hsame, hlast⟩ :=
        ih hrest ((List.mem_cons.mp h).resolve_left hkey) (s.play (.request other 0))
      refine ⟨u, (requesting_validate s other 0).trans hframe, ?_, hlast⟩
      rw [hsame, play, get?_validate, if_neg hkey]

theorem running_requests (s : Service) (keys : List DocumentKey) :
    (s.playAll (keys.map (.request · 0))).running = s.running := by
  refine playAll_keeps running (fun s m hm => ?_) s
  obtain ⟨key, -, rfl⟩ := List.mem_map.mp hm
  rw [play, validate_frame]

/-! ## §3 — the documents that are validated again -/

/-- Whether a session is paused when the options have been replaced: the program is the same, or it
is the one that the session was last requested to run. -/
def stillPaused (s : Service) (compiler : Options) (session : Session) : Bool :=
  session.paused && (samePath compiler.executable s.compiler.executable ||
    session.lastRequested compiler.executable)

/-- **The documents that a new configuration validates again**: those that are open, that the new
patterns select, and whose session is not paused any more. -/
structure Revalidates (s : Service) (compiler : Options) (settings : Settings)
    (key : DocumentKey) : Prop where
  isOpen : key ∈ s.openDocuments
  selected : (PatternSet.ofStrings settings.filePatterns).covers key.path = true
  awake : ∀ session, s.registry.get? key = some session → s.stillPaused compiler session = false

theorem sessionAfterReconfigure_eq (s : Service) (compiler : Options) (session : Session) :
    s.sessionAfterReconfigure compiler session =
      { session with paused := s.stillPaused compiler session } := by
  have hpaused := paused_sessionAfterReconfigure s compiler session
  have hsame : (s.sessionAfterReconfigure compiler session).paused =
      s.stillPaused compiler session := by
    rw [Bool.eq_iff_iff, hpaused, stillPaused, Bool.and_eq_true, Bool.or_eq_true]
  rw [← hsame]
  unfold sessionAfterReconfigure
  split <;> rfl

/-- The requests of a new configuration are for the open documents that it selects. -/
theorem mem_revalidated_iff :
    key ∈ (DocumentKey.sortDistinct (s.reconfigure compiler settings).openDocuments).filter
        (s.reconfigure compiler settings).selects ↔
      key ∈ s.openDocuments ∧
        (PatternSet.ofStrings settings.filePatterns).covers key.path = true := by
  have hposture := posture_reconfigure s compiler settings
  have hopen : (s.reconfigure compiler settings).openDocuments = s.openDocuments :=
    congrArg Posture.openDocuments hposture
  have hpatterns : (s.reconfigure compiler settings).patterns =
      (PatternSet.ofStrings settings.filePatterns).valid := congrArg Posture.patterns hposture
  rw [List.mem_filter, DocumentKey.mem_sortDistinct, hopen, selects, hpatterns]
  rfl

/-! ## §4 — the sessions afterwards -/

/-- A run of a document is scheduled, at once and by these options, whatever waited before. Its
session is the one that there was, or a new one. -/
structure Scheduled (s : Service) (compiler : Options) (key : DocumentKey) (session : Session) :
    Prop where
  awake : session.paused = false
  waiting : ∃ ticket, s.tickets < ticket ∧ session.gate.waiting =
    some ⟨⟨ticket, Request.build compiler key.path none,
      ⟨compiler.showStdout, compiler.showStderr⟩⟩, 0, some s.now⟩
  kept : ∀ old, s.registry.get? key = some old →
    session.id = old.id ∧ session.diagnostics = old.diagnostics
  made : s.registry.get? key = none → s.registry.lastId < session.id ∧ session.diagnostics = []

/-- A request that is accepted waits from now on. -/
theorem waiting_sessionAfterRequest
    (hawake : (s.registry.getOrCreate key).1.paused = false)
    (hidle : (s.registry.getOrCreate key).1.gate.executing = none) (delay : Nat) :
    (s.sessionAfterRequest key delay).gate.waiting =
      some ⟨s.plan key, delay, some (s.now + delay)⟩ := by
  simp [sessionAfterRequest, hawake, Gate.trigger, Gate.setDelay, hidle]

/-- The session that a request of the new configuration is made to. -/
theorem getOrCreate_of_reconfigured {u : Service} (hidle : s.GatesIdle)
    (hframe : Requesting (s.reconfigure compiler settings) u)
    (hsame : u.registry.get? key = (s.reconfigure compiler settings).registry.get? key) :
    let session := (u.registry.getOrCreate key).1
    session.gate.executing = none ∧
    (∀ old, s.registry.get? key = some old →
      session = { old with paused := s.stillPaused compiler old }) ∧
    (s.registry.get? key = none →
      s.registry.lastId < session.id ∧ session.paused = false ∧ session.diagnostics = []) := by
  have hlastId : s.registry.lastId ≤ u.registry.lastId := by
    rw [← lastId_reconfigure s compiler settings]
    exact hframe.lastId
  rw [get?_reconfigure] at hsame
  -- a session that was there is kept but for its pause, and a new one has an identity of its
  -- own.
  cases hget : s.registry.get? key with
  | none =>
    rw [hget] at hsame
    rw [Registry.getOrCreate_of_none hsame]
    exact ⟨rfl, by simp, fun _ => ⟨Nat.lt_succ_of_le hlastId, rfl, rfl⟩⟩
  | some old =>
    rw [hget, Option.map_some, sessionAfterReconfigure_eq] at hsame
    rw [Registry.getOrCreate_of_some hsame]
    have hgate := hidle hget
    refine ⟨hgate, fun old' hold => ?_, by simp⟩
    cases hold
    rfl

theorem now_reconfigure (s : Service) (compiler : Options) (settings : Settings) :
    (s.reconfigure compiler settings).now = s.now := by
  unfold reconfigure
  simp only
  split <;> rfl

/-- A request that is accepted schedules a run. -/
theorem scheduled_of_request {u : Service} (hidle : s.GatesIdle)
    (hframe : Requesting (s.reconfigure compiler settings) u)
    (hsame : u.registry.get? key = (s.reconfigure compiler settings).registry.get? key)
    (hawake : ∀ old, s.registry.get? key = some old → s.stillPaused compiler old = false) :
    Scheduled s compiler key (u.sessionAfterRequest key 0) := by
  obtain ⟨hgate, hkept, hmade⟩ := getOrCreate_of_reconfigured hidle hframe hsame
  obtain ⟨-, -, -, htickets, hcompiler⟩ := reconfigure_frame s compiler settings
  -- the session is awake: it was made just now, or it was resumed or never paused.
  have hpaused : (u.registry.getOrCreate key).1.paused = false := by
    cases hget : s.registry.get? key with
    | none => exact (hmade hget).2.1
    | some old =>
      rw [hkept old hget]
      exact hawake old hget
  have hplan : u.plan key = ⟨u.tickets + 1, Request.build compiler key.path none,
      ⟨compiler.showStdout, compiler.showStderr⟩⟩ := by
    rw [plan, hframe.compiler, hcompiler]
  have hnow : u.now = s.now := hframe.now.trans (now_reconfigure s compiler settings)
  refine ⟨?_, ⟨u.tickets + 1, ?_, ?_⟩, fun old hget => ?_, fun hget => ?_⟩
  · rw [paused_sessionAfterRequest, hpaused]
  · have hle := hframe.tickets
    omega
  · rw [waiting_sessionAfterRequest hpaused hgate, hplan, hnow]
    rfl
  · rw [id_sessionAfterRequest, diagnostics_sessionAfterRequest, hkept old hget]
    exact ⟨rfl, rfl⟩
  · obtain ⟨hid, -, hdiag⟩ := hmade hget
    rw [id_sessionAfterRequest, diagnostics_sessionAfterRequest]
    exact ⟨hid, hdiag⟩

/-- A request that is refused changes nothing. -/
theorem get?_of_refused {u : Service} (hidle : s.GatesIdle)
    (hframe : Requesting (s.reconfigure compiler settings) u)
    (hsame : u.registry.get? key = (s.reconfigure compiler settings).registry.get? key)
    {old : Session} (hget : s.registry.get? key = some old)
    (hpaused : s.stillPaused compiler old = true) :
    some (u.sessionAfterRequest key 0) = (s.reconfigure compiler settings).registry.get? key := by
  obtain ⟨-, hkept, -⟩ := getOrCreate_of_reconfigured hidle hframe hsame
  rw [← hsame]
  refine (sessionAfterRequest_of_paused ?_).symm
  rw [paused_sessionAfterRequest, hkept old hget]
  exact hpaused

/-- **The session of a document after a new configuration.** If the document is validated again, a
run is scheduled; if not, its session is as before but for the pause. -/
theorem get?_applyConfig (hidle : s.GatesIdle) (compiler : Options) (settings : Settings)
    (key : DocumentKey) :
    (settings.enabled = true → s.Revalidates compiler settings key →
      ∃ session, (s.applyConfig compiler settings).registry.get? key = some session ∧
        Scheduled s compiler key session) ∧
    (¬ (settings.enabled = true ∧ s.Revalidates compiler settings key) →
      (s.applyConfig compiler settings).registry.get? key =
        (s.registry.get? key).map fun session =>
          { session with paused := s.stillPaused compiler session }) := by
  rw [← funext (sessionAfterReconfigure_eq s compiler), ← get?_reconfigure s compiler settings,
    applyConfig_eq, revalidated]
  by_cases henabled : settings.enabled = true
  · rw [if_pos henabled]
    have hnodup := (DocumentKey.nodup_sortDistinct
      (s.reconfigure compiler settings).openDocuments).filter
        (s.reconfigure compiler settings).selects
    constructor
    · intro _ hagain
      obtain ⟨u, hframe, hsame, hlast⟩ :=
        get?_requests_of_mem hnodup
          (mem_revalidated_iff.mpr ⟨hagain.isOpen, hagain.selected⟩)
          (s.reconfigure compiler settings)
      exact ⟨_, hlast, scheduled_of_request hidle hframe hsame hagain.awake⟩
    · intro hnot
      by_cases hasked : key ∈ (DocumentKey.sortDistinct
          (s.reconfigure compiler settings).openDocuments).filter
            (s.reconfigure compiler settings).selects
      · -- a request is made all the same, but the session is still paused and refuses it.
        obtain ⟨hopen, hselected⟩ := mem_revalidated_iff.mp hasked
        obtain ⟨old, hget, hpaused⟩ : ∃ old, s.registry.get? key = some old ∧
            s.stillPaused compiler old = true := by
          by_contra hnone
          refine hnot ⟨henabled, hopen, hselected, fun old hget => ?_⟩
          exact Bool.eq_false_iff.mpr fun hpaused => hnone ⟨old, hget, hpaused⟩
        obtain ⟨u, hframe, hsame, hlast⟩ :=
          get?_requests_of_mem hnodup hasked (s.reconfigure compiler settings)
        rw [hlast]
        exact get?_of_refused hidle hframe hsame hget hpaused
      · exact get?_requests_of_not_mem hasked _
  · rw [if_neg henabled]
    exact ⟨fun h => absurd h henabled, fun _ => rfl⟩

theorem running_applyConfig (s : Service) (compiler : Options) (settings : Settings) :
    (s.applyConfig compiler settings).running = s.running := by
  rw [applyConfig_eq, revalidated]
  split
  · rw [running_requests, (reconfigure_frame s compiler settings).1]
  · exact (reconfigure_frame s compiler settings).1

/-- **Reconfiguration validates exactly the right documents again.** In every state that actions
lead to: if validation is enabled by the new settings, then a run is scheduled at once and with the
new options for every document that is open, that the new patterns select and that is not paused any
more, in place of the one that waited, and with a new session if there was none. The session of any
other document, or of every document if validation is not enabled, keeps all but its pause, and none
is made. The running flags stay as they are. -/
theorem reconfiguration_revalidates (initial : Options) (first : Settings) (actions : List Action)
    (compiler : Options) (settings : Settings) (key : DocumentKey) :
    let s := (create initial first).performAll actions
    let t := s.applyConfig compiler settings
    (settings.enabled = true → s.Revalidates compiler settings key →
      ∃ session, t.registry.get? key = some session ∧ Scheduled s compiler key session) ∧
    (¬ (settings.enabled = true ∧ s.Revalidates compiler settings key) →
      t.registry.get? key = (s.registry.get? key).map fun session =>
        { session with paused := s.stillPaused compiler session }) ∧
    t.running = s.running := by
  intro s t
  obtain ⟨hagain, hother⟩ :=
    get?_applyConfig (gatesIdle_performAll initial first actions) compiler settings key
  exact ⟨hagain, hother, running_applyConfig s compiler settings⟩

/-- A session that a missing program has paused is resumed and its document validated, while a
request for a document that is not open waits on. -/
theorem resumed_document_validated :
    let a : DocumentKey := ⟨"a.ksp"⟩
    let b : DocumentKey := ⟨"b.ksp"⟩
    let settings : Settings := { enabled := true, filePatterns := ["**"] }
    let failure : Report := ⟨.failed (.notFound "old"), [], []⟩
    let compiler : Options := { executable := "new" }
    let s := (create { executable := "old" } settings).performAll
      [.handle (.opened a), .fire a, .complete 1 failure, .poll 1, .validate b 1000]
    let t := s.applyConfig compiler settings
    s.isPaused a = true ∧ s.Revalidates compiler settings a ∧
    (∃ session, t.registry.get? a = some session ∧ Scheduled s compiler a session) ∧
    ¬ s.Revalidates compiler settings b ∧
    t.registry.get? b = (s.registry.get? b).map fun session =>
      { session with paused := s.stillPaused compiler session } := by
  intro a b settings failure compiler s t
  have hagain : s.Revalidates compiler settings a := by
    refine ⟨by decide, by decide, fun session hget => ?_⟩
    have hawake :
        (s.registry.get? a).all (fun session => !s.stillPaused compiler session) = true := by
      decide
    rw [hget] at hawake
    simpa using hawake
  have hother : ¬ s.Revalidates compiler settings b := by
    rintro ⟨hopen, -⟩
    exact absurd hopen (by decide)
  obtain ⟨hscheduled, -⟩ := reconfiguration_revalidates { executable := "old" } settings
    [.handle (.opened a), .fire a, .complete 1 failure, .poll 1, .validate b 1000] compiler
    settings a
  obtain ⟨-, hkept, -⟩ := reconfiguration_revalidates { executable := "old" } settings
    [.handle (.opened a), .fire a, .complete 1 failure, .poll 1, .validate b 1000] compiler
    settings b
  exact ⟨by decide, hagain, hscheduled rfl hagain, hother, hkept fun h => hother h.2⟩

end Service

end KspWorkbench
