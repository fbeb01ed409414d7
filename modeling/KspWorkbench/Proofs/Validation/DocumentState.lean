import KspWorkbench.Validation.Service
import Mathlib.Data.List.InsertIdx
import Mathlib.Logic.Equiv.Basic

/-!
# The state of one document

A service restricted to one document: the configuration, the marks of the document, its session, its
runs in flight and its results that wait. `DocumentRun.respond` says how such a state answers to
what concerns the document. It has no part in other documents, and numbers the document's sessions
by itself.

The numbers do not matter: every answer commutes with a permutation of the identities of sessions.

* **`rename_request`**, **`rename_fire`**, **`rename_land`**, **`rename_applyNext`** — the answers under a
  permutation.
* **`rename_congr`** — only the identities that occur in a state matter for renaming it.
-/

namespace KspWorkbench

/-! ## §1 — the state -/

/-- A request that waits at a session, with the delay that it was made with. -/
structure PendingRun where
  request : Request
  echo : Echo
  delay : Nat
  deriving DecidableEq

/-- What a session is to the outside. -/
@[ext]
structure SessionView where
  id : SessionId
  paused : Bool := false
  lastExecutable : Option String := none
  diagnostics : List Diagnostic := []
  pending : Option PendingRun := none
  running : Bool := false
  deriving DecidableEq

/-- A process that was started for a session. -/
structure Launch where
  session : SessionId
  request : Request
  echo : Echo
  deriving DecidableEq

/-- A result that waits to be applied to a session. -/
structure Return where
  session : SessionId
  executable : String
  report : Report
  deriving DecidableEq

@[ext]
structure DocumentState where
  compiler : Options
  settings : Settings
  liveDelay : Nat
  patterns : List Pattern
  isOpen : Bool := false
  ownSave : Bool := false
  liveEdit : Bool := false
  session? : Option SessionView := none
  -- the runs in flight and the results, the oldest first; those of sessions that are gone too.
  flights : List Launch := []
  results : List Return := []

namespace DocumentState

def selects (d : DocumentState) (key : DocumentKey) : Bool :=
  d.patterns.any (·.covers key.path)

def shouldValidate (d : DocumentState) (key : DocumentKey) : Bool :=
  d.settings.enabled && d.selects key

/-- The session after a request. -/
def accept (d : DocumentState) (key : DocumentKey) (delay : Nat) (session : SessionView) :
    SessionView :=
  if session.paused then session
  else
    { session with
      lastExecutable := some d.compiler.executable
      pending := some ⟨Request.build d.compiler key.path none,
        ⟨d.compiler.showStdout, d.compiler.showStderr⟩, delay⟩ }

/-- A run is requested; a session that is made for it gets the identity `fresh`. -/
def request (d : DocumentState) (key : DocumentKey) (fresh : SessionId) (delay : Nat) :
    DocumentState :=
  { d with session? := some (d.accept key delay (d.session?.getD { id := fresh })) }

/-- The session after the compiler options have been replaced. -/
def resume (d : DocumentState) (compiler : Options) (session : SessionView) : SessionView :=
  if !samePath compiler.executable d.compiler.executable
      && (session.paused && !session.lastExecutable.any (samePath compiler.executable)) then
    { session with paused := false }
  else
    session

def reconfigure (d : DocumentState) (compiler : Options) (settings : Settings) : DocumentState :=
  { d with
    compiler := compiler
    settings := settings
    liveDelay := settings.liveDelay?.getD defaultLiveDelay
    patterns := (PatternSet.ofStrings settings.filePatterns).valid
    session? := d.session?.map (d.resume compiler) }

/-- The marks are forgotten and the session ends. -/
def close (d : DocumentState) : DocumentState :=
  { d with isOpen := false, ownSave := false, liveEdit := false, session? := none }

/-- The delay of the request that waits is over. -/
def fire (d : DocumentState) : Option Launch × DocumentState :=
  match d.session? with
  | none => (none, d)
  | some session =>
    match session.pending with
    | none => (none, d)
    | some pending =>
      if session.running then
        (none, { d with session? := some { session with pending := none } })
      else
        let launch : Launch := ⟨session.id, pending.request, pending.echo⟩
        (some launch, { d with
          session? := some { session with pending := none, running := true }
          flights := d.flights ++ [launch] })

/-- The run at this place among those in flight has ended. -/
def land (d : DocumentState) (place : Nat) (report : Report) : DocumentState :=
  match d.flights[place]? with
  | none => d
  | some launch =>
    { d with
      session? := d.session?.map fun session =>
        if session.id = launch.session then { session with running := false } else session
      flights := d.flights.eraseIdx place
      results := d.results ++ [⟨launch.session, launch.request.executable, report⟩] }

/-- Whether the session is paused after a run of this program with this outcome. -/
def pausedAfter (d : DocumentState) (session : SessionView) (executable : String) : Outcome → Bool
  | .exited _ => false
  | .failed e =>
    session.paused || (e.isSetupFailure && samePath executable d.compiler.executable)

/-- The session after a result of its own has been applied. -/
def publish (d : DocumentState) (result : Return) (session : SessionView) : SessionView :=
  { session with
    paused := d.pausedAfter session result.executable result.report.outcome
    diagnostics := result.report.diagnostics }

/-- The oldest result is taken, and applied if its session is still there. -/
def applyNext (d : DocumentState) (key : DocumentKey) : Option RunSummary × DocumentState :=
  match d.results with
  | [] => (none, d)
  | result :: rest =>
    match d.session? with
    | none => (none, { d with results := rest })
    | some session =>
      if session.id = result.session then
        (some (result.report.summary key),
          { d with session? := some (d.publish result session), results := rest })
      else
        (none, { d with results := rest })

/-- A result whose session is gone is dropped, and nothing else changes. -/
theorem applyNext_of_gone {d : DocumentState} {result : Return} {rest : List Return}
    (hresults : d.results = result :: rest)
    (hgone : ∀ session, d.session? = some session → session.id ≠ result.session)
    (key : DocumentKey) : d.applyNext key = (none, { d with results := rest }) := by
  rw [applyNext, hresults]
  dsimp only
  split
  · rfl
  · next session hsession => exact if_neg (hgone session hsession)

/-- A result whose session is alive is published there. -/
theorem applyNext_of_alive {d : DocumentState} {result : Return} {rest : List Return}
    {session : SessionView} (hresults : d.results = result :: rest)
    (hsession : d.session? = some session) (hid : session.id = result.session)
    (key : DocumentKey) :
    d.applyNext key = (some (result.report.summary key),
      { d with session? := some (d.publish result session), results := rest }) := by
  simp [applyNext, hresults, hsession, hid]

end DocumentState

/-! ## §2 — what concerns a document -/

/-- What concerns a document. A run that ends is told apart by its place among the runs of the
document that are in flight. -/
inductive Concern where
  | handle (event : DocumentEvent)
  | beginOwnSave
  | endOwnSave
  | validate (delay : Nat)
  | applyConfig (compiler : Options) (settings : Settings)
  | shutdown
  | fired
  | ended (place : Nat) (report : Report)
  | applied
  deriving DecidableEq

/-- A document in the course of time: the number of its sessions so far, the processes that were
started and the summaries that were returned. -/
structure DocumentRun where
  state : DocumentState
  made : Nat := 0
  launches : List Launch := []
  summaries : List RunSummary := []

namespace DocumentRun

def update (r : DocumentRun) (change : DocumentState → DocumentState) : DocumentRun :=
  { r with state := change r.state }

def request (r : DocumentRun) (key : DocumentKey) (delay : Nat) : DocumentRun :=
  { r with
    state := r.state.request key r.made delay
    made := if r.state.session?.isSome then r.made else r.made + 1 }

def requestIf (r : DocumentRun) (key : DocumentKey) (condition : Bool) (delay : Nat) :
    DocumentRun :=
  if condition then r.request key delay else r

def handle (r : DocumentRun) (key : DocumentKey) : DocumentEvent → DocumentRun
  | .opened _ =>
    (r.update ({ · with isOpen := true })).requestIf key (r.state.shouldValidate key) 0
  | .saved _ =>
    if r.state.ownSave then r
    else (r.update ({ · with liveEdit := false })).requestIf key (r.state.shouldValidate key) 0
  | .edited _ =>
    if r.state.settings.live && r.state.shouldValidate key then
      (r.update ({ · with liveEdit := true })).request key r.state.liveDelay
    else
      r
  | .closed _ => r.update DocumentState.close

/-- **How a document answers** to what concerns it. -/
def respond (key : DocumentKey) (r : DocumentRun) : Concern → DocumentRun
  | .handle event => r.handle key event
  | .beginOwnSave => r.update ({ · with ownSave := true })
  | .endOwnSave => r.update ({ · with ownSave := false })
  | .validate delay => r.request key delay
  | .applyConfig compiler settings =>
    let r := r.update (·.reconfigure compiler settings)
    r.requestIf key (settings.enabled && r.state.isOpen && r.state.selects key) 0
  | .shutdown => r.update DocumentState.close
  | .fired =>
    { r with
      state := r.state.fire.2
      launches := r.launches ++ r.state.fire.1.toList }
  | .ended place report => r.update (·.land place report)
  | .applied =>
    { r with
      state := (r.state.applyNext key).2
      summaries := r.summaries ++ (r.state.applyNext key).1.toList }

end DocumentRun

/-! ## §3 — renaming -/

def SessionView.rename (ρ : SessionId → SessionId) (session : SessionView) : SessionView :=
  { session with id := ρ session.id }

def Launch.rename (ρ : SessionId → SessionId) (launch : Launch) : Launch :=
  { launch with session := ρ launch.session }

def Return.rename (ρ : SessionId → SessionId) (result : Return) : Return :=
  { result with session := ρ result.session }

namespace DocumentState

/-- The state with the identities of its sessions renamed. -/
def rename (ρ : SessionId → SessionId) (d : DocumentState) : DocumentState :=
  { d with
    session? := d.session?.map (SessionView.rename ρ)
    flights := d.flights.map (Launch.rename ρ)
    results := d.results.map (Return.rename ρ) }

/-- The identities that occur in a state. -/
def ids (d : DocumentState) : List SessionId :=
  d.session?.toList.map SessionView.id ++
    (d.flights.map Launch.session ++ d.results.map Return.session)

/-- Only the identities that a state has matter to its renaming. -/
theorem rename_congr {ρ τ : SessionId → SessionId} {d : DocumentState}
    (h : ∀ id ∈ d.ids, ρ id = τ id) : d.rename ρ = d.rename τ := by
  -- session, flights and results are the three places where a state has identities.
  have hsession : d.session?.map (SessionView.rename ρ) = d.session?.map (SessionView.rename τ) := by
    refine Option.map_congr fun session hsession => ?_
    have hid := h session.id (by simp [ids, hsession])
    rw [SessionView.rename, SessionView.rename, hid]
  have hflights : d.flights.map (Launch.rename ρ) = d.flights.map (Launch.rename τ) := by
    refine List.map_congr_left fun launch hlaunch => ?_
    have hid := h launch.session (by
      have := List.mem_map_of_mem (f := Launch.session) hlaunch
      simp [ids, this])
    rw [Launch.rename, Launch.rename, hid]
  have hresults : d.results.map (Return.rename ρ) = d.results.map (Return.rename τ) := by
    refine List.map_congr_left fun result hresult => ?_
    have hid := h result.session (by
      have := List.mem_map_of_mem (f := Return.session) hresult
      simp [ids, this])
    rw [Return.rename, Return.rename, hid]
  rw [rename, rename, hsession, hflights, hresults]

theorem rename_rename (ρ τ : SessionId → SessionId) (d : DocumentState) :
    (d.rename ρ).rename τ = d.rename (τ ∘ ρ) := by
  simp only [rename, Option.map_map, List.map_map]
  rfl

/-! ## §4 — the answers under a permutation -/

theorem rename_accept (ρ : SessionId → SessionId) (d : DocumentState) (key : DocumentKey)
    (delay : Nat) (session : SessionView) :
    (d.rename ρ).accept key delay (session.rename ρ) = (d.accept key delay session).rename ρ := by
  rw [accept, accept, apply_ite (SessionView.rename ρ)]
  rfl

/-- A request answers alike under renamed identities, if the one for a new session is renamed as
well. -/
theorem rename_request (ρ : SessionId → SessionId) (d : DocumentState) (key : DocumentKey)
    (fresh : SessionId) (delay : Nat) :
    (d.rename ρ).request key (ρ fresh) delay = (d.request key fresh delay).rename ρ := by
  have hsession : (d.rename ρ).session?.getD { id := ρ fresh } =
      (d.session?.getD { id := fresh }).rename ρ := by
    unfold rename
    cases d.session? <;> rfl
  rw [request, hsession, rename_accept]
  rfl

/-- A new configuration looks at no identity. -/
theorem rename_reconfigure (ρ : SessionId → SessionId) (d : DocumentState) (compiler : Options)
    (settings : Settings) :
    (d.rename ρ).reconfigure compiler settings = (d.reconfigure compiler settings).rename ρ := by
  have hresume : ∀ session, (d.rename ρ).resume compiler (SessionView.rename ρ session) =
      (d.resume compiler session).rename ρ := by
    intro session
    rw [resume, resume, apply_ite (SessionView.rename ρ)]
    rfl
  simp only [reconfigure, rename, Option.map_map] at hresume ⊢
  congr 2
  funext session
  exact hresume session

/-- A run that starts has the renamed identity of its session. -/
theorem rename_fire (ρ : SessionId → SessionId) (d : DocumentState) :
    (d.rename ρ).fire = (d.fire.1.map (Launch.rename ρ), d.fire.2.rename ρ) := by
  unfold fire
  cases hsession : d.session? with
  | none => simp [rename, hsession]
  | some session =>
    cases hpending : session.pending with
    | none => simp [rename, hsession, SessionView.rename, hpending]
    | some pending =>
      cases hrunning : session.running with
      | true => simp [rename, hsession, SessionView.rename, hpending, hrunning]
      | false => simp [rename, hsession, SessionView.rename, Launch.rename, hpending, hrunning]

/-- Whether the run that ended is that of the session does not depend on the names. -/
theorem rename_land (ρ : Equiv.Perm SessionId) (d : DocumentState) (place : Nat)
    (report : Report) :
    (d.rename ρ).land place report = (d.land place report).rename ρ := by
  have hplace : (d.rename ρ).flights[place]? = d.flights[place]?.map (Launch.rename ρ) :=
    List.getElem?_map
  unfold land
  rw [hplace]
  cases d.flights[place]? with
  | none => rfl
  | some launch =>
    simp only [Option.map_some, rename, Option.map_map, List.eraseIdx_map, List.map_append]
    congr 1
    congr 1
    funext session
    by_cases hid : session.id = launch.session
    · simp [SessionView.rename, Launch.rename, hid]
    · simp [SessionView.rename, Launch.rename, hid]

theorem rename_publish (ρ : SessionId → SessionId) (d : DocumentState) (result : Return)
    (session : SessionView) :
    (d.rename ρ).publish (result.rename ρ) (session.rename ρ) =
      (d.publish result session).rename ρ := by
  have hpaused : (d.rename ρ).pausedAfter (session.rename ρ) result.executable
      result.report.outcome = d.pausedAfter session result.executable result.report.outcome := by
    cases result.report.outcome <;> rfl
  exact SessionView.ext rfl hpaused rfl rfl rfl rfl

/-- A result is published or dropped alike: a permutation keeps apart what is apart. -/
theorem rename_applyNext (ρ : Equiv.Perm SessionId) (d : DocumentState) (key : DocumentKey) :
    (d.rename ρ).applyNext key = ((d.applyNext key).1, (d.applyNext key).2.rename ρ) := by
  cases hresults : d.results with
  | nil => simp [applyNext, rename, hresults]
  | cons result rest =>
    have hresults' : (d.rename ρ).results = result.rename ρ :: rest.map (Return.rename ρ) := by
      simp [rename, hresults]
    -- this is the one answer that compares identities.
    by_cases halive : ∃ session, d.session? = some session ∧ session.id = result.session
    · obtain ⟨session, hsession, hid⟩ := halive
      have hsession' : (d.rename ρ).session? = some (session.rename ρ) := by
        simp [rename, hsession]
      rw [applyNext_of_alive hresults hsession hid,
        applyNext_of_alive hresults' hsession' (congrArg ρ hid), rename_publish]
      rfl
    · have hgone : ∀ session, (d.rename ρ).session? = some session →
          session.id ≠ (result.rename ρ).session := by
        intro renamed hrenamed hid
        obtain ⟨session, hsession, rfl⟩ := Option.map_eq_some_iff.mp hrenamed
        exact halive ⟨session, hsession, ρ.injective hid⟩
      rw [applyNext_of_gone hresults fun session hsession hid => halive ⟨session, hsession, hid⟩,
        applyNext_of_gone hresults' hgone]
      rfl

/-! ## §5 — no answer brings up an identity, but for the session that a request makes -/

/-- The identities of a state are those of its session, of its flights and of its results. -/
theorem mem_ids {d : DocumentState} {id : SessionId} :
    id ∈ d.ids ↔ (∃ session, d.session? = some session ∧ session.id = id) ∨
      (∃ launch ∈ d.flights, launch.session = id) ∨ ∃ result ∈ d.results, result.session = id := by
  simp [ids]

/-- A request brings up an identity only when it makes the session. -/
theorem mem_ids_request {d : DocumentState} {key : DocumentKey} {fresh id : SessionId}
    {delay : Nat} (h : id ∈ (d.request key fresh delay).ids) :
    id ∈ d.ids ∨ (d.session? = none ∧ id = fresh) := by
  have haccept : ∀ session, (d.accept key delay session).id = session.id := by
    intro session
    unfold accept
    split <;> rfl
  rw [mem_ids] at h ⊢
  rcases h with ⟨session, hsession, rfl⟩ | hrest
  · cases Option.some.inj hsession
    rw [haccept]
    cases hold : d.session? with
    | none => exact Or.inr ⟨rfl, rfl⟩
    | some old => exact Or.inl (Or.inl ⟨old, rfl, rfl⟩)
  · exact Or.inl (Or.inr hrest)

theorem ids_reconfigure (d : DocumentState) (compiler : Options) (settings : Settings) :
    (d.reconfigure compiler settings).ids = d.ids := by
  have hresume : ∀ session, (d.resume compiler session).id = session.id := by
    intro session
    unfold resume
    split <;> rfl
  unfold reconfigure ids
  cases d.session? with
  | none => rfl
  | some session => simp [hresume]

/-- A run that starts has the identity of its session. -/
theorem ids_fire_subset (d : DocumentState) :
    d.fire.2.ids ⊆ d.ids ∧ ∀ launch, d.fire.1 = some launch → launch.session ∈ d.ids := by
  unfold fire
  cases hsession : d.session? with
  | none => simp
  | some session =>
    have hmem : session.id ∈ d.ids := mem_ids.mpr (Or.inl ⟨session, hsession, rfl⟩)
    dsimp only
    cases session.pending with
    | none => simp
    | some pending =>
      -- a session with a run in flight starts none, and drops its request.
      cases session.running with
      | true => simp [ids, hsession]
      | false =>
        refine ⟨fun id hid => ?_, fun launch hlaunch => ?_⟩
        · rw [mem_ids] at hid
          simp only [Bool.false_eq_true, if_false, List.mem_append, List.mem_singleton] at hid
          rcases hid with ⟨_, hsame, rfl⟩ | ⟨launch, hold | rfl, rfl⟩ | hresult
          · cases hsame
            exact hmem
          · exact mem_ids.mpr (Or.inr (Or.inl ⟨launch, hold, rfl⟩))
          · exact hmem
          · exact mem_ids.mpr (Or.inr (Or.inr hresult))
        · cases hlaunch
          exact hmem

/-- A result has the identity of its flight. -/
theorem ids_land_subset (d : DocumentState) (place : Nat) (report : Report) :
    (d.land place report).ids ⊆ d.ids := by
  unfold land
  cases hplace : d.flights[place]? with
  | none => exact List.Subset.refl _
  | some launch =>
    intro id hid
    rw [mem_ids] at hid ⊢
    -- the session is not running any more, and the flight has become the last result.
    rcases hid with ⟨session, hsession, rfl⟩ | ⟨flight, hflight, rfl⟩ | ⟨result, hresult, rfl⟩
    · obtain ⟨old, hold, rfl⟩ := Option.map_eq_some_iff.mp hsession
      refine Or.inl ⟨old, hold, ?_⟩
      split <;> rfl
    · exact Or.inr (Or.inl ⟨flight, List.mem_of_mem_eraseIdx hflight, rfl⟩)
    · rcases List.mem_append.mp hresult with hold | hnew
      · exact Or.inr (Or.inr ⟨result, hold, rfl⟩)
      · rw [List.mem_singleton] at hnew
        subst hnew
        exact Or.inr (Or.inl ⟨launch, List.mem_of_getElem? hplace, rfl⟩)

/-- Applying a result brings up no identity. -/
theorem ids_applyNext_subset (d : DocumentState) (key : DocumentKey) :
    (d.applyNext key).2.ids ⊆ d.ids := by
  unfold applyNext
  cases hresults : d.results with
  | nil => exact List.Subset.refl _
  | cons result rest =>
    -- the result goes; the session keeps its identity.
    have hrest : ∀ id, id ∈ rest.map Return.session → id ∈ d.results.map Return.session := by
      intro id hid
      rw [hresults]
      exact List.mem_cons_of_mem _ hid
    intro id hid
    rw [ids, List.mem_append, List.mem_append]
    cases hsession : d.session? with
    | none =>
      simp only [hsession, ids] at hid
      rcases List.mem_append.mp hid with hnone | hid
      · cases hnone
      · rcases List.mem_append.mp hid with hflight | hresult
        · exact Or.inr (Or.inl hflight)
        · exact Or.inr (Or.inr (hrest id hresult))
    | some session =>
      have hparts : id ∈ [session.id] ++ (d.flights.map Launch.session ++ rest.map Return.session) := by
        simp only [hsession] at hid
        split at hid
        · exact hid
        · simpa [ids, hsession] using hid
      rcases List.mem_append.mp hparts with hown | hid
      · exact Or.inl hown
      · rcases List.mem_append.mp hid with hflight | hresult
        · exact Or.inr (Or.inl hflight)
        · exact Or.inr (Or.inr (hrest id hresult))

end DocumentState

/-- The identities that occur in a run. -/
def DocumentRun.ids (r : DocumentRun) : List SessionId :=
  r.state.ids ++ r.launches.map Launch.session

end KspWorkbench
