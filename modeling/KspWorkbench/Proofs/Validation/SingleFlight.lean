import KspWorkbench.Proofs.Validation.Moves

/-!
# One run at a time

The invariant `SingleFlight` ties the running flags, the runs in flight and the history together:
the flag of a session is set exactly while a run of it is in flight, there is never more than one,
and the runs of a session that have started are those that have ended, in the same order, followed
by the one in flight. It holds for every identity, whether its session is alive, gone or was never
made. A request whose delay ends while the flag is set is dropped, and nothing else changes.
-/

namespace KspWorkbench

namespace Service

def flightsOf (s : Service) (id : SessionId) : List Flight :=
  s.inFlight.filter (·.session = id)

def History.startsOf (L : History) (id : SessionId) : List Flight :=
  L.starts.filter (·.session = id)

def History.endsOf (L : History) (id : SessionId) : List (Flight × Report) :=
  L.ends.filter (·.1.session = id)

@[simp] theorem History.startsOf_append (L L' : History) (id : SessionId) :
    History.startsOf (L ++ L') id = L.startsOf id ++ L'.startsOf id := by
  simp [startsOf]

@[simp] theorem History.endsOf_append (L L' : History) (id : SessionId) :
    History.endsOf (L ++ L') id = L.endsOf id ++ L'.endsOf id := by
  simp [endsOf]

/-- The runs in flight after one more has started. -/
theorem flightsOf_of_started {s t : Service} {flight : Flight}
    (h : t.inFlight = s.inFlight ++ [flight]) (id : SessionId) :
    t.flightsOf id = s.flightsOf id ++ if flight.session = id then [flight] else [] := by
  rw [flightsOf, h, List.filter_append]
  simp [flightsOf, List.filter_cons]

/-- The runs in flight after those of one session have ended. -/
theorem flightsOf_of_ended {s t : Service} {ended : SessionId}
    (h : t.inFlight = s.inFlight.filter (·.session ≠ ended)) (id : SessionId) :
    t.flightsOf id = if ended = id then [] else s.flightsOf id := by
  rw [flightsOf, h, List.filter_filter]
  split
  · next hid => simp [hid]
  · next hid =>
    -- no run of this session is among those that ended.
    apply List.filter_congr
    intro flight _
    by_cases hflight : flight.session = id
    · simp [hflight, Ne.symm hid]
    · simp [hflight]

/-- The flag of a session is set exactly while a run of it is in flight; there is at most one; and
what has started has ended or is in flight. -/
structure SingleFlight (L : History) (s : Service) : Prop where
  flag : ∀ id, id ∈ s.running ↔ s.flightsOf id ≠ []
  unique : ∀ id, (s.flightsOf id).length ≤ 1
  balance : ∀ id, L.startsOf id = (L.endsOf id).map Prod.fst ++ s.flightsOf id

/-- A session whose flag is not set has no run in flight. -/
theorem SingleFlight.flightsOf_eq_nil {L : History} {s : Service} (h : SingleFlight L s)
    {id : SessionId} (hidle : id ∉ s.running) : s.flightsOf id = [] :=
  Decidable.byContradiction fun hne => hidle ((h.flag id).mpr hne)

/-- A run in flight is the only one of its session. -/
theorem SingleFlight.flightsOf_eq_singleton {L : History} {s : Service} (h : SingleFlight L s)
    {flight : Flight} (hmem : flight ∈ s.inFlight) : s.flightsOf flight.session = [flight] := by
  have hin : flight ∈ s.flightsOf flight.session := List.mem_filter.mpr ⟨hmem, by simp⟩
  have hlen : (s.flightsOf flight.session).length = 1 :=
    Nat.le_antisymm (h.unique _) (List.length_pos_of_mem hin)
  obtain ⟨other, hother⟩ := List.length_eq_one_iff.mp hlen
  rw [hother, List.mem_singleton] at hin
  rw [hother, hin]

theorem singleFlight_create (compiler : Options) (settings : Settings) :
    SingleFlight [] (create compiler settings) := by
  have hrunning : (create compiler settings).running = [] := rfl
  have hflight : ∀ id, (create compiler settings).flightsOf id = [] := fun _ => rfl
  exact ⟨fun id => by simp [hrunning, hflight], fun id => by simp [hflight], fun _ => rfl⟩

/-- A run starts only when the flag of its session is clear, and then sets it. -/
theorem singleFlight_of_started {L E : History} {s t : Service} (h : SingleFlight L s)
    {flight : Flight} (hidle : flight.session ∉ s.running)
    (hrunning : t.running = flight.session :: s.running)
    (hflight : t.inFlight = s.inFlight ++ [flight])
    (hstarts : E.starts = [flight]) (hends : E.ends = []) : SingleFlight (L ++ E) t := by
  -- the flag was not set, so the new run is the only one of its session.
  have hempty := h.flightsOf_eq_nil hidle
  have hstartsOf : ∀ id, E.startsOf id = if flight.session = id then [flight] else [] := by
    intro id
    rw [History.startsOf, hstarts]
    simp [List.filter_cons]
  have hendsOf : ∀ id, E.endsOf id = [] := fun id => by rw [History.endsOf, hends]; rfl
  refine ⟨fun id => ?_, fun id => ?_, fun id => ?_⟩
  all_goals rw [flightsOf_of_started hflight]
  · rw [hrunning, List.mem_cons, h.flag]
    by_cases hid : flight.session = id
    · simp [hid]
    · simp [hid, Ne.symm hid]
  · by_cases hid : flight.session = id
    · subst hid
      simp [hempty]
    · simpa [hid] using h.unique id
  · rw [History.startsOf_append, History.endsOf_append, h.balance, hstartsOf, hendsOf,
      List.append_nil, List.append_assoc]

/-- A run that ends clears the flag of its session, whose only run it was. -/
theorem singleFlight_of_ended {L E : History} {s t : Service} (h : SingleFlight L s)
    {flight : Flight} {report : Report} (hmem : flight ∈ s.inFlight)
    (hrunning : t.running = s.running.filter (· ≠ flight.session))
    (hflight : t.inFlight = s.inFlight.filter (·.session ≠ flight.session))
    (hstarts : E.starts = []) (hends : E.ends = [(flight, report)]) :
    SingleFlight (L ++ E) t := by
  have hsingle := h.flightsOf_eq_singleton hmem
  have hstartsOf : ∀ id, E.startsOf id = [] := fun id => by rw [History.startsOf, hstarts]; rfl
  have hendsOf : ∀ id,
      E.endsOf id = if flight.session = id then [(flight, report)] else [] := by
    intro id
    rw [History.endsOf, hends]
    simp [List.filter_cons]
  refine ⟨fun id => ?_, fun id => ?_, fun id => ?_⟩
  all_goals rw [flightsOf_of_ended hflight]
  · rw [hrunning, List.mem_filter, h.flag]
    by_cases hid : flight.session = id
    · simp [hid]
    · simp [hid, Ne.symm hid]
  · by_cases hid : flight.session = id
    · simp [hid]
    · simpa [hid] using h.unique id
  -- the run moves from the end of one list to the end of the other.
  · rw [History.startsOf_append, History.endsOf_append, h.balance, hstartsOf, hendsOf]
    by_cases hid : flight.session = id
    · subst hid
      simp [hsingle]
    · simp [hid]

/-- Every move keeps flags, flights and history together. -/
theorem singleFlight_play {L : History} {s : Service} (h : SingleFlight L s) (m : Move) :
    SingleFlight (L ++ s.emits m) (s.play m) := by
  cases flightChange_play s m with
  | none hrunning hflight hstarts hends =>
    have hsame : ∀ id, (s.play m).flightsOf id = s.flightsOf id := fun id => by
      rw [flightsOf, hflight, flightsOf]
    refine ⟨fun id => ?_, fun id => ?_, fun id => ?_⟩
    all_goals rw [hsame]
    · rw [hrunning, h.flag]
    · exact h.unique id
    · rw [History.startsOf_append, History.endsOf_append, h.balance]
      simp [History.startsOf, History.endsOf, hstarts, hends]
  | started _ _ flight _ _ _ _ hidle hrunning hflight hstarts hends =>
    exact singleFlight_of_started h hidle hrunning hflight hstarts hends
  | ended flight report hmem hrunning hflight hstarts hends =>
    exact singleFlight_of_ended h hmem hrunning hflight hstarts hends

/-- **One run at a time**, after any actions. -/
theorem singleFlight_performAll (compiler : Options) (settings : Settings)
    (actions : List Action) :
    SingleFlight ((create compiler settings).history actions)
      ((create compiler settings).performAll actions) :=
  history_induction (singleFlight_create compiler settings)
    (fun _ _ m h => singleFlight_play h m) actions

/-! ## A request that fires while the flag is set -/

/-- The request is taken from the gate, and that is all. -/
theorem fire_of_running {s : Service} {key : DocumentKey} {session : Session}
    {waiting : Waiting Plan} (hget : s.registry.get? key = some session)
    (hwait : session.gate.waiting = some waiting) (hrunning : session.id ∈ s.running) :
    s.fire key = (none, s.setGate key session.gate.cancel) := by
  simp [fire, hget, Gate.take, hwait, hrunning, setGate]

/-- Replacing a gate touches no diagnostics. -/
theorem diagnostics_setGate (s : Service) (key other : DocumentKey) (gate : Gate Plan) :
    (s.setGate key gate).diagnostics other = s.diagnostics other := by
  rw [diagnostics, Registry.published, get?_setGate, diagnostics, Registry.published]
  split
  · cases s.registry.get? other <;> rfl
  · rfl

/-- Nor does it touch what a session is doing. -/
theorem sessionState?_setGate (s : Service) (key other : DocumentKey) (gate : Gate Plan) :
    (s.setGate key gate).sessionState? other = s.sessionState? other := by
  rw [sessionState?, get?_setGate, sessionState?]
  split
  · cases s.registry.get? other <;> rfl
  · rfl

theorem isPaused_setGate (s : Service) (key other : DocumentKey) (gate : Gate Plan) :
    (s.setGate key gate).isPaused other = s.isPaused other := by
  rw [isPaused, get?_setGate, isPaused]
  split
  · cases s.registry.get? other <;> rfl
  · rfl

/-- **Single flight.** Whatever happens to a service and in whatever order, and for every identity:
at most one run of the session is in flight, its flag is set exactly while one is, and the runs that
have started are those that have ended and the one in flight. If the delay of a request ends while
the flag is set, no run starts and the request is dropped; the flags, the runs in flight and, for
every document, the diagnostics and the pause are as before. -/
theorem single_flight (compiler : Options) (settings : Settings) (actions : List Action)
    (id : SessionId) :
    let s := (create compiler settings).performAll actions
    let L := (create compiler settings).history actions
    (s.flightsOf id).length ≤ 1 ∧
    (id ∈ s.running ↔ s.flightsOf id ≠ []) ∧
    L.startsOf id = (L.endsOf id).map Prod.fst ++ s.flightsOf id ∧
    ∀ key session waiting, s.registry.get? key = some session → session.id = id →
      session.gate.waiting = some waiting → id ∈ s.running →
      (s.fire key).1 = none ∧
      (s.fire key).2 = s.setGate key session.gate.cancel ∧
      (s.fire key).2.running = s.running ∧
      (s.fire key).2.inFlight = s.inFlight ∧
      ∀ other, (s.fire key).2.diagnostics other = s.diagnostics other ∧
        (s.fire key).2.isPaused other = s.isPaused other ∧
        (s.fire key).2.sessionState? other = s.sessionState? other := by
  intro s L
  have h : SingleFlight L s := singleFlight_performAll compiler settings actions
  refine ⟨h.unique id, h.flag id, h.balance id, ?_⟩
  intro key session waiting hget hid hwait hrunning
  rw [← hid] at hrunning
  rw [fire_of_running hget hwait hrunning]
  refine ⟨rfl, rfl, rfl, rfl, ?_⟩
  intro other
  exact ⟨diagnostics_setGate s key other _, isPaused_setGate s key other _,
    sessionState?_setGate s key other _⟩

/-- A request whose delay ends while the run of an earlier one is in flight. -/
theorem second_request_dropped :
    let key : DocumentKey := ⟨"a.ksp"⟩
    let settings : Settings := { filePatterns := [] }
    let actions : List Action := [.validate key 0, .fire key, .validate key 500]
    let s := (create {} settings).performAll actions
    ∃ session waiting, s.registry.get? key = some session ∧
      session.gate.waiting = some waiting ∧ session.id ∈ s.running ∧
      (s.flightsOf session.id).length ≤ 1 ∧ (s.fire key).1 = none ∧
      (s.fire key).2.inFlight = s.inFlight := by
  intro key settings actions s
  have hbusy : (s.registry.get? key).any
      (fun session => session.gate.waiting.isSome && decide (session.id ∈ s.running)) = true := by
    decide
  obtain ⟨session, hget, hbusy⟩ := (Option.any_eq_true _ _).mp hbusy
  obtain ⟨hwaits, hrunning⟩ := Bool.and_eq_true_iff.mp hbusy
  obtain ⟨waiting, hwait⟩ := Option.isSome_iff_exists.mp hwaits
  obtain ⟨hunique, -, -, hfire⟩ := single_flight {} settings actions session.id
  obtain ⟨hnone, -, -, hflight, -⟩ :=
    hfire key session waiting hget rfl hwait (of_decide_eq_true hrunning)
  exact ⟨session, waiting, hget, hwait, of_decide_eq_true hrunning, hunique, hnone, hflight⟩

end Service

end KspWorkbench
