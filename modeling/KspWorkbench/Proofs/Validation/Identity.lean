import KspWorkbench.Proofs.Validation.Moves

/-!
# The identity of sessions

Identities are handed out once: every session has one below the counter, and no two documents share
one (`Registry.Distinct`). A session that has been disposed of is `Gone`: its identity is used up
and nobody carries it. It stays gone whatever happens, because new sessions get larger identities;
so nothing is started for it any more, and results that still come in for it are dropped, even
after its document has been opened again.
-/

namespace KspWorkbench

/-- No two documents have sessions of one identity, and all identities have been handed out. -/
structure Registry.Distinct (r : Registry) : Prop where
  unique : ∀ {key key' : DocumentKey} {session session' : Session}, r.get? key = some session →
    r.get? key' = some session' → session.id = session'.id → key = key'
  bounded : ∀ {key : DocumentKey} {session : Session}, r.get? key = some session →
    session.id ≤ r.lastId

/-- The next identity is nobody's. -/
theorem Registry.Distinct.id_ne_next {r : Registry} (h : r.Distinct) {key : DocumentKey}
    {session : Session} (hget : r.get? key = some session) : session.id ≠ r.lastId + 1 :=
  Nat.ne_of_lt (Nat.lt_succ_of_le (h.bounded hget))

namespace Service

/-! ## §1 — identities across a move -/

/-- A session was there before the move, with the same identity and, unless a result was applied,
the same diagnostics; or a request has just made it, its identity is the next one and it is empty. -/
theorem Origin.old_or_new {s : Service} {key : DocumentKey} {m : Move} {session : Session}
    (h : Origin s key m session) :
    (∃ old, s.registry.get? key = some old ∧ old.id = session.id ∧
      (m ≠ .applyNext → old.diagnostics = session.diagnostics)) ∨
    (s.registry.get? key = none ∧ session.id = s.registry.lastId + 1 ∧ session.diagnostics = [] ∧
      ∃ delay, m = .request key delay) := by
  cases h with
  | kept hget _ => exact Or.inl ⟨session, hget, rfl, fun _ => rfl⟩
  | requested delay =>
    -- the session that answers a request is the one that was there, or a new one.
    rw [id_sessionAfterRequest, diagnostics_sessionAfterRequest]
    cases hget : s.registry.get? key with
    | some old =>
      rw [Registry.getOrCreate_of_some hget]
      exact Or.inl ⟨old, rfl, rfl, fun _ => rfl⟩
    | none =>
      rw [Registry.getOrCreate_of_none hget]
      exact Or.inr ⟨rfl, rfl, rfl, delay, rfl⟩
  | reconfigured hget => exact Or.inl ⟨_, hget, by simp, by simp⟩
  | fired hget => exact Or.inl ⟨_, hget, rfl, fun _ => rfl⟩
  | published _ _ hget _ => exact Or.inl ⟨_, hget, rfl, fun hm => absurd rfl hm⟩

/-- The counter of identities never goes back. -/
theorem lastId_le_play (s : Service) (m : Move) :
    s.registry.lastId ≤ (s.play m).registry.lastId := by
  cases m with
  | reconfigure compiler settings => exact Nat.le_of_eq (lastId_reconfigure s compiler settings).symm
  | request key delay =>
    rw [play, lastId_validate]
    split
    · exact Nat.le_refl _
    · exact Nat.le_succ _
  | fire key => exact Nat.le_of_eq (lastId_fire s key).symm
  | complete id report =>
    exact Nat.le_of_eq (by rw [play, complete_frame])
  | applyNext => exact Nat.le_of_eq (lastId_applyNext s).symm
  | _ => exact Nat.le_refl _

/-! ## §2 — identities are handed out once -/

/-- Every move keeps the identities of sessions apart. -/
theorem distinct_play {s : Service} (h : s.registry.Distinct) (m : Move) :
    (s.play m).registry.Distinct where
  unique := by
    intro key key' session session' hget hget' hid
    rcases (origin_of_get?_play hget).old_or_new with
      ⟨old, hold, hold_id, -⟩ | ⟨-, hnew, -, delay, hm⟩ <;>
      rcases (origin_of_get?_play hget').old_or_new with
        ⟨old', hold', hold_id', -⟩ | ⟨-, hnew', -, delay', hm'⟩
    · exact h.unique hold hold' (by rw [hold_id, hold_id', hid])
    -- an old identity is below the counter and a new one above it.
    · exact absurd (by rw [hold_id, hid, hnew']) (h.id_ne_next hold)
    · exact absurd (by rw [hold_id', ← hid, hnew]) (h.id_ne_next hold')
    -- a request makes one session only.
    · rw [hm] at hm'
      exact (Move.request.inj hm').1
  bounded := by
    intro key session hget
    rcases (origin_of_get?_play hget).old_or_new with
      ⟨old, hold, hold_id, -⟩ | ⟨hnone, hnew, -, delay, hm⟩
    · rw [← hold_id]
      exact Nat.le_trans (h.bounded hold) (lastId_le_play s m)
    · subst hm
      have hlast : (s.play (.request key delay)).registry.lastId = s.registry.lastId + 1 := by
        rw [play, lastId_validate, hnone]
        rfl
      exact Nat.le_of_eq (hnew.trans hlast.symm)

theorem registry_create (compiler : Options) (settings : Settings) :
    (create compiler settings).registry = {} :=
  rfl

theorem distinct_create (compiler : Options) (settings : Settings) :
    (create compiler settings).registry.Distinct := by
  rw [registry_create]
  refine ⟨?_, ?_⟩
  · intro key key' session session' hget
    cases hget
  · intro key session hget
    cases hget

/-- **Identities are handed out once**, whatever happens to a service. -/
theorem distinct_performAll (compiler : Options) (settings : Settings) (actions : List Action) :
    ((create compiler settings).performAll actions).registry.Distinct :=
  history_induction (motive := fun _ s => s.registry.Distinct) (distinct_create compiler settings)
    (fun _ _ m h => distinct_play h m) actions

/-! ## §3 — a session that is gone stays gone -/

/-- The identity has been handed out, and no session carries it any more. -/
structure Gone (s : Service) (id : SessionId) : Prop where
  used : id ≤ s.registry.lastId
  absent : ∀ key session, s.registry.get? key = some session → session.id ≠ id

/-- A session that is gone stays gone: its identity is used up. -/
theorem gone_play {s : Service} {id : SessionId} (h : s.Gone id) (m : Move) :
    (s.play m).Gone id where
  used := Nat.le_trans h.used (lastId_le_play s m)
  absent := by
    intro key session hget
    rcases (origin_of_get?_play hget).old_or_new with ⟨old, hold, hold_id, -⟩ | ⟨-, hnew, -⟩
    · rw [← hold_id]
      exact h.absent key old hold
    · rw [hnew]
      exact Nat.ne_of_gt (Nat.lt_succ_of_le h.used)

/-- Nothing starts for a session that is gone: what starts belongs to a session in the registry. -/
theorem starts_ne_of_gone {s : Service} {id : SessionId} (h : s.Gone id) (m : Move) :
    ∀ flight ∈ (s.emits m).starts, flight.session ≠ id := by
  intro flight hflight
  obtain ⟨session, hget, hid⟩ := owner_of_start hflight
  rw [← hid]
  exact h.absent _ session hget

/-- A result of a session that is gone is dropped and leaves no trace. -/
theorem applyResult_of_gone {s : Service} {r : RunResult} (h : s.Gone r.session) :
    s.applyResult r = (none, s) := by
  have hcur : s.registry.current? r.document r.session = none :=
    Registry.current?_eq_none_iff.mpr (h.absent r.document)
  rw [applyResult, hcur]

/-- Taking such a result from the queue changes the queue and nothing else. -/
theorem applyNext_of_gone {s : Service} {r : RunResult} {rest : List RunResult}
    (hready : s.results.ready = r :: rest) (h : s.Gone r.session) :
    s.applyNext = (some none, s.dropResult) := by
  rcases applyNext_of_ready hready with ⟨-, hnext⟩ | ⟨session, hget, hid, -⟩
  · exact hnext
  · exact absurd hid (h.absent _ session hget)

/-- **A session that is gone stays gone**, and nothing starts for it on the way. -/
theorem gone_performAll {s : Service} {id : SessionId} (h : s.Gone id) (actions : List Action) :
    (s.performAll actions).Gone id ∧
    ∀ flight ∈ (s.history actions).starts, flight.session ≠ id := by
  refine history_induction
    (motive := fun L t => t.Gone id ∧ ∀ flight ∈ L.starts, flight.session ≠ id)
    ⟨h, fun _ hmem => by cases hmem⟩ ?_ actions
  -- the record is split into what was there and what the move adds.
  rintro L t m ⟨hgone, hlog⟩
  refine ⟨gone_play hgone m, ?_⟩
  intro flight hmem
  rw [History.starts_append, List.mem_append] at hmem
  rcases hmem with hold | hnew
  · exact hlog flight hold
  · exact starts_ne_of_gone hgone m flight hnew

/-! ## §4 — disposal -/

/-- Closing a document, or shutting down, disposes of its session. -/
theorem gone_of_disposal {s : Service} (hdistinct : s.registry.Distinct) {key : DocumentKey}
    {session : Session} (halive : s.registry.get? key = some session) {disposal : Action}
    (hdisposal : disposal = .handle (.closed key) ∨ disposal = .shutdown) :
    (s.perform disposal).Gone session.id := by
  have hused := hdistinct.bounded halive
  rcases hdisposal with rfl | rfl
  · refine ⟨hused, ?_⟩
    intro other session' hget hid
    -- a session left over belongs to another document, and identities are distinct.
    rw [show (s.perform (.handle (.closed key))).registry = s.registry.dispose key from rfl,
      Registry.get?_dispose] at hget
    split at hget
    · cases hget
    · next hne => exact hne (hdistinct.unique hget halive hid)
  · refine ⟨hused, ?_⟩
    intro other session' hget
    rw [show (s.perform .shutdown).registry = s.registry.disposeAll from rfl,
      Registry.get?_disposeAll] at hget
    cases hget

/-- **Disposed sessions are dead.** Once a session has been disposed of, by closing its document or
by a shutdown, no run starts for it, whatever happens afterwards; and its results, queued before or
coming in later, are dropped: applying one gives no summary and leaves the service as it is, and
taking one from the queue changes the queue only. -/
theorem disposed_session_dead (compiler : Options) (settings : Settings)
    (before later : List Action) (key : DocumentKey) (session : Session) (disposal : Action)
    (halive : ((create compiler settings).performAll before).registry.get? key = some session)
    (hdisposal : disposal = .handle (.closed key) ∨ disposal = .shutdown) :
    let disposed := ((create compiler settings).performAll before).perform disposal
    let s := disposed.performAll later
    (∀ flight ∈ (disposed.history later).starts, flight.session ≠ session.id) ∧
    (∀ r : RunResult, r.session = session.id → s.applyResult r = (none, s)) ∧
    (∀ r rest, s.results.ready = r :: rest → r.session = session.id →
      s.applyNext = (some none, s.dropResult)) := by
  intro disposed s
  -- after the disposal the session is gone, and from there on only this is needed.
  have hgone : disposed.Gone session.id :=
    gone_of_disposal (distinct_performAll compiler settings before) halive hdisposal
  obtain ⟨hlater, hstarts⟩ := gone_performAll hgone later
  refine ⟨hstarts, ?_, ?_⟩
  · intro r hr
    rw [← hr] at hlater
    exact applyResult_of_gone hlater
  · intro r rest hready hr
    rw [← hr] at hlater
    exact applyNext_of_gone hready hlater

/-- A document is closed while its run is in flight and validated again before that run ends: the
late result is queued beside a new session, and still belongs to nobody. -/
theorem closed_session_dead_beside_new_session :
    let key : DocumentKey := ⟨"a.ksp"⟩
    let settings : Settings := { filePatterns := [] }
    let late : Report := ⟨.exited 1, [], [⟨.compileFailed 1, some key, "late"⟩]⟩
    let before : List Action := [.validate key 0, .fire key]
    let later : List Action := [.validate key 0, .fire key, .complete 1 late]
    let session : Session := { id := 1, lastExecutable := some "python" }
    let disposed := ((create {} settings).performAll before).perform (.handle (.closed key))
    let s := disposed.performAll later
    ((create {} settings).performAll before).registry.get? key = some session ∧
    (s.registry.get? key).map Session.id = some 2 ∧
    s.results.ready.map RunResult.session = [1] ∧
    (∀ flight ∈ (disposed.history later).starts, flight.session ≠ session.id) ∧
    (∀ r : RunResult, r.session = session.id → s.applyResult r = (none, s)) ∧
    (∀ r rest, s.results.ready = r :: rest → r.session = session.id →
      s.applyNext = (some none, s.dropResult)) := by
  intro key settings late before later session
  have halive : ((create {} settings).performAll before).registry.get? key = some session := by
    decide
  refine ⟨halive, by decide, by decide, ?_⟩
  exact disposed_session_dead {} settings before later key session (.handle (.closed key)) halive
    (Or.inl rfl)

end Service

end KspWorkbench
