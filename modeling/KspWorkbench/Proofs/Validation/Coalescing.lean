import KspWorkbench.Proofs.Validation.Identity
import Mathlib.Data.List.Induction

/-!
# The request behind a run

A request waits at the gate of its session until its delay is over, until another request takes its
place, or until the session is gone. What it asks for is fixed when it is made. So a run goes back to
one request: the last one that its session accepted before the run started, as it was when the
options of that time were in force.

* **`waits_play`** — where the request that waits at a session comes from after a move.
* **`Requested`** — the moves lead to a request of a session, and after it the session neither
  accepted another one nor started a run.
* **`coalesced_snapshot`** — every run that starts was `Requested`, and no request starts two.
-/

namespace KspWorkbench

namespace Service

/-! ## §1 — requests in a history -/

/-- The session that accepted a request or started a run. -/
def Event.scheduled? : Event → Option SessionId
  | .requested session _ _ _ => some session
  | .started flight => some flight.session
  | _ => none

def Event.accepted? : Event → Option Plan
  | .requested _ _ _ plan => some plan
  | _ => none

def History.accepted (L : History) : List Plan :=
  L.filterMap Event.accepted?

@[simp] theorem History.accepted_append (L L' : History) :
    History.accepted (L ++ L') = L.accepted ++ L'.accepted :=
  List.filterMap_append

/-- A request is accepted unless its session is paused. -/
theorem validate_fst (s : Service) (key : DocumentKey) (delay : Nat) :
    (s.validate key delay).1 = !(s.registry.getOrCreate key).1.paused := by
  unfold validate
  simp only
  split
  · next hpaused => rw [hpaused]; rfl
  · next hpaused => simp [hpaused]

theorem ticket_plan (s : Service) (key : DocumentKey) : (s.plan key).ticket = s.tickets + 1 :=
  rfl

/-- A ticket is handed out when a request is accepted, and only then. -/
theorem tickets_validate (s : Service) (key : DocumentKey) (delay : Nat) :
    (s.validate key delay).2.tickets =
      if (s.validate key delay).1 then s.tickets + 1 else s.tickets := by
  unfold validate
  simp only
  split <;> rfl

/-- Only requests count. -/
theorem tickets_play {s : Service} {m : Move} (hm : ∀ key delay, m ≠ .request key delay) :
    (s.play m).tickets = s.tickets := by
  cases m with
  | reconfigure compiler settings => exact (reconfigure_frame s compiler settings).2.2.2.1
  | request key delay => exact absurd rfl (hm key delay)
  | fire key => rw [play, fire_frame]
  | complete id report => rw [play, complete_frame]
  | applyNext => rw [play, applyNext_frame]
  | _ => rfl

/-- A move that is neither a request nor the end of a delay schedules nothing. -/
theorem scheduled?_emits {s : Service} {m : Move} (hrequest : ∀ key delay, m ≠ .request key delay)
    (hfire : ∀ key, m ≠ .fire key) : ∀ event ∈ s.emits m, event.scheduled? = none := by
  intro event hmem
  cases eventOf_of_mem hmem with
  | requested => exact absurd rfl (hrequest _ _)
  | started => exact absurd rfl (hfire _)
  | ended => rfl
  | taken => rfl

/-- **Requests are counted.** A move accepts no request, or one whose number is the next. -/
theorem accepted_cases (s : Service) (m : Move) :
    ((s.emits m).accepted = [] ∧ (s.play m).tickets = s.tickets) ∨
    ∃ plan, (s.emits m).accepted = [plan] ∧ plan.ticket = s.tickets + 1 ∧
      (s.play m).tickets = s.tickets + 1 := by
  cases m with
  | request key delay =>
    rw [emits, play, tickets_validate]
    split
    · exact Or.inr ⟨s.plan key, rfl, rfl, rfl⟩
    · exact Or.inl ⟨rfl, rfl⟩
  | _ =>
    left
    refine ⟨List.filterMap_eq_nil_iff.mpr fun event hmem => ?_, tickets_play (by simp)⟩
    cases eventOf_of_mem hmem <;> rfl

/-! ## §2 — the request that waits at a session -/

/-- The request that waits at the session of a document. -/
def Waits (s : Service) (key : DocumentKey) (id : SessionId) (plan : Plan) : Prop :=
  ∃ session waiting, s.registry.get? key = some session ∧ session.id = id ∧
    session.gate.waiting = some waiting ∧ waiting.task = plan

/-- Where the request that waits comes from after a move: it has just been accepted, or it waited
before and the move scheduled nothing for its session. -/
inductive WaitsOrigin (s : Service) (key : DocumentKey) (id : SessionId) (plan : Plan) :
    Move → Prop where
  | accepted {delay : Nat} (haccepted : (s.validate key delay).1 = true)
      (hid : (s.registry.getOrCreate key).1.id = id) (hplan : plan = s.plan key) :
      WaitsOrigin s key id plan (.request key delay)
  | waited {m : Move} (hwaits : s.Waits key id plan)
      (hother : ∀ event ∈ s.emits m, event.scheduled? ≠ some id) : WaitsOrigin s key id plan m

/-- A session that a request is made to is that of its document or a new one. -/
theorem getOrCreate_id_ne {s : Service} (hdistinct : s.registry.Distinct) {key other : DocumentKey}
    (hkey : key ≠ other) {session : Session} (hget : s.registry.get? key = some session) :
    (s.registry.getOrCreate other).1.id ≠ session.id := by
  cases hother : s.registry.get? other with
  | none =>
    rw [Registry.getOrCreate_of_none hother]
    exact (hdistinct.id_ne_next hget).symm
  | some session' =>
    rw [Registry.getOrCreate_of_some hother]
    intro hid
    exact hkey (hdistinct.unique hget hother hid.symm)

/-- What waits after a request is the request itself, or waited before at another session. -/
theorem waits_request {s : Service} (hdistinct : s.registry.Distinct) {key key' : DocumentKey}
    {delay : Nat} {id : SessionId} {plan : Plan}
    (h : (s.play (.request key' delay)).Waits key id plan) :
    WaitsOrigin s key id plan (.request key' delay) := by
  obtain ⟨session, waiting, hget, rfl, hwaiting, rfl⟩ := h
  rw [play, get?_validate] at hget
  by_cases hkey : key = key'
  · subst hkey
    rw [if_pos rfl] at hget
    cases hget
    cases hpaused : (s.registry.getOrCreate key).1.paused with
    | true =>
      -- a paused session refuses, so nothing has changed.
      have hrefused : (s.validate key delay).1 = false := by rw [validate_fst, hpaused]; rfl
      have hsame : s.registry.get? key = some (s.sessionAfterRequest key delay) :=
        sessionAfterRequest_of_paused (by rw [paused_sessionAfterRequest, hpaused])
      refine .waited ⟨_, waiting, hsame, rfl, hwaiting, rfl⟩ ?_
      intro event hmem
      rw [emits, hrefused] at hmem
      cases hmem
    | false =>
      have haccepted : (s.validate key delay).1 = true := by rw [validate_fst, hpaused]; rfl
      refine .accepted haccepted (id_sessionAfterRequest s key delay).symm ?_
      simp only [sessionAfterRequest, hpaused, Gate.trigger] at hwaiting
      cases hwaiting
      rfl
  · rw [if_neg hkey] at hget
    refine .waited ⟨session, waiting, hget, rfl, hwaiting, rfl⟩ ?_
    intro event hmem
    cases eventOf_of_mem hmem with
    | requested =>
      intro hid
      exact getOrCreate_id_ne hdistinct hkey hget (Option.some.inj hid)

/-- What waits after a delay has ended at one session waited before at another one. -/
theorem waits_fire {s : Service} (hdistinct : s.registry.Distinct) {key key' : DocumentKey}
    {id : SessionId} {plan : Plan} (h : (s.play (.fire key')).Waits key id plan) :
    WaitsOrigin s key id plan (.fire key') := by
  obtain ⟨session, waiting, hget, rfl, hwaiting, rfl⟩ := h
  rw [play] at hget
  rcases fire_cases s key' with hnone | ⟨owner, waiting', howner, -, hrest⟩
  · rw [hnone] at hget
    refine .waited ⟨session, waiting, hget, rfl, hwaiting, rfl⟩ ?_
    simp [emits, hnone]
  · -- dropped or started, nothing waits any more at the session whose delay is over.
    have hgate : (s.setGate key' owner.gate.cancel).registry.get? key = some session := by
      rcases hrest with ⟨-, hfire⟩ | ⟨-, hfire⟩ <;> rw [hfire] at hget <;> exact hget
    rw [get?_setGate] at hgate
    by_cases hkey : key = key'
    · subst hkey
      rw [if_pos rfl, howner] at hgate
      cases hgate
      cases hwaiting
    · rw [if_neg hkey] at hgate
      refine .waited ⟨session, waiting, hgate, rfl, hwaiting, rfl⟩ ?_
      intro event hmem hid
      rcases hrest with ⟨-, hfire⟩ | ⟨-, hfire⟩
      · rw [emits, hfire] at hmem
        cases hmem
      · rw [emits, hfire] at hmem
        rw [List.mem_singleton.mp hmem] at hid
        exact hkey (hdistinct.unique hgate howner (Option.some.inj hid).symm)

/-- The other moves leave the gate of every session. -/
theorem Origin.exists_gate {s : Service} {key : DocumentKey} {m : Move} {session : Session}
    (h : Origin s key m session) (hrequest : ∀ delay, m ≠ .request key delay)
    (hfire : m ≠ .fire key) :
    ∃ old, s.registry.get? key = some old ∧ old.id = session.id ∧ old.gate = session.gate := by
  cases h with
  | kept hget _ => exact ⟨session, hget, rfl, rfl⟩
  | requested delay => exact absurd rfl (hrequest delay)
  | reconfigured hget =>
    refine ⟨_, hget, by simp, ?_⟩
    unfold sessionAfterReconfigure
    split <;> rfl
  | fired _ => exact absurd rfl hfire
  | published _ _ hget _ => exact ⟨_, hget, rfl, rfl⟩

/-- **Where the request that waits at a session comes from.** -/
theorem waits_play {s : Service} (hdistinct : s.registry.Distinct) {m : Move} {key : DocumentKey}
    {id : SessionId} {plan : Plan} (h : (s.play m).Waits key id plan) :
    WaitsOrigin s key id plan m := by
  -- requests and the ends of delays are the only moves that touch a gate.
  by_cases hrequest : ∃ key' delay, m = .request key' delay
  · obtain ⟨key', delay, rfl⟩ := hrequest
    exact waits_request hdistinct h
  by_cases hfire : ∃ key', m = .fire key'
  · obtain ⟨key', rfl⟩ := hfire
    exact waits_fire hdistinct h
  have hrequest' : ∀ key' delay, m ≠ .request key' delay :=
    fun key' delay hm => hrequest ⟨key', delay, hm⟩
  have hfire' : ∀ key', m ≠ .fire key' := fun key' hm => hfire ⟨key', hm⟩
  obtain ⟨session, waiting, hget, rfl, hwaiting, rfl⟩ := h
  obtain ⟨old, hold, hid, hgate⟩ :=
    (origin_of_get?_play hget).exists_gate (hrequest' key) (hfire' key)
  rw [← hgate] at hwaiting
  refine .waited ⟨old, waiting, hold, hid, hwaiting, rfl⟩ ?_
  intro event hmem
  rw [scheduled?_emits hrequest' hfire' event hmem]
  simp

/-- A run starts because its request waits at the session of its document. -/
theorem waits_of_start {s : Service} {m : Move} {flight : Flight}
    (h : flight ∈ (s.emits m).starts) :
    m = .fire flight.document ∧ (s.fire flight.document).1 = some flight ∧
      s.Waits flight.document flight.session flight.plan := by
  obtain ⟨event, hevent, hstarted⟩ := List.mem_filterMap.mp h
  cases eventOf_of_mem hevent with
  | @started key _ hfired =>
    cases hstarted
    -- the request that was waiting is the one that starts.
    rcases fire_cases s key with hnone | ⟨session, waiting, hget, hwaiting, hrest⟩
    · rw [hnone] at hfired
      cases hfired
    · rcases hrest with ⟨-, hfire⟩ | ⟨-, hfire⟩
      · rw [hfire] at hfired
        cases hfired
      · have hflight := hfired
        rw [hfire] at hflight
        cases hflight
        exact ⟨rfl, hfired, session, waiting, hget, rfl, hwaiting, rfl⟩
  | _ => cases hstarted

/-! ## §3 — the request goes back to a call -/

/-- The moves lead from `s₀` to a request that the session `id` of `key` accepts and that asks for
`plan`; after it, the session accepts no other request and starts no run. -/
def Requested (s₀ : Service) (moves : List Move) (key : DocumentKey) (id : SessionId)
    (plan : Plan) : Prop :=
  ∃ early delay late, moves = early ++ .request key delay :: late ∧
    ((s₀.playAll early).validate key delay).1 = true ∧
    ((s₀.playAll early).registry.getOrCreate key).1.id = id ∧
    plan = (s₀.playAll early).plan key ∧
    ∀ event ∈ ((s₀.playAll early).play (.request key delay)).log late,
      event.scheduled? ≠ some id

theorem playAll_concat (s : Service) (ms : List Move) (m : Move) :
    s.playAll (ms ++ [m]) = (s.playAll ms).play m :=
  playAll_append s ms [m]

theorem log_concat (s : Service) (ms : List Move) (m : Move) :
    s.log (ms ++ [m]) = s.log ms ++ (s.playAll ms).emits m := by
  rw [log_append]
  simp [log]

/-- A request that is accepted is the latest one of its session. -/
theorem requested_concat {s₀ : Service} {ms : List Move} {key : DocumentKey} {delay : Nat}
    (haccepted : ((s₀.playAll ms).validate key delay).1 = true) :
    Requested s₀ (ms ++ [.request key delay]) key ((s₀.playAll ms).registry.getOrCreate key).1.id
      ((s₀.playAll ms).plan key) :=
  ⟨ms, delay, [], rfl, haccepted, rfl, rfl, by simp [log]⟩

/-- The latest request stays so as long as nothing else is scheduled for its session. -/
theorem Requested.concat {s₀ : Service} {ms : List Move} {key : DocumentKey} {id : SessionId}
    {plan : Plan} (h : Requested s₀ ms key id plan) {m : Move}
    (hother : ∀ event ∈ (s₀.playAll ms).emits m, event.scheduled? ≠ some id) :
    Requested s₀ (ms ++ [m]) key id plan := by
  obtain ⟨early, delay, late, rfl, haccepted, hid, hplan, hlate⟩ := h
  refine ⟨early, delay, late ++ [m], by simp, haccepted, hid, hplan, ?_⟩
  intro event hmem
  rw [log_concat, List.mem_append] at hmem
  rcases hmem with hold | hnew
  · exact hlate event hold
  · rw [playAll_append, playAll_cons] at hother
    exact hother event hnew

/-- No two documents ever share the identity of a session, whatever is played. -/
theorem distinct_playAll {s : Service} (h : s.registry.Distinct) (ms : List Move) :
    (s.playAll ms).registry.Distinct := by
  induction ms generalizing s with
  | nil => exact h
  | cons m ms ih => exact ih (distinct_play h m)

/-- **What waits was requested**, whatever the moves. -/
theorem requested_of_waits {s₀ : Service} (hdistinct : s₀.registry.Distinct)
    (hempty : ∀ key id plan, ¬ s₀.Waits key id plan) (ms : List Move) {key : DocumentKey}
    {id : SessionId} {plan : Plan} (h : (s₀.playAll ms).Waits key id plan) :
    Requested s₀ ms key id plan := by
  induction ms using List.reverseRecOn generalizing key id plan with
  | nil => exact absurd h (hempty key id plan)
  | append_singleton ms m ih =>
    rw [playAll_concat] at h
    cases waits_play (distinct_playAll hdistinct ms) h with
    | accepted haccepted hid hplan =>
      subst hid hplan
      exact requested_concat haccepted
    | waited hwaits hother => exact (ih hwaits).concat hother

/-- **What starts was requested**, whatever the moves. -/
theorem requested_of_start {s₀ : Service} (hdistinct : s₀.registry.Distinct)
    (hempty : ∀ key id plan, ¬ s₀.Waits key id plan) (ms : List Move) {flight : Flight}
    (h : flight ∈ (s₀.log ms).starts) :
    ∃ before after, ms = before ++ .fire flight.document :: after ∧
      ((s₀.playAll before).fire flight.document).1 = some flight ∧
      Requested s₀ before flight.document flight.session flight.plan := by
  induction ms using List.reverseRecOn with
  | nil => cases h
  | append_singleton ms m ih =>
    rw [log_concat, History.starts_append, List.mem_append] at h
    rcases h with hold | hnew
    · obtain ⟨before, after, rfl, hfire, hrequested⟩ := ih hold
      exact ⟨before, after ++ [m], by simp, hfire, hrequested⟩
    · obtain ⟨rfl, hfire, hwaits⟩ := waits_of_start hnew
      exact ⟨ms, [], rfl, hfire, requested_of_waits hdistinct hempty ms hwaits⟩

/-! ## §4 — no request starts two runs -/

def History.startTickets (L : History) : List Nat :=
  L.starts.map (·.plan.ticket)

@[simp] theorem History.startTickets_append (L L' : History) :
    History.startTickets (L ++ L') = L.startTickets ++ L'.startTickets := by
  simp [startTickets]

/-- Requests are numbered in the order in which they are accepted. A request that waits has not
started a run, and no number waits at two sessions. -/
structure Numbered (L : History) (s : Service) : Prop where
  distinct : s.registry.Distinct
  accepted : L.accepted.map Plan.ticket = List.range' 1 s.tickets
  started_le : ∀ ticket ∈ L.startTickets, ticket ≤ s.tickets
  waits_le : ∀ {key id plan}, s.Waits key id plan → plan.ticket ≤ s.tickets
  unstarted : ∀ {key id plan}, s.Waits key id plan → plan.ticket ∉ L.startTickets
  unique : ∀ {key id plan key' id' plan'}, s.Waits key id plan → s.Waits key' id' plan' →
    plan.ticket = plan'.ticket → key = key'
  once : L.startTickets.Nodup

theorem Waits.id_eq {s : Service} {key : DocumentKey} {id id' : SessionId} {plan plan' : Plan}
    (h : s.Waits key id plan) (h' : s.Waits key id' plan') : id = id' := by
  obtain ⟨session, _, hget, rfl, -⟩ := h
  obtain ⟨session', _, hget', rfl, -⟩ := h'
  rw [hget] at hget'
  cases hget'
  rfl

theorem tickets_le_play (s : Service) (m : Move) : s.tickets ≤ (s.play m).tickets := by
  rcases accepted_cases s m with ⟨-, htickets⟩ | ⟨_, -, -, htickets⟩ <;> omega

/-- The accepted requests are numbered one after the other, without gaps. -/
theorem accepted_play {L : History} {s : Service}
    (h : L.accepted.map Plan.ticket = List.range' 1 s.tickets) (m : Move) :
    (History.accepted (L ++ s.emits m)).map Plan.ticket = List.range' 1 (s.play m).tickets := by
  rw [History.accepted_append, List.map_append, h]
  rcases accepted_cases s m with ⟨hnil, htickets⟩ | ⟨plan, hone, hticket, htickets⟩
  · rw [hnil, htickets, List.map_nil, List.append_nil]
  · rw [hone, htickets, List.range'_1_concat, List.map_singleton, hticket, Nat.add_comm]

/-- A request that waits after a move has not started a run, not even in that move. -/
theorem Numbered.unstarted_play {L : History} {s : Service} (h : Numbered L s) {m : Move}
    {key : DocumentKey} {id : SessionId} {plan : Plan} (hwaits : (s.play m).Waits key id plan) :
    plan.ticket ∉ History.startTickets (L ++ s.emits m) := by
  intro hmem
  obtain ⟨flight, hflight, hticket⟩ := List.mem_map.mp hmem
  rw [History.starts_append, List.mem_append] at hflight
  cases waits_play h.distinct hwaits with
  | accepted _ _ hplan =>
    -- its number has just been given out, and no run bears it.
    have hnumber : flight.plan.ticket = s.tickets + 1 := by rw [hticket, hplan, ticket_plan]
    have hle : flight.plan.ticket ≤ s.tickets := by
      rcases hflight with hold | hnew
      · exact h.started_le _ (List.mem_map.mpr ⟨flight, hold, rfl⟩)
      · exact h.waits_le (waits_of_start hnew).2.2
    omega
  | waited hwaited hother =>
    rcases hflight with hold | hnew
    · exact h.unstarted hwaited (List.mem_map.mpr ⟨flight, hold, hticket⟩)
    · -- the run that starts would be that of the same session.
      have hstarted := (waits_of_start hnew).2.2
      have hkey := h.unique hwaited hstarted hticket.symm
      subst hkey
      obtain ⟨event, hevent, hevent_started⟩ := List.mem_filterMap.mp hnew
      have hid := hother event hevent
      cases event with
      | started other =>
        cases hevent_started
        exact hid (congrArg some (hstarted.id_eq hwaited))
      | _ => cases hevent_started

/-- No two documents wait with the same ticket. -/
theorem Numbered.unique_play {L : History} {s : Service} (h : Numbered L s) {m : Move}
    {key key' : DocumentKey} {id id' : SessionId} {plan plan' : Plan}
    (hwaits : (s.play m).Waits key id plan) (hwaits' : (s.play m).Waits key' id' plan')
    (hticket : plan.ticket = plan'.ticket) : key = key' := by
  -- a request that was just accepted has a ticket that no earlier one has.
  cases waits_play h.distinct hwaits with
  | accepted _ _ hplan =>
    cases waits_play h.distinct hwaits' with
    | accepted => rfl
    | waited hwaited' _ =>
      have hle := h.waits_le hwaited'
      rw [← hticket, hplan, ticket_plan] at hle
      omega
  | waited hwaited _ =>
    cases waits_play h.distinct hwaits' with
    | accepted _ _ hplan' =>
      have hle := h.waits_le hwaited
      rw [hticket, hplan', ticket_plan] at hle
      omega
    | waited hwaited' _ => exact h.unique hwaited hwaited' hticket

/-- The numbering is kept by every move: a run that starts had a ticket which no run has had. -/
theorem numbered_play {L : History} {s : Service} (h : Numbered L s) (m : Move) :
    Numbered (L ++ s.emits m) (s.play m) where
  distinct := distinct_play h.distinct m
  accepted := accepted_play h.accepted m
  started_le := by
    intro ticket hmem
    refine Nat.le_trans ?_ (tickets_le_play s m)
    rw [History.startTickets_append, List.mem_append] at hmem
    rcases hmem with hold | hnew
    · exact h.started_le ticket hold
    · obtain ⟨flight, hflight, rfl⟩ := List.mem_map.mp hnew
      exact h.waits_le (waits_of_start hflight).2.2
  waits_le := by
    intro key id plan hwaits
    cases waits_play h.distinct hwaits with
    | accepted haccepted _ hplan =>
      rw [hplan, play, tickets_validate, if_pos haccepted]
      exact Nat.le_refl _
    | waited hwaited _ => exact Nat.le_trans (h.waits_le hwaited) (tickets_le_play s m)
  unstarted := h.unstarted_play
  unique := h.unique_play
  once := by
    rw [History.startTickets_append]
    -- only a start adds to the tickets that have started, and its request was waiting.
    cases flightChange_play s m with
    | none _ _ hstarts _ => simpa [History.startTickets, hstarts] using h.once
    | ended _ _ _ _ _ hstarts _ => simpa [History.startTickets, hstarts] using h.once
    | started _ _ flight _ _ _ _ _ _ _ hstarts _ =>
      have hmem : flight ∈ (s.emits m).starts := by rw [hstarts]; simp
      have hnew := h.unstarted (waits_of_start hmem).2.2
      have hone : (s.emits m).startTickets = [flight.plan.ticket] := by
        rw [History.startTickets, hstarts]
        rfl
      rw [hone, List.nodup_append]
      refine ⟨h.once, List.pairwise_singleton _ _, ?_⟩
      intro ticket hold ticket' hlast
      rw [List.mem_singleton.mp hlast]
      rintro rfl
      exact hnew hold

theorem not_waits_create (compiler : Options) (settings : Settings) (key : DocumentKey)
    (id : SessionId) (plan : Plan) : ¬ (create compiler settings).Waits key id plan := by
  rintro ⟨session, _, hget, -⟩
  cases hget

theorem numbered_create (compiler : Options) (settings : Settings) :
    Numbered [] (create compiler settings) where
  distinct := distinct_create compiler settings
  accepted := rfl
  started_le := by simp [History.startTickets, History.starts]
  waits_le := fun hwaits => absurd hwaits (not_waits_create compiler settings _ _ _)
  unstarted := fun hwaits => absurd hwaits (not_waits_create compiler settings _ _ _)
  unique := fun hwaits => absurd hwaits (not_waits_create compiler settings _ _ _)
  once := List.nodup_nil

/-- **The numbering of requests**, after any actions. -/
theorem numbered_performAll (compiler : Options) (settings : Settings) (actions : List Action) :
    Numbered ((create compiler settings).history actions)
      ((create compiler settings).performAll actions) :=
  history_induction (numbered_create compiler settings) (fun _ _ m h => numbered_play h m) actions

/-! ## §5 — coalescing -/

/-- **Coalescing, and snapshots.** Whatever happens to a service and in whatever order, every run
that starts was requested by the last request that its session accepted before: the moves are
`early`, the request, `late`, the end of the delay, and the rest; the request was accepted, by the
session of the run; the run is what the request asked for when `early` had been made, that is, its
program and its arguments are those of the options in force then, whatever configurations came in
`late`; and in `late` the session accepted no other request and started no run. Accepted requests
are numbered in their order, and no number starts two runs. -/
theorem coalesced_snapshot (compiler : Options) (settings : Settings) (actions : List Action) :
    let s₀ := create compiler settings
    let L := s₀.history actions
    (∀ flight ∈ L.starts, ∃ early delay late rest,
      let s := s₀.playAll early
      let request : Move := .request flight.document delay
      s₀.movesOfAll actions = early ++ request :: (late ++ .fire flight.document :: rest) ∧
      (s.validate flight.document delay).1 = true ∧
      (s.registry.getOrCreate flight.document).1.paused = false ∧
      (s.registry.getOrCreate flight.document).1.id = flight.session ∧
      flight.plan.ticket = s.tickets + 1 ∧
      flight.plan.request = Request.build s.compiler flight.document.path none ∧
      (((s.play request).playAll late).fire flight.document).1 = some flight ∧
      ∀ event ∈ (s.play request).log late, event.scheduled? ≠ some flight.session) ∧
    L.accepted.map Plan.ticket = List.range' 1 L.accepted.length ∧
    (L.starts.map (·.plan.ticket)).Nodup := by
  intro s₀ L
  have hnumbered : Numbered L (s₀.performAll actions) :=
    numbered_performAll compiler settings actions
  refine ⟨?_, ?_, hnumbered.once⟩
  -- the start goes back to the request that was waiting, and this to the call that made it.
  · intro flight hstarts
    obtain ⟨before, rest, hmoves, hfire, early, delay, late, rfl, haccepted, hid, hplan, hlate⟩ :=
      requested_of_start (distinct_create compiler settings)
        (not_waits_create compiler settings) (s₀.movesOfAll actions) hstarts
    refine ⟨early, delay, late, rest, by simpa using hmoves, haccepted, ?_, hid, ?_, ?_, ?_, hlate⟩
    · rw [validate_fst] at haccepted
      simpa using haccepted
    · rw [hplan, ticket_plan]
    · rw [hplan]
      rfl
    · rw [playAll_append, playAll_cons] at hfire
      exact hfire
  · have hlength : L.accepted.length = (s₀.performAll actions).tickets := by
      rw [← List.length_map Plan.ticket, hnumbered.accepted, List.length_range']
    rw [hlength]
    exact hnumbered.accepted

/-- A second request takes the place of the first, under other options, and the options change once
more before its delay is over: one run starts, that of the second request. -/
theorem second_request_runs_with_its_options :
    let key : DocumentKey := ⟨"a.ksp"⟩
    let settings : Settings := { filePatterns := [] }
    let second : Options := { executable := "second" }
    let actions : List Action :=
      [.validate key 0, .applyConfig second settings, .validate key 500,
       .applyConfig { executable := "third" } settings, .fire key]
    let flight : Flight :=
      ⟨1, key, ⟨2, .build second key.path none, ⟨second.showStdout, second.showStderr⟩⟩⟩
    let s₀ := create {} settings
    (s₀.history actions).starts = [flight] ∧
      ∃ early delay late rest,
        let s := s₀.playAll early
        s₀.movesOfAll actions =
          early ++ .request key delay :: (late ++ .fire key :: rest) ∧
        s.tickets = 1 ∧ flight.plan.request = Request.build s.compiler key.path none ∧
        ∀ event ∈ (s.play (.request key delay)).log late, event.scheduled? ≠ some 1 := by
  intro key settings second actions flight s₀
  have hstarts : (s₀.history actions).starts = [flight] := by decide
  obtain ⟨hruns, -⟩ := coalesced_snapshot {} settings actions
  obtain ⟨early, delay, late, rest, hmoves, -, -, -, hticket, hrequest, -, hlate⟩ :=
    hruns _ (hstarts ▸ List.mem_singleton_self _)
  exact ⟨hstarts, early, delay, late, rest, hmoves, (Nat.succ.inj hticket).symm, hrequest,
    hlate⟩

end Service

end KspWorkbench
