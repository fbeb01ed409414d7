import KspWorkbench.Command.Check
import KspWorkbench.Proofs.DocumentOrder
import KspWorkbench.Proofs.Validation.Delivery
import Mathlib.Logic.Relation

/-!
# The schedules of a check

While a check waits for its runs, four things happen in any order: a delay ends and a run starts, a
run ends, a result comes into the queue, a result is applied. `CheckRun.Step` has one case for each,
so its courses are all the schedules that there are.

At every moment each document of the check is in one of four places: its request waits, its run is
in flight, its result is queued, or its result was applied. `Checking` is this invariant, with what
the places hold.

* **`Checking.step`** — every step moves a document on to the next place, and keeps the invariant.
* **`Checking.remaining_lt`**, **`Checking.exists_step`** — every step brings the end nearer, and as long
  as results are missing there is a step. So a check ends, whatever the schedule.
* **`checking_startCheck`** — a check begins with a request for each of its documents.
-/

namespace KspWorkbench

/-! ## §1 — steps -/

/-- A check at work: the service, and the runs that were applied, the oldest first. -/
structure CheckRun where
  service : Service
  summaries : List RunSummary

/-- The documents of the sessions at which a request waits. -/
def Registry.waitingKeys (r : Registry) : List DocumentKey :=
  (r.sessions.filter fun (_, session) => session.gate.waiting.isSome).map Prod.fst

/-- The identity of the session of a document. -/
def Registry.idOf? (r : Registry) (key : DocumentKey) : Option SessionId :=
  (r.get? key).map Session.id

namespace CheckRun

def waiting (c : CheckRun) : List DocumentKey :=
  c.service.registry.waitingKeys

def flying (c : CheckRun) : List DocumentKey :=
  c.service.inFlight.map Flight.document

def queued (c : CheckRun) : List DocumentKey :=
  c.service.results.toList.map RunResult.document

def applied (c : CheckRun) : List DocumentKey :=
  c.summaries.map RunSummary.document

/-- **What can happen** while a check waits for `accepted` runs, if the run of each document reports
`report`. The delays of a check are zero, so a request that waits may fire at any time. -/
inductive Step (report : DocumentKey → Report) (accepted : Nat) : CheckRun → CheckRun → Prop where
  | fire {c : CheckRun} {key : DocumentKey} (hwaits : key ∈ c.waiting) :
      Step report accepted c { c with service := (c.service.fire key).2 }
  | finish {c : CheckRun} {flight : Flight} (hflight : flight ∈ c.service.inFlight) :
      Step report accepted c
        { c with service := c.service.complete flight.session (report flight.document) }
  | refill {c : CheckRun} (houtside : c.service.results.outside ≠ [])
      (hplace : c.service.results.ready.length < ResultQueue.capacity) :
      Step report accepted c { c with service := c.service.refill }
  | receive {c : CheckRun} {summary : RunSummary} {service : Service}
      (hopen : c.summaries.length < accepted)
      (hnext : c.service.nextRun = (some summary, service)) :
      Step report accepted c ⟨service, c.summaries ++ [summary]⟩

/-- The states that a check can come to. -/
abbrev Reaches (report : DocumentKey → Report) (accepted : Nat) : CheckRun → CheckRun → Prop :=
  Relation.ReflTransGen (Step report accepted)

end CheckRun

/-! ## §2 — where the documents are -/

/-- An element that goes from one place to the end of the next one. -/
theorem perm_move {α : Type} {xs xs' : List α} {a : α} (h : xs.Perm (a :: xs')) (ys zs : List α) :
    (xs' ++ ((ys ++ [a]) ++ zs)).Perm (xs ++ (ys ++ zs)) := by
  have hmiddle : (xs' ++ ys ++ a :: zs).Perm (a :: (xs' ++ ys ++ zs)) := List.perm_middle
  calc xs' ++ ((ys ++ [a]) ++ zs) = xs' ++ ys ++ a :: zs := by simp
    _ |>.Perm (a :: (xs' ++ ys ++ zs)) := hmiddle
    _ = (a :: xs') ++ (ys ++ zs) := by simp
    _ |>.Perm (xs ++ (ys ++ zs)) := h.symm.append_right _

namespace Registry

theorem keys_modify (r : Registry) (key : DocumentKey) (change : Session → Session) :
    (r.modify key change).sessions.map Prod.fst = r.sessions.map Prod.fst := by
  rw [modify, List.map_map]
  refine List.map_congr_left fun entry _ => ?_
  obtain ⟨k, session⟩ := entry
  dsimp only [Function.comp_apply]
  split <;> rfl

/-- A change that leaves the gate leaves who waits. -/
theorem waitingKeys_modify_of_gate (r : Registry) (key : DocumentKey) {change : Session → Session}
    (hgate : ∀ session, (change session).gate = session.gate) :
    (r.modify key change).waitingKeys = r.waitingKeys := by
  simp only [waitingKeys, modify]
  -- the entry of the document is the only one that changes, and it waits before and after alike.
  induction r.sessions with
  | nil => rfl
  | cons entry sessions ih =>
    obtain ⟨k, session⟩ := entry
    rw [List.map_cons, List.filter_cons, List.filter_cons]
    by_cases hk : k = key
    · simp only [if_pos hk, hgate]
      split
      · rw [List.map_cons, List.map_cons, ih]
      · exact ih
    · simp only [if_neg hk]
      split
      · rw [List.map_cons, List.map_cons, ih]
      · exact ih

/-- A change that empties the gate takes the document from those that wait. -/
theorem waitingKeys_modify_cancel (r : Registry) (key : DocumentKey) {change : Session → Session}
    (hgate : ∀ session, (change session).gate.waiting = none) :
    (r.modify key change).waitingKeys = r.waitingKeys.filter (· != key) := by
  simp only [waitingKeys, modify]
  -- the entry of the document goes, whether or not it waited; all others stay as they are.
  induction r.sessions with
  | nil => rfl
  | cons entry sessions ih =>
    obtain ⟨k, session⟩ := entry
    rw [List.map_cons, List.filter_cons, List.filter_cons]
    by_cases hk : k = key
    · subst hk
      simp only [if_true, hgate, Option.isSome_none, Bool.false_eq_true, if_false]
      split
      · rw [List.map_cons, List.filter_cons]
        simpa using ih
      · exact ih
    · simp only [if_neg hk]
      split
      · rw [List.map_cons, List.map_cons, List.filter_cons, ih]
        simp [hk]
      · exact ih

/-- What a change leaves alone in a session, it leaves alone in the registry. -/
theorem map_get?_modify {β : Type} (r : Registry) (key other : DocumentKey)
    {change : Session → Session} {part : Session → β}
    (hpart : ∀ session, part (change session) = part session) :
    ((r.modify key change).get? other).map part = (r.get? other).map part := by
  rw [get?_modify]
  split
  · rw [Option.map_map]
    exact congrFun (congrArg _ (funext hpart)) _
  · rfl

/-- A session that was just made stands last, and no other one has its document. -/
theorem modify_append {sessions : List (DocumentKey × Session)} {key : DocumentKey}
    (hkey : key ∉ sessions.map Prod.fst) (lastId : SessionId) (session : Session)
    (change : Session → Session) :
    ({ sessions := sessions ++ [(key, session)], lastId := lastId } : Registry).modify key change =
      { sessions := sessions ++ [(key, change session)], lastId := lastId } := by
  have hothers : sessions.map (fun (k, other) =>
      if k = key then (k, change other) else (k, other)) = sessions := by
    rw [List.map_congr_left (g := id), List.map_id]
    intro entry hentry
    have hne : entry.1 ≠ key := by
      rintro rfl
      exact hkey (List.mem_map_of_mem hentry)
    exact if_neg hne
  simp [modify, hothers]

/-- With one session for each document, every entry is the one that is found under its key. -/
theorem get?_of_mem {r : Registry} (hnodup : (r.sessions.map Prod.fst).Nodup) {key : DocumentKey}
    {session : Session} (h : (key, session) ∈ r.sessions) : r.get? key = some session := by
  rw [get?]
  revert hnodup h
  induction r.sessions with
  | nil => simp
  | cons entry sessions ih =>
    obtain ⟨k, other⟩ := entry
    intro hnodup hmem
    rw [List.map_cons, List.nodup_cons] at hnodup
    rw [List.lookup_cons]
    rcases List.mem_cons.mp hmem with heq | hrest
    · cases heq
      simp
    · have hne : key ≠ k := by
        rintro rfl
        exact hnodup.1 (List.mem_map.mpr ⟨_, hrest, rfl⟩)
      rw [beq_eq_false_iff_ne.mpr hne]
      exact ih hnodup.2 hrest

/-- Where a request waits, there is a session. -/
theorem exists_waiting {r : Registry} (hnodup : (r.sessions.map Prod.fst).Nodup)
    {key : DocumentKey} (h : key ∈ r.waitingKeys) :
    ∃ session waiting, r.get? key = some session ∧ session.gate.waiting = some waiting := by
  obtain ⟨⟨k, session⟩, hmem, rfl⟩ := List.mem_map.mp h
  obtain ⟨hsession, hwaits⟩ := List.mem_filter.mp hmem
  obtain ⟨waiting, hwaiting⟩ := Option.isSome_iff_exists.mp hwaits
  exact ⟨session, waiting, get?_of_mem hnodup hsession, hwaiting⟩

end Registry

/-- **Each document is in one place.** Its request waits, its run is in flight, its result is queued
or its result was applied; and the places hold what belongs to it. -/
structure Checking (report : DocumentKey → Report) (base : List Notice) (keys : List DocumentKey)
    (c : CheckRun) : Prop where
  delivery : ∃ L, Service.Delivery L c.service
  nodup : keys.Nodup
  sessions : c.service.registry.sessions.map Prod.fst = keys
  split : (c.waiting ++ (c.flying ++ (c.queued ++ c.applied))).Perm keys
  flights : ∀ flight ∈ c.service.inFlight,
    c.service.registry.idOf? flight.document = some flight.session
  results : ∀ r ∈ c.service.results.toList,
    c.service.registry.idOf? r.document = some r.session ∧ r.report = report r.document
  summaries : ∀ summary ∈ c.summaries, summary = (report summary.document).summary summary.document
  diagnostics : ∀ key,
    c.service.diagnostics key = if key ∈ c.applied then (report key).diagnostics else []
  notices : c.service.notices = base ++ c.applied.flatMap fun key => (report key).notices

namespace Checking

variable {report : DocumentKey → Report} {base : List Notice} {keys : List DocumentKey}
  {c : CheckRun}

/-- No document is at two places at once. -/
theorem nodup_places (h : Checking report base keys c) :
    (c.waiting ++ (c.flying ++ (c.queued ++ c.applied))).Nodup :=
  h.split.nodup_iff.mpr h.nodup

/-- A document whose request waits has no run in flight: its session's flag is not set. -/
theorem not_running (h : Checking report base keys c) {key : DocumentKey} {session : Session}
    (hwaits : key ∈ c.waiting) (hget : c.service.registry.get? key = some session) :
    session.id ∉ c.service.running := by
  obtain ⟨L, hdelivery⟩ := h.delivery
  intro hrunning
  obtain ⟨flight, hflight⟩ := List.exists_mem_of_ne_nil _ ((hdelivery.flight.flag _).mp hrunning)
  obtain ⟨hmem, hid⟩ := List.mem_filter.mp hflight
  -- the run in flight belongs to the session of its own document.
  have howner := h.flights flight hmem
  obtain ⟨owner, howner_get, howner_id⟩ := Option.map_eq_some_iff.mp howner
  have hkey : flight.document = key :=
    hdelivery.distinct.unique howner_get hget (by rw [howner_id]; exact of_decide_eq_true hid)
  have hflying : key ∈ c.flying := List.mem_map.mpr ⟨flight, hmem, hkey⟩
  exact (List.nodup_append.mp h.nodup_places).2.2 key hwaits key (by simp [hflying]) rfl

/-- **A delay ends and a run starts.** -/
theorem fire_eq (h : Checking report base keys c) {key : DocumentKey} (hwaits : key ∈ c.waiting) :
    ∃ session waiting, c.service.registry.get? key = some session ∧
      session.gate.waiting = some waiting ∧
      c.service.fire key = (some ⟨session.id, key, waiting.task⟩,
        (c.service.setGate key session.gate.cancel).takeOff ⟨session.id, key, waiting.task⟩) := by
  have hnodup : (c.service.registry.sessions.map Prod.fst).Nodup := by rw [h.sessions]; exact h.nodup
  obtain ⟨session, waiting, hget, hwaiting⟩ := Registry.exists_waiting hnodup hwaits
  have hidle := h.not_running hwaits hget
  refine ⟨session, waiting, hget, hwaiting, ?_⟩
  simp [Service.fire, hget, Gate.take, hwaiting, hidle, Service.setGate, Service.takeOff]

/-- A document that waits does so once, so dropping it leaves all the others. -/
theorem perm_filter_waiting (h : Checking report base keys c) {key : DocumentKey}
    (hwaits : key ∈ c.waiting) : c.waiting.Perm (key :: c.waiting.filter (· != key)) := by
  have hnodup : c.waiting.Nodup := (List.nodup_append.mp h.nodup_places).1
  have hperm := List.perm_cons_erase hwaits
  rwa [hnodup.erase_eq_filter] at hperm

/-- When a delay ends, the document goes from those that wait to those in flight. -/
theorem step_fire (h : Checking report base keys c) {key : DocumentKey} (hwaits : key ∈ c.waiting) :
    Checking report base keys { c with service := (c.service.fire key).2 } := by
  obtain ⟨L, hdelivery⟩ := h.delivery
  have hdelivery' := Service.delivery_play hdelivery (.fire key)
  obtain ⟨session, waiting, hget, hwaiting, hfire⟩ := h.fire_eq hwaits
  have hwaiting' : (c.service.setGate key session.gate.cancel).registry.waitingKeys =
      c.waiting.filter (· != key) := Registry.waitingKeys_modify_cancel _ _ fun _ => rfl
  have hid : ∀ other, (c.service.setGate key session.gate.cancel).registry.idOf? other =
      c.service.registry.idOf? other := fun other => Registry.map_get?_modify _ _ _ fun _ => rfl
  rw [Service.play, hfire] at hdelivery'
  rw [hfire]
  refine
    { h with
      delivery := ⟨_, hdelivery'⟩
      sessions := (Registry.keys_modify _ _ _).trans h.sessions
      split := ?_
      flights := ?_
      results := fun r hr => ⟨(hid _).trans (h.results r hr).1, (h.results r hr).2⟩
      diagnostics := fun other =>
        (Service.diagnostics_setGate _ _ _ _).trans (h.diagnostics other) }
  · -- the document goes from those that wait to those in flight.
    have hmoved := h.perm_filter_waiting hwaits
    have hflying : (c.service.inFlight ++ [Flight.mk session.id key waiting.task]).map Flight.document =
        c.flying ++ [key] := by simp [CheckRun.flying]
    show ((c.service.setGate key session.gate.cancel).registry.waitingKeys ++
      ((c.service.inFlight ++ [Flight.mk session.id key waiting.task]).map Flight.document ++
        (c.queued ++ c.applied))).Perm keys
    rw [hwaiting', hflying]
    exact (perm_move hmoved c.flying (c.queued ++ c.applied)).trans h.split
  · intro flight hflight
    rcases List.mem_append.mp hflight with hold | hnew
    · exact (hid _).trans (h.flights flight hold)
    · rw [List.mem_singleton] at hnew
      subst hnew
      refine (hid _).trans ?_
      simp [Registry.idOf?, hget]

/-- A run in flight is the one that ends when its session's run ends. -/
theorem complete_eq (h : Checking report base keys c) {flight : Flight}
    (hflight : flight ∈ c.service.inFlight) (result : Report) :
    c.service.complete flight.session result = c.service.land flight result ∧
      c.service.inFlight.Perm
        (flight :: c.service.inFlight.filter (·.session ≠ flight.session)) := by
  obtain ⟨L, hdelivery⟩ := h.delivery
  -- a session has one run at a time, so ending the run of a session ends this flight and no
  -- other.
  have honly : c.service.inFlight.filter (·.session = flight.session) = [flight] :=
    hdelivery.flight.flightsOf_eq_singleton hflight
  constructor
  · rcases Service.complete_cases c.service flight.session result with
      ⟨hnone, -⟩ | ⟨found, -, hmem, hid, hcomplete⟩
    · rw [List.find?_eq_none] at hnone
      exact absurd (by simp) (hnone flight hflight)
    · have hfound : found ∈ c.service.inFlight.filter (·.session = flight.session) :=
        List.mem_filter.mpr ⟨hmem, by simp [hid]⟩
      rw [honly, List.mem_singleton] at hfound
      rw [hcomplete, hfound]
  · have hperm := (List.filter_append_perm (·.session = flight.session) c.service.inFlight).symm
    rw [honly] at hperm
    simpa using hperm

/-- When a run ends, its document goes from those in flight to those whose result is queued. -/
theorem step_finish (h : Checking report base keys c) {flight : Flight}
    (hflight : flight ∈ c.service.inFlight) :
    Checking report base keys
      { c with service := c.service.complete flight.session (report flight.document) } := by
  obtain ⟨L, hdelivery⟩ := h.delivery
  have hdelivery' :=
    Service.delivery_play hdelivery (.complete flight.session (report flight.document))
  obtain ⟨hcomplete, hperm⟩ := h.complete_eq hflight (report flight.document)
  rw [Service.play, hcomplete] at hdelivery'
  rw [hcomplete]
  have hresults : (c.service.land flight (report flight.document)).results.toList =
      c.service.results.toList ++ [flight.result (report flight.document)] :=
    ResultQueue.toList_push _ _
  refine
    { h with
      delivery := ⟨_, hdelivery'⟩
      split := ?_
      flights := fun other hother => h.flights other (List.mem_filter.mp hother).1
      results := ?_ }
  · -- the document goes from those in flight to those whose result is queued.
    have hqueued : (c.service.land flight (report flight.document)).results.toList.map
        RunResult.document = c.queued ++ [flight.document] := by
      rw [hresults, List.map_append]
      rfl
    have hmoved := perm_move (hperm.map Flight.document) c.queued c.applied
    show (c.waiting ++ ((c.service.inFlight.filter (·.session ≠ flight.session)).map
      Flight.document ++ ((c.service.land flight (report flight.document)).results.toList.map
        RunResult.document ++ c.applied))).Perm keys
    rw [hqueued]
    exact (hmoved.append_left c.waiting).trans h.split
  · intro r hr
    have hmem : r ∈ c.service.results.toList ++ [flight.result (report flight.document)] :=
      hresults ▸ hr
    rcases List.mem_append.mp hmem with hold | hnew
    · exact h.results r hold
    · rw [List.mem_singleton] at hnew
      subst hnew
      exact ⟨h.flights flight hflight, rfl⟩

/-- Taking results into the channel moves no document. -/
theorem step_refill (h : Checking report base keys c) :
    Checking report base keys { c with service := c.service.refill } := by
  obtain ⟨L, hdelivery⟩ := h.delivery
  have hresults : c.service.refill.results.toList = c.service.results.toList :=
    ResultQueue.toList_refill _
  refine
    { h with
      delivery := ⟨_, Service.delivery_play hdelivery .refill⟩
      split := ?_
      results := fun r hr => h.results r (hresults ▸ hr) }
  have hqueued : c.service.refill.results.toList.map RunResult.document = c.queued := by
    rw [hresults]
    rfl
  show (c.waiting ++ (c.flying ++ (c.service.refill.results.toList.map RunResult.document ++
    c.applied))).Perm keys
  rw [hqueued]
  exact h.split

/-- **A result is applied.** The session of a queued result is alive, so the next run is that of the
oldest result; its diagnostics are published and its notices are added. -/
theorem nextRun_eq (h : Checking report base keys c) {r : RunResult} {rest : List RunResult}
    (hready : c.service.results.ready = r :: rest) :
    ∃ publish : Session → Session,
      (∀ other, (publish other).id = other.id ∧ (publish other).gate = other.gate ∧
        (publish other).diagnostics = (report r.document).diagnostics) ∧
      c.service.nextRun = (some ((report r.document).summary r.document), c.service.applyNext.2) ∧
      c.service.applyNext.2 =
        { c.service.dropResult with
          registry := c.service.registry.modify r.document publish
          notices := c.service.notices ++ (report r.document).notices } := by
  have hmem : r ∈ c.service.results.toList := by simp [ResultQueue.toList, hready]
  obtain ⟨halive, hreport⟩ := h.results r hmem
  obtain ⟨owner, howner, hid⟩ := Option.map_eq_some_iff.mp halive
  -- no document of a check is ever closed, so the session that the result belongs to is still
  -- there.
  rcases Service.applyNext_of_ready hready with ⟨hgone, -⟩ | ⟨session, -, -, hnext⟩
  · exact absurd hid (Registry.current?_eq_none_iff.mp hgone owner howner)
  · refine ⟨fun other =>
      { other with
        paused := c.service.pausedAfter session r.executable r.report.outcome
        diagnostics := (report r.document).diagnostics }, fun other => ⟨rfl, rfl, rfl⟩, ?_, ?_⟩
    · rw [Service.nextRun, hready, List.length_cons, Service.nextRunWithin, hnext, hreport]
    · rw [hnext, hreport]

/-- When a result is applied, its document goes to those that are done, and its diagnostics,
notices and summary are those of its report. -/
theorem step_receive (h : Checking report base keys c) {r : RunResult} {rest : List RunResult}
    (hready : c.service.results.ready = r :: rest) :
    Checking report base keys
      ⟨c.service.applyNext.2, c.summaries ++ [(report r.document).summary r.document]⟩ := by
  obtain ⟨L, hdelivery⟩ := h.delivery
  have hdelivery' := Service.delivery_play hdelivery .applyNext
  have hresults := Service.toList_applyNext hready
  obtain ⟨publish, hpublish, -, happly⟩ := h.nextRun_eq hready
  rw [Service.play] at hdelivery'
  rw [happly] at hdelivery' hresults ⊢
  have hid : ∀ other, (c.service.registry.modify r.document publish).idOf? other =
      c.service.registry.idOf? other := fun other =>
    Registry.map_get?_modify _ _ _ fun session => (hpublish session).1
  have happlied : (c.summaries ++ [(report r.document).summary r.document]).map
      RunSummary.document = c.applied ++ [r.document] := by
    rw [List.map_append]
    rfl
  refine
    { h with
      delivery := ⟨_, hdelivery'⟩
      sessions := (Registry.keys_modify _ _ _).trans h.sessions
      split := ?_
      flights := fun flight hflight => (hid _).trans (h.flights flight hflight)
      results := ?_
      summaries := ?_
      diagnostics := ?_
      notices := ?_ }
  · -- the document goes from those whose result is queued to those whose result was applied.
    have hqueued : c.queued =
        r.document :: c.service.dropResult.results.toList.map RunResult.document := by
      rw [CheckRun.queued, hresults]
      rfl
    have hwaiting : (c.service.registry.modify r.document publish).waitingKeys = c.waiting :=
      Registry.waitingKeys_modify_of_gate _ _ fun session => (hpublish session).2.1
    have hmoved := perm_move (List.Perm.of_eq hqueued) c.applied []
    rw [List.append_nil, List.append_nil] at hmoved
    show ((c.service.registry.modify r.document publish).waitingKeys ++ (c.flying ++
      (c.service.dropResult.results.toList.map RunResult.document ++
        (c.summaries ++ [(report r.document).summary r.document]).map RunSummary.document))).Perm keys
    rw [hwaiting, happlied]
    exact ((hmoved.append_left c.flying).append_left c.waiting).trans h.split
  · intro other hother
    have hmem : other ∈ c.service.results.toList := by
      rw [hresults]
      exact List.mem_cons_of_mem r hother
    exact ⟨(hid _).trans (h.results other hmem).1, (h.results other hmem).2⟩
  · intro summary hsummary
    rcases List.mem_append.mp hsummary with hold | hnew
    · exact h.summaries summary hold
    · rw [List.mem_singleton] at hnew
      subst hnew
      rfl
  · intro key
    have hmem : r ∈ c.service.results.toList := by simp [ResultQueue.toList, hready]
    obtain ⟨owner, howner, -⟩ := Option.map_eq_some_iff.mp (h.results r hmem).1
    rw [CheckRun.applied, happlied, Service.diagnostics, Registry.published, Registry.get?_modify]
    by_cases hkey : key = r.document
    · subst hkey
      simp [howner, (hpublish owner).2.2]
    · have hold := h.diagnostics key
      rw [Service.diagnostics, Registry.published] at hold
      simp [hkey, hold]
  · rw [CheckRun.applied, happlied, List.flatMap_append]
    show c.service.notices ++ (report r.document).notices = _
    rw [h.notices]
    simp

/-- Where there is a next run, it is that of the oldest result. -/
theorem eq_of_nextRun (h : Checking report base keys c) {summary : RunSummary} {service : Service}
    (hnext : c.service.nextRun = (some summary, service)) :
    ∃ r rest, c.service.results.ready = r :: rest ∧
      summary = (report r.document).summary r.document ∧ service = c.service.applyNext.2 := by
  cases hready : c.service.results.ready with
  | nil =>
    rw [Service.nextRun, hready] at hnext
    cases hnext
  | cons r rest =>
    obtain ⟨-, -, heq, -⟩ := h.nextRun_eq hready
    rw [heq] at hnext
    cases hnext
    exact ⟨r, rest, rfl, rfl, rfl⟩

/-- **Every step keeps the invariant.** -/
theorem step {c' : CheckRun} {accepted : Nat} (h : Checking report base keys c)
    (hstep : c.Step report accepted c') : Checking report base keys c' := by
  cases hstep with
  | fire hwaits => exact h.step_fire hwaits
  | finish hflight => exact h.step_finish hflight
  | refill _ _ => exact h.step_refill
  | receive _ hnext =>
    obtain ⟨r, rest, hready, rfl, rfl⟩ := h.eq_of_nextRun hnext
    exact h.step_receive hready

/-- **Every state of a check**: by induction on its schedule, whatever the order of the steps. -/
theorem reaches {c' : CheckRun} {accepted : Nat} (h : Checking report base keys c)
    (hreach : CheckRun.Reaches report accepted c c') : Checking report base keys c' := by
  induction hreach with
  | refl => exact h
  | tail _ hstep ih => exact ih.step hstep

end Checking

/-! ## §3 — a check ends -/

/-- How many steps the results of a queue have before them. -/
def ResultQueue.stepsLeft (q : ResultQueue) : Nat :=
  2 * q.outside.length + q.ready.length

/-- How many steps a check has before it, at most. -/
def CheckRun.remaining (c : CheckRun) : Nat :=
  -- a document has four steps: its run starts and ends, its result comes in and is applied.
  4 * c.waiting.length + 3 * c.flying.length + c.service.results.stepsLeft

namespace Checking

variable {report : DocumentKey → Report} {base : List Notice} {keys : List DocumentKey}
  {c : CheckRun}

/-- A result that comes in has two steps to go, or one when there is a place for it. -/
theorem stepsLeft_push_le (q : ResultQueue) (r : RunResult) :
    (q.push r).stepsLeft ≤ q.stepsLeft + 2 := by
  unfold ResultQueue.push ResultQueue.stepsLeft
  split
  · simp only [List.length_append, List.length_singleton]
    omega
  · simp only [List.length_append, List.length_singleton]
    omega

/-- Taking results into the channel uses up steps of theirs. -/
theorem stepsLeft_refill_lt {q : ResultQueue} (houtside : q.outside ≠ [])
    (hplace : q.ready.length < ResultQueue.capacity) : q.refill.stepsLeft < q.stepsLeft := by
  have hpos : 0 < q.outside.length := List.length_pos_iff.mpr houtside
  unfold ResultQueue.refill ResultQueue.stepsLeft
  simp only [List.length_append, List.length_take, List.length_drop]
  omega

/-- **Every step brings the end nearer.** -/
theorem remaining_lt {c' : CheckRun} {accepted : Nat} (h : Checking report base keys c)
    (hstep : c.Step report accepted c') : c'.remaining < c.remaining := by
  -- a document has four steps before it waits no more, three in flight, and two or one when
  -- queued: each kind of step takes one off.
  cases hstep with
  | @fire key hwaits =>
    obtain ⟨session, waiting, -, -, hfire⟩ := h.fire_eq hwaits
    have hwaiting : (c.service.setGate key session.gate.cancel).registry.waitingKeys =
        c.waiting.filter (· != key) := Registry.waitingKeys_modify_cancel _ _ fun _ => rfl
    have hlength := (h.perm_filter_waiting hwaits).length_eq
    rw [hfire]
    show 4 * (c.service.setGate key session.gate.cancel).registry.waitingKeys.length +
      3 * ((c.service.inFlight ++ [Flight.mk session.id key waiting.task]).map
        Flight.document).length + c.service.results.stepsLeft < c.remaining
    rw [hwaiting]
    simp only [CheckRun.remaining, CheckRun.flying, List.length_map, List.length_append,
      List.length_cons, List.length_nil] at hlength ⊢
    omega
  | @finish flight hflight =>
    obtain ⟨hcomplete, hperm⟩ := h.complete_eq hflight (report flight.document)
    have hlength := hperm.length_eq
    have hpush := stepsLeft_push_le c.service.results (flight.result (report flight.document))
    rw [hcomplete]
    show 4 * c.waiting.length + 3 * ((c.service.inFlight.filter
      (·.session ≠ flight.session)).map Flight.document).length +
        (c.service.results.push (flight.result (report flight.document))).stepsLeft < c.remaining
    simp only [CheckRun.remaining, CheckRun.flying, List.length_map, List.length_cons] at hlength ⊢
    omega
  | refill houtside hplace =>
    have hlt := stepsLeft_refill_lt houtside hplace
    exact Nat.add_lt_add_left hlt _
  | receive _ hnext =>
    obtain ⟨r, rest, hready, rfl, rfl⟩ := h.eq_of_nextRun hnext
    obtain ⟨publish, hpublish, -, happly⟩ := h.nextRun_eq hready
    have hwaiting : (c.service.registry.modify r.document publish).waitingKeys = c.waiting :=
      Registry.waitingKeys_modify_of_gate _ _ fun session => (hpublish session).2.1
    have hlt : c.service.dropResult.results.stepsLeft < c.service.results.stepsLeft := by
      simp [Service.dropResult, ResultQueue.stepsLeft, hready]
    rw [happly]
    show 4 * (c.service.registry.modify r.document publish).waitingKeys.length +
      3 * c.flying.length + c.service.dropResult.results.stepsLeft < c.remaining
    rw [hwaiting]
    exact Nat.add_lt_add_left hlt _

/-- **As long as results are missing there is a step.** -/
theorem exists_step (h : Checking report base keys c) (hmissing : c.summaries.length < keys.length) :
    ∃ c', c.Step report keys.length c' := by
  by_cases hwaiting : c.waiting = []
  · by_cases hflight : c.service.inFlight = []
    · cases hready : c.service.results.ready with
      | cons r rest =>
        obtain ⟨-, -, hnext, -⟩ := h.nextRun_eq hready
        exact ⟨_, .receive hmissing hnext⟩
      | nil =>
        refine ⟨_, .refill ?_ (by rw [hready]; decide)⟩
        intro houtside
        -- with nothing on its way, every document would have been applied.
        have hlength := h.split.length_eq
        simp [hwaiting, CheckRun.flying, hflight, CheckRun.queued, ResultQueue.toList, hready,
          houtside, CheckRun.applied] at hlength
        omega
    · obtain ⟨flight, hmem⟩ := List.exists_mem_of_ne_nil _ hflight
      exact ⟨_, .finish hmem⟩
  · obtain ⟨key, hmem⟩ := List.exists_mem_of_ne_nil _ hwaiting
    exact ⟨_, .fire hmem⟩

end Checking

/-! ## §4 — a check begins -/

/-- Nothing has started, and every request that waits is due now. -/
structure Service.Prompt (s : Service) : Prop where
  idle : s.inFlight = []
  due : ∀ entry ∈ s.registry.sessions, ∀ waiting, entry.2.gate.waiting = some waiting →
    waiting.due = some s.now

namespace Checking

variable {report : DocumentKey → Report} {base : List Notice} {keys : List DocumentKey}
  {c : CheckRun}

/-- A document that is not part of the check has no session. -/
theorem get?_eq_none (h : Checking report base keys c) {key : DocumentKey} (hkey : key ∉ keys) :
    c.service.registry.get? key = none := by
  rw [Registry.get?, List.lookup_eq_none_iff]
  intro entry hentry
  rw [← h.sessions] at hkey
  rw [bne_iff_ne]
  rintro rfl
  exact hkey (List.mem_map_of_mem hentry)

/-- The sessions after a request for a document that had none. -/
theorem sessions_validate (h : Checking report base keys c) {key : DocumentKey} (hkey : key ∉ keys)
    (delay : Nat) :
    (c.service.validate key delay).1 = true ∧
    (c.service.validate key delay).2.registry.sessions =
      c.service.registry.sessions ++ [(key, c.service.sessionAfterRequest key delay)] := by
  have hnone := h.get?_eq_none hkey
  rw [← h.sessions] at hkey
  unfold Service.validate Service.sessionAfterRequest
  simp only [Registry.getOrCreate_of_none hnone, Registry.modify_append hkey]
  exact ⟨rfl, rfl⟩

/-- **A request for a further document** puts it among those that wait. -/
theorem request (h : Checking report base keys c) {key : DocumentKey} (hkey : key ∉ keys)
    (delay : Nat) :
    Checking report base (keys ++ [key])
      { c with service := (c.service.validate key delay).2 } := by
  obtain ⟨L, hdelivery⟩ := h.delivery
  have hnone := h.get?_eq_none hkey
  obtain ⟨-, hsessions⟩ := h.sessions_validate hkey delay
  have hframe := Service.validate_frame c.service key delay
  have happlied : key ∉ c.applied := fun hmem =>
    hkey (h.split.mem_iff.mp (by simp [hmem]))
  -- the sessions that were there keep their ids, so flights and results still belong to them.
  have hid : ∀ other id, c.service.registry.idOf? other = some id →
      (c.service.validate key delay).2.registry.idOf? other = some id := by
    intro other id hother
    have hne : other ≠ key := by
      rintro rfl
      rw [Registry.idOf?, hnone] at hother
      cases hother
    rwa [Registry.idOf?, Service.get?_validate, if_neg hne]
  have hwaiting : (c.service.validate key delay).2.registry.waitingKeys = c.waiting ++ [key] := by
    have hwaits : (c.service.sessionAfterRequest key delay).gate.waiting.isSome = true := by
      simp [Service.sessionAfterRequest, Registry.getOrCreate_of_none hnone, Gate.trigger]
    rw [Registry.waitingKeys, hsessions, List.filter_append, List.map_append]
    simp [CheckRun.waiting, Registry.waitingKeys, hwaits]
  have hflight : (c.service.validate key delay).2.inFlight = c.service.inFlight := by rw [hframe]
  have hresults : (c.service.validate key delay).2.results = c.service.results := by rw [hframe]
  exact
    { delivery := ⟨_, Service.delivery_play hdelivery (.request key delay)⟩
      nodup := List.nodup_append.mpr ⟨h.nodup, by simp, by
        intro other hother _ hmem
        rw [List.mem_singleton] at hmem
        rintro rfl
        exact hkey (hmem ▸ hother)⟩
      sessions := by
        rw [hsessions, List.map_append, h.sessions]
        rfl
      split := by
        show ((c.service.validate key delay).2.registry.waitingKeys ++
          ((c.service.validate key delay).2.inFlight.map Flight.document ++
            ((c.service.validate key delay).2.results.toList.map RunResult.document ++
              c.applied))).Perm (keys ++ [key])
        rw [hwaiting, hflight, hresults, List.append_assoc]
        exact List.perm_middle.trans ((h.split.cons key).trans (List.perm_append_singleton _ _).symm)
      flights := fun flight hmem => hid _ _ (h.flights flight (hflight ▸ hmem))
      results := fun r hmem =>
        ⟨hid _ _ (h.results r (hresults ▸ hmem)).1, (h.results r (hresults ▸ hmem)).2⟩
      summaries := h.summaries
      diagnostics := by
        intro other
        rw [Service.diagnostics, Registry.published, Service.get?_validate]
        by_cases hother : other = key
        · subst hother
          show _ = if other ∈ c.applied then _ else []
          simp [Registry.getOrCreate_of_none hnone, happlied]
        · rw [if_neg hother]
          exact h.diagnostics other
      notices := by
        show (c.service.validate key delay).2.notices = _
        rw [hframe]
        exact h.notices }

/-- A service that has just been created is a check of no documents. -/
theorem create (report : DocumentKey → Report) (compiler : Options) (settings : Settings) :
    Checking report (Service.create compiler settings).notices []
      ⟨Service.create compiler settings, []⟩ where
  delivery := ⟨[], Service.delivery_create compiler settings⟩
  nodup := .nil
  sessions := rfl
  split := .nil
  flights := by
    intro flight hflight
    cases hflight
  results := by
    intro r hr
    cases hr
  summaries := by
    intro summary hsummary
    cases hsummary
  diagnostics := fun _ => rfl
  notices := (List.append_nil _).symm

/-- A request without a delay is due at once. -/
theorem prompt_request (h : Checking report base keys c) {key : DocumentKey} (hkey : key ∉ keys)
    (hprompt : c.service.Prompt) : (c.service.validate key 0).2.Prompt := by
  have hnow : (c.service.validate key 0).2.now = c.service.now := by rw [Service.validate_frame]
  refine ⟨by rw [Service.validate_frame]; exact hprompt.idle, ?_⟩
  intro entry hentry waiting hwaiting
  rw [(h.sessions_validate hkey 0).2, List.mem_append, List.mem_singleton] at hentry
  rw [hnow]
  rcases hentry with hold | rfl
  · exact hprompt.due entry hold waiting hwaiting
  · simp only [Service.sessionAfterRequest, Registry.getOrCreate_of_none (h.get?_eq_none hkey)]
      at hwaiting
    cases hwaiting
    rfl

/-- Requests for further documents, one after the other, are all accepted. -/
theorem requests {todo : List DocumentKey} (h : Checking report base keys c)
    (hnodup : (keys ++ todo).Nodup) (accepted : Nat) :
    let requested := todo.foldl (fun (accepted, s) key =>
      let (ok, s) := s.validate key 0
      (if ok then accepted + 1 else accepted, s)) (accepted, c.service)
    requested.1 = accepted + todo.length ∧
      Checking report base (keys ++ todo) { c with service := requested.2 } ∧
      (c.service.Prompt → requested.2.Prompt) := by
  -- by induction on the documents to be requested; those before them are already part of the
  -- check.
  induction todo generalizing keys c accepted with
  | nil => exact ⟨rfl, by simpa using h, id⟩
  | cons key todo ih =>
    have hkey : key ∉ keys := fun hmem =>
      (List.nodup_append.mp hnodup).2.2 key hmem key (by simp) rfl
    have hrest : (keys ++ [key] ++ todo).Nodup := by simpa using hnodup
    have hok := (h.sessions_validate hkey 0).1
    obtain ⟨hcount, hchecking, hprompt⟩ := ih (h.request hkey 0) hrest (accepted + 1)
    simp only [List.foldl_cons, hok, if_true, List.length_cons]
    rw [List.append_assoc, List.singleton_append] at hchecking
    exact ⟨by rw [hcount]; omega, hchecking, fun h₀ => hprompt (h.prompt_request hkey h₀)⟩

end Checking

/-- **A check begins** with the requests of its documents, all of which are accepted and due. -/
theorem checking_startCheck (report : DocumentKey → Report) (config : Config)
    (files : List String) :
    (startCheck config files).1 = (checkedKeys files).length ∧
      Checking report
        (Service.create config.options { config.settings with enabled := true }).notices
        (checkedKeys files) ⟨(startCheck config files).2, []⟩ ∧
      (startCheck config files).2.Prompt := by
  have hnodup : ([] ++ checkedKeys files).Nodup := DocumentKey.nodup_sortDistinct _
  obtain ⟨hcount, hchecking, hprompt⟩ :=
    (Checking.create report config.options { config.settings with enabled := true }).requests
      hnodup 0
  exact ⟨hcount.trans (Nat.zero_add _), hchecking, hprompt ⟨rfl, fun _ hentry => by cases hentry⟩⟩

end KspWorkbench
