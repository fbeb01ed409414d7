import KspWorkbench.Proofs.Command.Schedule

/-!
# The check as it is run

A check fires all its requests, lets the processes end in the order of their documents, and then
applies the results one by one. This is one of the schedules: `check_is_course`. What the runs report
is what the machine gave when it was asked to start them, so it is known only while the check goes
on; `Underway` keeps the record of it, and says that the course so far is one of a check whose runs
report what is in the record.
-/

namespace KspWorkbench

/-- What the runs of documents report, given their events. -/
def reportOf (events : DocumentKey → List RunEvent) (key : DocumentKey) : Report :=
  collectRun key (events key)

/-- The events of runs, as far as they are known. -/
abbrev RunRecord := List (DocumentKey × List RunEvent)

/-- The events of runs are those of a record. -/
def RunRecord.Agrees (record : RunRecord) (events : DocumentKey → List RunEvent) : Prop :=
  ∀ entry ∈ record, events entry.1 = entry.2

/-- A record without repetitions can be completed. -/
theorem RunRecord.exists_agrees {record : RunRecord} (hnodup : (record.map Prod.fst).Nodup) :
    ∃ events, record.Agrees events := by
  induction record with
  | nil => exact ⟨fun _ => [], fun _ hentry => by cases hentry⟩
  | cons first record ih =>
    rw [List.map_cons, List.nodup_cons] at hnodup
    obtain ⟨events, hevents⟩ := ih hnodup.2
    refine ⟨fun key => if key = first.1 then first.2 else events key, ?_⟩
    intro entry hentry
    rcases List.mem_cons.mp hentry with rfl | hrest
    · exact if_pos rfl
    · have hne : entry.1 ≠ first.1 := by
        intro heq
        exact hnodup.1 (heq ▸ List.mem_map_of_mem hrest)
      exact (if_neg hne).trans (hevents entry hrest)

/-- Without documents that are held, all processes end. -/
theorem Supervisor.finishSince_zero {σ : Type} {v : Supervisor σ} (hheld : v.held = []) :
    v.finishSince 0 = (v.suspended.mergeSort fun a b =>
      a.flight.document.le b.flight.document).foldl Supervisor.finish { v with suspended := [] } := by
  have hfree : v.suspended.partition (fun p => v.held.contains p.flight.document) =
      ([], v.suspended) := by
    rw [List.partition_eq_filter_filter, hheld]
    exact Prod.ext (List.filter_eq_nil_iff.mpr (by simp)) (List.filter_eq_self.mpr (by simp))
  rw [Supervisor.finishSince, List.drop_zero, hfree]
  rfl

/-! ## §1 — the runs start -/

/-- The run of a process, with the events that it is going to have. -/
def Suspended.run (p : Suspended) : Flight × List RunEvent :=
  (p.flight, p.process.events)

/-- **A check underway**, with the record of the runs that have started, and with those that have not
ended. -/
structure Underway (start : CheckRun) (accepted : Nat) (record : RunRecord) (service : Service)
    (runs : List (Flight × List RunEvent)) : Prop where
  nodup : (record.map Prod.fst).Nodup
  reaches : ∀ events, record.Agrees events →
    CheckRun.Reaches (reportOf events) accepted start ⟨service, []⟩
  recorded : ∀ run ∈ runs, (run.1.document, run.2) ∈ record
  flights : service.inFlight.Perm (runs.map Prod.fst)
  unknown : ∀ key ∈ service.registry.waitingKeys, key ∉ record.map Prod.fst

namespace Underway

variable {start : CheckRun} {accepted : Nat} {record : RunRecord} {service : Service}
  {runs : List (Flight × List RunEvent)} {base : List Notice} {keys : List DocumentKey}

/-- Some completion of the record makes a check underway one of the states of a check, so that
what holds of every check can be used before the reports of all runs are known. -/
theorem exists_checking (h : Underway start accepted record service runs)
    (hstart : ∀ report, Checking report base keys start) :
    ∃ events, Checking (reportOf events) base keys ⟨service, []⟩ := by
  obtain ⟨events, hevents⟩ := RunRecord.exists_agrees h.nodup
  exact ⟨events, (hstart _).reaches (h.reaches events hevents)⟩

theorem perm {runs' : List (Flight × List RunEvent)}
    (h : Underway start accepted record service runs) (hperm : runs.Perm runs') :
    Underway start accepted record service runs' :=
  { h with
    recorded := fun run hrun => h.recorded run (hperm.mem_iff.mpr hrun)
    flights := h.flights.trans (hperm.map _) }

/-- **A run starts**, and whatever its events are going to be is recorded. -/
theorem fire (h : Underway start accepted record service runs)
    (hstart : ∀ report, Checking report base keys start) {key : DocumentKey}
    (hwaits : key ∈ service.registry.waitingKeys) :
    ∃ flight, (service.fire key).1 = some flight ∧
      (service.fire key).2.registry.waitingKeys =
        service.registry.waitingKeys.filter (· != key) ∧
      ∀ events, Underway start accepted (record ++ [(key, events)]) (service.fire key).2
        (runs ++ [(flight, events)]) := by
  obtain ⟨known, hchecking⟩ := h.exists_checking hstart
  obtain ⟨session, waiting, -, -, hfire⟩ := hchecking.fire_eq hwaits
  have hwaiting : (service.fire key).2.registry.waitingKeys =
      service.registry.waitingKeys.filter (· != key) := by
    rw [hfire]
    exact Registry.waitingKeys_modify_cancel _ _ fun _ => rfl
  -- the run of the fired document is the one entry that comes to the record; until its process
  -- ends it is also the one flight that is added.
  refine ⟨⟨session.id, key, waiting.task⟩, by rw [hfire], hwaiting, fun events => ?_⟩
  have hunknown := h.unknown key hwaits
  refine
    { nodup := ?_
      reaches := fun all hall =>
        (h.reaches all fun entry hentry => hall entry (List.mem_append_left _ hentry)).tail
          (.fire hwaits)
      recorded := ?_
      flights := ?_
      unknown := ?_ }
  -- no document of the record is still waiting, so the new entry repeats none.
  · rw [List.map_append]
    refine List.nodup_append.mpr ⟨h.nodup, List.pairwise_singleton _ _, ?_⟩
    rintro other hother _ hmem rfl
    rw [List.map_singleton, List.mem_singleton] at hmem
    subst hmem
    exact hunknown hother
  · intro run hrun
    rcases List.mem_append.mp hrun with hold | hnew
    · exact List.mem_append_left _ (h.recorded run hold)
    · rw [List.mem_singleton] at hnew
      subst hnew
      exact List.mem_append_right _ (List.mem_singleton_self _)
  · rw [hfire, List.map_append]
    exact h.flights.append_right _
  · intro other hother hmem
    rw [hwaiting] at hother
    obtain ⟨hwaits', hne⟩ := List.mem_filter.mp hother
    rw [List.map_append, List.mem_append] at hmem
    rcases hmem with hold | hnew
    · exact h.unknown other hwaits' hold
    · rw [List.map_singleton, List.mem_singleton] at hnew
      exact bne_iff_ne.mp hne hnew

/-- **A run ends** with the events that were recorded. -/
theorem finish {run : Flight × List RunEvent}
    (h : Underway start accepted record service (run :: runs))
    (hstart : ∀ report, Checking report base keys start) :
    Underway start accepted record
        (service.complete run.1.session (collectRun run.1.document run.2)) runs ∧
      (service.complete run.1.session (collectRun run.1.document run.2)).registry =
        service.registry := by
  have hmem : run.1 ∈ service.inFlight :=
    h.flights.mem_iff.mpr (List.mem_map_of_mem List.mem_cons_self)
  have hframe : (service.complete run.1.session (collectRun run.1.document run.2)).registry =
      service.registry := by
    rw [Service.complete_frame]
  obtain ⟨known, hchecking⟩ := h.exists_checking hstart
  obtain ⟨hland, hperm⟩ := hchecking.complete_eq hmem (collectRun run.1.document run.2)
  refine ⟨⟨h.nodup, ?_, fun other hother => h.recorded other (List.mem_cons_of_mem _ hother), ?_,
    ?_⟩, hframe⟩
  · intro events hevents
    -- the run ends with what the record has of it, and so does the step of the schedule.
    have hknown : events run.1.document = run.2 :=
      hevents _ (h.recorded run List.mem_cons_self)
    have hstep : CheckRun.Step (reportOf events) accepted ⟨service, []⟩ _ := .finish hmem
    rw [reportOf, hknown] at hstep
    exact (h.reaches events hevents).tail hstep
  · rw [hland]
    exact (hperm.symm.trans h.flights).cons_inv
  · rw [hframe]
    exact h.unknown

variable {σ : Type}

/-- **A request is launched**: its process is suspended, or its run has ended at once because there
is no process. -/
theorem launch (m : Machine σ) {v : Supervisor σ}
    (h : Underway start accepted record v.service (v.suspended.map Suspended.run))
    (hstart : ∀ report, Checking report base keys start) {key : DocumentKey}
    (hwaits : key ∈ v.service.registry.waitingKeys) :
    ∃ record', Underway start accepted record' (v.launch m key).service
        ((v.launch m key).suspended.map Suspended.run) ∧
      (v.launch m key).service.registry.waitingKeys =
        v.service.registry.waitingKeys.filter (· != key) ∧
      (v.launch m key).held = v.held := by
  obtain ⟨flight, hflight, hwaiting, hfired⟩ := h.fire hstart hwaits
  have hfire : v.service.fire key = (some flight, (v.service.fire key).2) := by rw [← hflight]
  rcases hmachine : m.start v.machine flight.plan.request with ⟨outcome, machine⟩
  have hunderway := hfired (startEvents outcome)
  -- a process that could not be started has its result at once, so that firing and ending are
  -- one launch.
  cases outcome with
  | ok process =>
    have hlaunch : v.launch m key =
        { v with
          service := (v.service.fire key).2
          machine := machine
          suspended := v.suspended ++ [⟨flight, process⟩] } := by
      rw [Supervisor.launch, hfire]
      simp only [hmachine]
    rw [hlaunch]
    refine ⟨record ++ [(key, process.events)], ?_, hwaiting, rfl⟩
    rw [List.map_append]
    exact hunderway
  | error e =>
    have hlaunch : (v.launch m key).service = (v.service.fire key).2.complete flight.session
          (collectRun flight.document (startEvents (.error e))) ∧
        (v.launch m key).suspended = v.suspended ∧ (v.launch m key).held = v.held := by
      rw [Supervisor.launch, hfire]
      simp only [hmachine]
      exact ⟨rfl, rfl, rfl⟩
    obtain ⟨hended, hregistry⟩ := (hunderway.perm (List.perm_append_singleton _ _)).finish hstart
    rw [hlaunch.1, hlaunch.2.1, hregistry]
    exact ⟨_, hended, hwaiting, hlaunch.2.2⟩

/-- All waiting documents are launched, in whatever order they fall due: none waits any more, and
the check is underway with all their runs recorded. -/
theorem launchAll (m : Machine σ) {v : Supervisor σ} {due : List DocumentKey}
    (h : Underway start accepted record v.service (v.suspended.map Suspended.run))
    (hstart : ∀ report, Checking report base keys start)
    (hdue : v.service.registry.waitingKeys.Perm due) :
    ∃ record', Underway start accepted record' (due.foldl (Supervisor.launch m) v).service
        ((due.foldl (Supervisor.launch m) v).suspended.map Suspended.run) ∧
      (due.foldl (Supervisor.launch m) v).service.registry.waitingKeys = [] ∧
      (due.foldl (Supervisor.launch m) v).held = v.held := by
  -- by induction on the documents that are due, which are those still waiting after each launch.
  induction due generalizing v record with
  | nil => exact ⟨record, h, hdue.eq_nil, rfl⟩
  | cons key due ih =>
    have hwaits : key ∈ v.service.registry.waitingKeys := hdue.mem_iff.mpr (by simp)
    obtain ⟨events, hchecking⟩ := h.exists_checking hstart
    have hrest : (v.service.registry.waitingKeys.filter (· != key)).Perm due :=
      ((hchecking.perm_filter_waiting hwaits).symm.trans hdue).cons_inv
    obtain ⟨record', hlaunched, hwaiting, hheld⟩ := h.launch m hstart hwaits
    obtain ⟨record'', hlast, hnone, hheld'⟩ := ih hlaunched (hwaiting ▸ hrest)
    exact ⟨record'', hlast, hnone, hheld'.trans hheld⟩

/-! ## §2 — the processes end -/

/-- The processes end one after another, and the registry knows nothing of it: a result that has
come in changes nothing until it is applied. -/
theorem finishAll {v : Supervisor σ} {processes : List Suspended}
    (h : Underway start accepted record v.service (processes.map Suspended.run))
    (hstart : ∀ report, Checking report base keys start) :
    Underway start accepted record (processes.foldl Supervisor.finish v).service [] ∧
      (processes.foldl Supervisor.finish v).service.registry = v.service.registry := by
  induction processes generalizing v with
  | nil => exact ⟨h, rfl⟩
  | cons p processes ih =>
    obtain ⟨hended, hregistry⟩ := h.finish hstart
    obtain ⟨hlast, hregistry'⟩ := ih (v := v.finish p) hended
    exact ⟨hlast, hregistry'.trans hregistry⟩

/-- **Everything that is due is done**, if all that wait are due and no process is held: then nothing
waits and nothing is in flight. -/
theorem settle (m : Machine σ) {service : Service} {machine : σ} {due : List DocumentKey}
    (h : Underway start accepted [] service [])
    (hstart : ∀ report, Checking report base keys start)
    (hkeys : Supervisor.dueKeys { service := service, machine := machine } = due)
    (hdue : service.registry.waitingKeys.Perm due) :
    ∃ record last, Underway start accepted record last [] ∧ last.registry.waitingKeys = [] ∧
      (Supervisor.settle m { service := service, machine := machine }).service = last.refill := by
  obtain ⟨record, hlaunched, hwaiting, hheld⟩ :=
    launchAll m (v := { service := service, machine := machine }) h hstart hdue
  -- the order in which the processes end is of no account.
  have hsorted := hlaunched.perm ((List.mergeSort_perm _
    fun a b => a.flight.document.le b.flight.document).symm.map Suspended.run)
  obtain ⟨hlast, hregistry⟩ := finishAll
    (v := { due.foldl (Supervisor.launch m) { service := service, machine := machine } with
      suspended := [] }) hsorted hstart
  refine ⟨record, _, hlast, hregistry ▸ hwaiting, ?_⟩
  rw [Supervisor.settle, hkeys]
  exact congrArg (fun v => v.service.refill) (Supervisor.finishSince_zero hheld)

end Underway

/-- The documents that a supervisor finds due are those that wait, when every delay is over. It
finds them sorted by time and ticket, so this is up to their order. -/
theorem Service.Prompt.perm_dueKeys {s : Service} (h : s.Prompt) {σ : Type} (machine : σ) :
    s.registry.waitingKeys.Perm
      (Supervisor.dueKeys { service := s, machine := machine }) := by
  -- without the sorting, both lists go through the sessions, and no time lies ahead.
  have hunsorted : (((s.registry.sessions.filterMap fun entry =>
      (dueTime? entry.2).map fun time => (time.1, time.2, entry.1)).map
        fun waiting => (waiting.1, waiting.2.2)).filter fun entry => entry.1 ≤ s.now).map Prod.snd =
      s.registry.waitingKeys := by
    have hdue := h.due
    unfold Registry.waitingKeys
    generalize s.registry.sessions = sessions at hdue ⊢
    induction sessions with
    | nil => rfl
    | cons entry sessions ih =>
      obtain ⟨key, session⟩ := entry
      have hrest := ih fun other hother => hdue other (List.mem_cons_of_mem _ hother)
      cases hwaiting : session.gate.waiting with
      | none => simpa [dueTime?, hwaiting] using hrest
      | some waiting =>
        have hnow := hdue (key, session) List.mem_cons_self waiting hwaiting
        simpa [dueTime?, hwaiting, hnow] using hrest
  rw [← hunsorted]
  exact (((List.mergeSort_perm _ _).symm.map _).filter _).map _

/-! ## §3 — the results are applied -/

namespace Checking

variable {report : DocumentKey → Report} {base : List Notice} {keys : List DocumentKey}
  {c : CheckRun}

/-- A queue takes nothing in when nothing is outside, or when it is full. -/
theorem refill_eq_self {q : ResultQueue}
    (h : ¬ (q.outside ≠ [] ∧ q.ready.length < ResultQueue.capacity)) : q.refill = q := by
  obtain ⟨ready, outside⟩ := q
  rw [not_and_or, not_not] at h
  rcases h with hnone | hfull
  · have hnone : outside = [] := hnone
    simp [ResultQueue.refill, hnone]
  · have hplaces : ResultQueue.capacity - ready.length = 0 :=
      Nat.sub_eq_zero_of_le (Nat.not_lt.mp hfull)
    simp [ResultQueue.refill, hplaces]

/-- Letting results in is a step, or nothing comes in. -/
theorem reaches_refill (report : DocumentKey → Report) (c : CheckRun) (accepted : Nat) :
    CheckRun.Reaches report accepted c { c with service := c.service.refill } := by
  by_cases hstep : c.service.results.outside ≠ [] ∧
      c.service.results.ready.length < ResultQueue.capacity
  · exact .single (.refill hstep.1 hstep.2)
  · have hservice : c.service.refill = c.service := by
      rw [Service.refill, refill_eq_self hstep]
    rw [hservice]

/-- A queue that has any result has one ready once it has taken in what it can. -/
theorem exists_ready_refill {q : ResultQueue} (h : q.toList ≠ []) :
    ∃ r rest, q.refill.ready = r :: rest := by
  obtain ⟨ready, outside⟩ := q
  cases ready with
  | cons r ready => exact ⟨r, _, rfl⟩
  | nil =>
    cases outside with
    | nil => exact absurd rfl h
    | cons r outside => exact ⟨r, _, rfl⟩

/-- **The results are applied one by one**, if nothing waits and nothing is in flight. -/
theorem collectRuns (h : Checking report base keys c) (hwaiting : c.waiting = [])
    (hflight : c.service.inFlight = []) {n : Nat} (hn : c.summaries.length + n = keys.length) :
    ∃ c', CheckRun.Reaches report keys.length c c' ∧ c'.summaries.length = keys.length ∧
      c'.summaries = c.summaries ++ (KspWorkbench.collectRuns c.service n).1 ∧
      c'.service = (KspWorkbench.collectRuns c.service n).2 := by
  induction n generalizing c with
  | zero => exact ⟨c, .refl, hn, (List.append_nil _).symm, rfl⟩
  | succ n ih =>
    have hin := reaches_refill report c keys.length
    have hrefill := h.reaches hin
    -- a summary is missing, and its document can only be in the queue.
    have hqueued : c.service.results.toList ≠ [] := by
      intro hnone
      have hlength := h.split.length_eq
      simp only [hwaiting, CheckRun.flying, hflight, CheckRun.queued, hnone, CheckRun.applied,
        List.map_nil, List.nil_append, List.length_map] at hlength
      omega
    obtain ⟨r, rest, hready⟩ := exists_ready_refill hqueued
    obtain ⟨publish, hpublish, hnext, happly⟩ := hrefill.nextRun_eq hready
    have hreceive : CheckRun.Step report keys.length
        { c with service := c.service.refill } _ := .receive (by dsimp only; omega) hnext
    have hwaiting' : (c.service.refill.applyNext.2).registry.waitingKeys = [] := by
      rw [happly]
      exact (Registry.waitingKeys_modify_of_gate _ _ fun s => (hpublish s).2.1).trans hwaiting
    have hflight' : (c.service.refill.applyNext.2).inFlight = [] := by
      rw [happly]
      exact hflight
    have hcount : (c.summaries ++ [(report r.document).summary r.document]).length + n =
        keys.length := by
      rw [List.length_append, List.length_singleton]
      omega
    obtain ⟨c', hreach, hdone, hsummaries, hservice⟩ :=
      ih (hrefill.step hreceive) hwaiting' hflight' hcount
    refine ⟨c', (hin.tail hreceive).trans hreach, hdone, ?_, ?_⟩
    · rw [hsummaries, KspWorkbench.collectRuns, hnext]
      simp
    · rw [hservice, KspWorkbench.collectRuns, hnext]

end Checking

/-- **The check as it is run is one of the schedules**, for runs that report what the machine gave. -/
theorem check_is_course {σ : Type} (m : Machine σ) (s : σ) (config : Config)
    (files : List String) :
    ∃ events c, CheckRun.Reaches (reportOf events) (checkedKeys files).length
        ⟨(startCheck config files).2, []⟩ c ∧
      c.summaries.length = (checkedKeys files).length ∧
      (check m s config files).1 = concludeCheck c.summaries c.service := by
  have hstart := fun report => (checking_startCheck report config files).2.1
  obtain ⟨hcount, hbegin, hprompt⟩ := checking_startCheck (reportOf fun _ => []) config files
  have hfirst : Underway ⟨(startCheck config files).2, []⟩ (checkedKeys files).length []
      (startCheck config files).2 [] :=
    { nodup := List.nodup_nil
      reaches := fun _ _ => .refl
      recorded := fun _ hrun => by cases hrun
      flights := .of_eq hprompt.idle
      unknown := fun _ _ hmem => by cases hmem }
  obtain ⟨record, last, hlast, hwaiting, hsettle⟩ :=
    hfirst.settle m hstart rfl (hprompt.perm_dueKeys s)
  -- all runs have ended, so what they report can be fixed now, for the course as a whole.
  obtain ⟨events, hevents⟩ := RunRecord.exists_agrees hlast.nodup
  have hreach := (hlast.reaches events hevents).trans (Checking.reaches_refill _ _ _)
  obtain ⟨c, hcollect, hdone, hsummaries, hservice⟩ :=
    ((hstart _).reaches hreach).collectRuns hwaiting hlast.flights.eq_nil (Nat.zero_add _)
  refine ⟨events, c, hreach.trans hcollect, hdone, ?_⟩
  rw [hsummaries, hservice, check]
  dsimp only
  rw [hcount, hsettle]
  rfl

end KspWorkbench
