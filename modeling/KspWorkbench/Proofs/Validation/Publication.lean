import KspWorkbench.Proofs.Validation.Delivery

/-!
# What is published

The diagnostics of a document are those of one run, all of them and nothing else. The runs of a
session whose results have been applied are the first ones that the session started, in the order of
their starts (`History.AppliedRuns`): results wait in one queue, a session has one run at a time, and
a session that is alive drops no result of its own. What is shown is the report of the last of them,
and since the list only grows, a document never goes back to an older run.
-/

namespace KspWorkbench

namespace Service

/-! ## §1 — applied results -/

/-- The result that was applied, if one was. -/
def Event.applied? : Event → Option RunResult
  | .taken result _ (some _) => some result
  | _ => none

namespace History

/-- The results of a session that were taken from the queue. -/
def takenOf (L : History) (id : SessionId) : List RunResult :=
  L.taken.filter (·.session = id)

/-- The results of a session that were applied. -/
def appliedOf (L : History) (id : SessionId) : List RunResult :=
  (L.filterMap Event.applied?).filter (·.session = id)

@[simp] theorem takenOf_append (L L' : History) (id : SessionId) :
    takenOf (L ++ L') id = takenOf L id ++ takenOf L' id := by
  simp [takenOf]

@[simp] theorem appliedOf_append (L L' : History) (id : SessionId) :
    appliedOf (L ++ L') id = appliedOf L id ++ appliedOf L' id := by
  simp [appliedOf]

/-- The runs of a session whose results have been applied, in the order of their starts: the session
started no run before one of them that is not one of them. -/
structure AppliedRuns (L : History) (id : SessionId) (runs : List (Flight × Report)) : Prop where
  started : runs.map Prod.fst <+: L.startsOf id
  ended : runs <+: L.endsOf id
  applied : L.appliedOf id = runs.map resultOf

end History

/-- The diagnostics that the last of some runs found; none without a run. -/
def lastDiagnostics (runs : List (Flight × Report)) : List Diagnostic :=
  match runs.getLast? with
  | none => []
  | some run => run.2.diagnostics

/-- The diagnostics in the last of some results; none without a result. -/
def lastReported (results : List RunResult) : List Diagnostic :=
  match results.getLast? with
  | none => []
  | some r => r.report.diagnostics

theorem lastReported_map (runs : List (Flight × Report)) :
    lastReported (runs.map resultOf) = lastDiagnostics runs := by
  rw [lastReported, List.getLast?_map, lastDiagnostics]
  cases runs.getLast? <;> rfl

/-! ## §2 — what a session shows -/

/-- Every result of a session that is alive was applied when it was taken, and the session shows the
diagnostics of the last one. -/
structure Shows (L : History) (session : Session) : Prop where
  applied : L.appliedOf session.id = L.takenOf session.id
  shown : session.diagnostics = lastReported (L.takenOf session.id)

/-- What is shown stays the same while nothing is taken for the session. -/
theorem Shows.append {L E : History} {old session : Session} (h : Shows L old)
    (hid : old.id = session.id) (hdiag : old.diagnostics = session.diagnostics)
    (htaken : E.takenOf session.id = []) (happlied : E.appliedOf session.id = []) :
    Shows (L ++ E) session where
  applied := by
    rw [History.appliedOf_append, History.takenOf_append, ← hid, h.applied, hid, htaken, happlied]
  shown := by
    rw [History.takenOf_append, htaken, List.append_nil, ← hid, ← hdiag]
    exact h.shown

/-- A session that has just been made shows nothing. -/
theorem shows_of_fresh {L : History} {session : Session} (htaken : L.takenOf session.id = [])
    (happlied : L.appliedOf session.id = []) (hdiag : session.diagnostics = []) :
    Shows L session where
  applied := by rw [htaken, happlied]
  shown := by rw [hdiag, htaken]; rfl

/-- Applied results have been taken. -/
theorem mem_taken_of_applied {L : History} {r : RunResult} (h : r ∈ L.filterMap Event.applied?) :
    r ∈ L.taken := by
  obtain ⟨e, he, happlied⟩ := List.mem_filterMap.mp h
  refine List.mem_filterMap.mpr ⟨e, he, ?_⟩
  cases e with
  | taken result configured summary =>
    cases summary with
    | none => cases happlied
    | some _ => exact happlied
  | _ => cases happlied

theorem appliedOf_eq_nil_of_takenOf {L : History} {id : SessionId} (h : L.takenOf id = []) :
    L.appliedOf id = [] := by
  rw [History.appliedOf, List.filter_eq_nil_iff]
  intro r hr
  exact List.filter_eq_nil_iff.mp h r (mem_taken_of_applied hr)

/-- Nothing has been taken for an identity that is still to be handed out. -/
theorem Delivery.takenOf_eq_nil {L : History} {s : Service} (h : Delivery L s) {id : SessionId}
    (hnew : id = s.registry.lastId + 1) : L.takenOf id = [] := by
  rw [History.takenOf, List.filter_eq_nil_iff]
  intro r hr hid
  have hle := h.session_le (List.mem_append_left _ hr)
  rw [show r.session = id by simpa using hid, hnew] at hle
  exact Nat.not_succ_le_self _ hle

/-- Only the application of a result takes one. -/
theorem taken_eq_nil {s : Service} {m : Move} (hm : m ≠ .applyNext) : (s.emits m).taken = [] := by
  refine List.filterMap_eq_nil_iff.mpr fun event hmem => ?_
  cases eventOf_of_mem hmem with
  | taken => exact absurd rfl hm
  | _ => rfl

theorem applied_eq_nil {s : Service} {m : Move} (hm : m ≠ .applyNext) :
    (s.emits m).filterMap Event.applied? = [] := by
  refine List.eq_nil_iff_forall_not_mem.mpr fun r hr => ?_
  have htaken := mem_taken_of_applied hr
  rw [taken_eq_nil hm] at htaken
  cases htaken

/-! ## §3 — the application of a result -/

/-- What the record of an application says of one session. -/
theorem takenOf_taken (r : RunResult) (configured : String) (summary : Option RunSummary)
    (id : SessionId) :
    History.takenOf [.taken r configured summary] id = if r.session = id then [r] else [] := by
  by_cases hid : r.session = id <;>
    simp [History.takenOf, History.taken, Event.taken?, hid]

theorem appliedOf_taken (r : RunResult) (configured : String) (summary : RunSummary)
    (id : SessionId) :
    History.appliedOf [.taken r configured (some summary)] id =
      if r.session = id then [r] else [] := by
  by_cases hid : r.session = id <;> simp [History.appliedOf, Event.applied?, hid]

/-- Whatever becomes of a result of another session, what is shown stays the same. -/
theorem Shows.append_taken_other {L : History} {session : Session} (h : Shows L session)
    {r : RunResult} (hne : r.session ≠ session.id) {configured : String}
    {summary : Option RunSummary} : Shows (L ++ [.taken r configured summary]) session := by
  have htaken : History.takenOf [.taken r configured summary] session.id = [] := by
    rw [takenOf_taken, if_neg hne]
  exact h.append rfl rfl htaken (appliedOf_eq_nil_of_takenOf htaken)

/-- The session that a result is applied to shows its diagnostics. -/
theorem shows_of_applied {L : History} {s : Service} {session : Session} (h : Shows L session)
    {r : RunResult} (hid : session.id = r.session) (configured : String) (summary : RunSummary) :
    Shows (L ++ [.taken r configured (some summary)]) (s.sessionAfterResult r session) where
  applied := by
    rw [History.appliedOf_append, History.takenOf_append, takenOf_taken, appliedOf_taken,
      show (s.sessionAfterResult r session).id = session.id from rfl, h.applied]
  shown := by
    rw [History.takenOf_append, takenOf_taken,
      show (s.sessionAfterResult r session).id = session.id from rfl, if_pos hid.symm,
      lastReported, List.getLast?_concat]
    rfl

/-- The session that a result is applied to shows that result from then on; all others show what
they did. -/
theorem shows_applyNext {L : History} {s : Service} (hd : Delivery L s)
    (h : ∀ key session, s.registry.get? key = some session → Shows L session)
    {key : DocumentKey} {session : Session}
    (hget : (s.play .applyNext).registry.get? key = some session) :
    Shows (L ++ s.emits .applyNext) session := by
  cases hready : s.results.ready with
  | nil =>
    rw [play, applyNext_of_empty hready] at hget
    rw [emits, hready]
    simpa using h key session hget
  | cons r rest =>
    have hwaits : r ∈ L.taken ++ s.results.toList := by
      refine List.mem_append_right _ ?_
      rw [ResultQueue.toList, hready]
      simp
    rcases applyNext_of_ready hready with ⟨hcur, hnext⟩ | ⟨owner, howner, hid, hnext⟩
    · rw [play, hnext] at hget
      rw [emits, hready, hnext]
      -- the result is dropped, so it belongs to no session that is alive.
      have hne : r.session ≠ session.id := by
        intro heq
        have hdoc := hd.document_eq hwaits hget heq
        exact Registry.current?_eq_none_iff.mp hcur session (by rw [hdoc]; exact hget) heq.symm
      exact (h key session hget).append_taken_other hne
    · rw [play, hnext] at hget
      rw [emits, hready, hnext]
      simp only [Registry.get?_modify] at hget
      by_cases hkey : key = r.document
      · subst hkey
        rw [if_pos rfl, howner] at hget
        cases hget
        exact shows_of_applied (h _ owner howner) hid _ _
      · rw [if_neg hkey] at hget
        -- two documents never share an identity, so the result is not one of this session.
        have hne : r.session ≠ session.id := by
          intro heq
          exact hkey (hd.distinct.unique hget howner (by rw [hid, heq]))
        exact (h key session hget).append_taken_other hne

/-- **What a session shows**, after any move. -/
theorem shows_play {L : History} {s : Service} (hd : Delivery L s)
    (h : ∀ key session, s.registry.get? key = some session → Shows L session) (m : Move)
    {key : DocumentKey} {session : Session}
    (hget : (s.play m).registry.get? key = some session) : Shows (L ++ s.emits m) session := by
  by_cases hm : m = .applyNext
  · subst hm
    exact shows_applyNext hd h hget
  · have htaken : (s.emits m).takenOf session.id = [] := by
      rw [History.takenOf, taken_eq_nil hm]
      rfl
    have happlied := appliedOf_eq_nil_of_takenOf htaken
    rcases (origin_of_get?_play hget).old_or_new with
      ⟨old, hold, hold_id, hdiag⟩ | ⟨-, hnew, hempty, -⟩
    · exact (h key old hold).append hold_id (hdiag hm) htaken happlied
    -- the session has just been made: no result can bear its identity yet.
    · have hnone := hd.takenOf_eq_nil hnew
      exact shows_of_fresh (by rw [History.takenOf_append, hnone, htaken]; rfl)
        (by rw [History.appliedOf_append, appliedOf_eq_nil_of_takenOf hnone, happlied]; rfl) hempty

/-- **What a session shows** is the last result that was applied to it, after any actions. -/
theorem shows_performAll (compiler : Options) (settings : Settings) (actions : List Action) :
    ∀ key session,
      ((create compiler settings).performAll actions).registry.get? key = some session →
      Shows ((create compiler settings).history actions) session := by
  have h := history_induction
    (motive := fun L s => Delivery L s ∧
      ∀ key session, s.registry.get? key = some session → Shows L session)
    ⟨delivery_create compiler settings, fun key session hget => by cases hget⟩
    (fun _ _ m h => ⟨delivery_play h.1 m, fun _ _ hget => shows_play h.1 h.2 m hget⟩) actions
  exact h.2

/-! ## §4 — the published run -/

/-- The results of one session, taken or waiting, are those of its runs that have ended. -/
theorem Delivery.fifoOf {L : History} {s : Service} (h : Delivery L s) (id : SessionId) :
    (L.endsOf id).map resultOf =
      L.takenOf id ++ s.results.toList.filter (·.session = id) := by
  have hfilter := congrArg (List.filter (·.session = id)) h.fifo
  rw [List.filter_map, List.filter_append] at hfilter
  exact hfilter

/-- A session that is alive has applied the results of its first runs. -/
theorem Delivery.exists_appliedRuns {L : History} {s : Service} (h : Delivery L s)
    {session : Session} (hshows : Shows L session) :
    ∃ runs, L.AppliedRuns session.id runs ∧ session.diagnostics = lastDiagnostics runs := by
  have hfifo := h.fifoOf session.id
  -- as many runs as results were taken, from the front.
  let runs := (L.endsOf session.id).take (L.takenOf session.id).length
  have hresults : L.takenOf session.id = runs.map resultOf := by
    rw [List.map_take, hfifo, List.take_left]
  have hended : runs <+: L.endsOf session.id := List.take_prefix _ _
  refine ⟨runs, ⟨?_, hended, ?_⟩, ?_⟩
  -- one run at a time: runs end in the order in which they start.
  · rw [h.flight.balance]
    exact (hended.map Prod.fst).trans (List.prefix_append _ _)
  · rw [hshows.applied, hresults]
  · rw [hshows.shown, hresults, lastReported_map]

/-- The runs whose results have been applied only become more. -/
theorem History.AppliedRuns.prefix_of_append {L E : History} {id : SessionId}
    {runs runs' : List (Flight × Report)} (h : L.AppliedRuns id runs)
    (h' : History.AppliedRuns (L ++ E) id runs') : runs <+: runs' := by
  have hended : runs <+: History.endsOf (L ++ E) id := by
    rw [History.endsOf_append]
    exact h.ended.trans (List.prefix_append _ _)
  -- both lists of runs begin the same list of ends, so it is enough to compare their lengths.
  refine List.prefix_of_prefix_length_le hended h'.ended ?_
  calc runs.length = (L.appliedOf id).length := by rw [h.applied, List.length_map]
    _ ≤ (History.appliedOf (L ++ E) id).length := by
        rw [History.appliedOf_append, List.length_append]
        exact Nat.le_add_right _ _
    _ = runs'.length := by rw [h'.applied, List.length_map]

/-- **Publication is atomic.** A document without a session has no diagnostics. Otherwise there are
the runs of its session whose results have been applied, in the order of their starts, and the
diagnostics of the document are the whole list that the last of them reported, or none if there is
no such run. Whatever happens later, as long as the session is the same the runs only become more:
what is published never goes back to an older run. -/
theorem atomic_publication (compiler : Options) (settings : Settings) (actions : List Action)
    (key : DocumentKey) :
    let s := (create compiler settings).performAll actions
    let L := (create compiler settings).history actions
    (s.registry.get? key = none → s.diagnostics key = []) ∧
    ∀ session, s.registry.get? key = some session →
      ∃ runs, L.AppliedRuns session.id runs ∧ s.diagnostics key = lastDiagnostics runs ∧
        ∀ more session', (s.performAll more).registry.get? key = some session' →
          session'.id = session.id →
          ∃ runs', (L ++ s.history more).AppliedRuns session.id runs' ∧ runs <+: runs' ∧
            (s.performAll more).diagnostics key = lastDiagnostics runs' := by
  intro s L
  refine ⟨fun hnone => Registry.published_of_none hnone, ?_⟩
  intro session hget
  have hd : Delivery L s := delivery_performAll compiler settings actions
  obtain ⟨runs, hruns, hdiag⟩ :=
    hd.exists_appliedRuns (shows_performAll compiler settings actions key session hget)
  refine ⟨runs, hruns, (Registry.published_of_get? hget).trans hdiag, ?_⟩
  intro more session' hget' hid
  -- the later state is one that the whole course leads to.
  have hd' := delivery_performAll compiler settings (actions ++ more)
  have hshows' := shows_performAll compiler settings (actions ++ more) key session'
  rw [performAll_append, history_append] at hd' hshows'
  obtain ⟨runs', hruns', hdiag'⟩ := hd'.exists_appliedRuns (hshows' hget')
  rw [hid] at hruns'
  exact ⟨runs', hruns', hruns.prefix_of_append hruns',
    (Registry.published_of_get? hget').trans hdiag'⟩

/-- Two runs of a session have ended, and the result of the first has been applied: its diagnostics
are shown until those of the second take their place. -/
theorem second_run_replaces_first :
    let key : DocumentKey := ⟨"a.ksp"⟩
    let settings : Settings := { filePatterns := [] }
    let report (message : String) : Report := ⟨.exited 1, [⟨.error, message, 0, "ksp"⟩], []⟩
    let actions : List Action :=
      [.validate key 0, .fire key, .complete 1 (report "first"), .validate key 0, .fire key,
       .complete 1 (report "second"), .poll 1]
    let s := (create {} settings).performAll actions
    let L := (create {} settings).history actions
    s.diagnostics key = (report "first").diagnostics ∧
    (s.performAll [.poll 1]).diagnostics key = (report "second").diagnostics ∧
    ∃ runs runs', L.AppliedRuns 1 runs ∧ s.diagnostics key = lastDiagnostics runs ∧
      (L ++ s.history [.poll 1]).AppliedRuns 1 runs' ∧ runs <+: runs' ∧
      (s.performAll [.poll 1]).diagnostics key = lastDiagnostics runs' := by
  intro key settings report actions
  have hone : (((create {} settings).performAll actions).registry.get? key).map Session.id =
      some 1 := by
    decide
  have hlast : ((((create {} settings).performAll actions).performAll [.poll 1]).registry.get?
      key).map Session.id = some 1 := by
    decide
  obtain ⟨session, hget, hid⟩ := Option.map_eq_some_iff.mp hone
  obtain ⟨session', hget', hid'⟩ := Option.map_eq_some_iff.mp hlast
  obtain ⟨-, hsession⟩ := atomic_publication {} settings actions key
  obtain ⟨runs, hruns, hshown, hlater⟩ := hsession session hget
  obtain ⟨runs', hruns', hmore, hshown'⟩ :=
    hlater [.poll 1] session' hget' (by rw [hid, hid'])
  rw [hid] at hruns hruns'
  exact ⟨by decide, by decide, runs, runs', hruns, hshown, hruns', hmore, hshown'⟩

end Service

end KspWorkbench
