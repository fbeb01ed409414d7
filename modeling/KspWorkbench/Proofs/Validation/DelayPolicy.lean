import KspWorkbench.Proofs.Compiler.RunReport
import KspWorkbench.Proofs.Validation.LiveEdits
import KspWorkbench.Proofs.Validation.Notices

/-!
# The delay of live validation

A configuration may give a delay that is too short. It is replaced by the default, and the first
time this happens a warning is queued. Whether it has happened is kept in a flag, and the queue is
drained at any time, so the warnings are counted over the whole life of a service.

* **`noticesEver`** — all notices of a course, fetched or not; an action adds what it queues
  (`noticesEver_concat`).
* **`document_of_queued`** — a notice that no configuration queued is about a document.
* **`delay_policy`** — the delay in force, and the warnings of a whole course.
-/

namespace KspWorkbench

namespace Service

/-! ## §1 — the notices of a course -/

/-- The notices that an action hands out. -/
def fetchedBy (s : Service) : Action → List Notice
  | .drainNotices => s.drainNotices.1
  | _ => []

def fetched (s : Service) : List Action → List Notice
  | [] => []
  | a :: actions => s.fetchedBy a ++ (s.perform a).fetched actions

/-- The notices that were fetched in a course, and behind them those that wait at its end. -/
def noticesEver (s : Service) (actions : List Action) : List Notice :=
  s.fetched actions ++ (s.performAll actions).notices

theorem fetched_concat (s : Service) (actions : List Action) (a : Action) :
    s.fetched (actions ++ [a]) = s.fetched actions ++ (s.performAll actions).fetchedBy a := by
  induction actions generalizing s with
  | nil => exact List.append_nil _
  | cons first actions ih =>
    rw [List.cons_append, fetched, fetched, ih, List.append_assoc]
    rfl

/-- A notice that is fetched is not left behind, and one that is queued comes last. -/
theorem fetchedBy_append_notices (s : Service) (a : Action) :
    s.fetchedBy a ++ (s.perform a).notices = s.notices ++ s.queuedBy a := by
  by_cases ha : a = .drainNotices
  · subst ha
    rfl
  · rw [notices_perform s ha]
    cases a with
    | drainNotices => exact absurd rfl ha
    | _ => rfl

/-- **An action adds what it queues**, whether it drains the queue or not. -/
theorem noticesEver_concat (s : Service) (actions : List Action) (a : Action) :
    s.noticesEver (actions ++ [a]) =
      s.noticesEver actions ++ (s.performAll actions).queuedBy a := by
  have hperform : s.performAll (actions ++ [a]) = (s.performAll actions).perform a :=
    performAll_append s actions [a]
  rw [noticesEver, noticesEver, fetched_concat, hperform, List.append_assoc,
    fetchedBy_append_notices, List.append_assoc]

/-! ## §2 — what configurations queue -/

/-- Routine moves queue nothing. -/
theorem queuedAll_of_isRoutine (s : Service) {ms : List Move}
    (hms : ms.all Move.isRoutine = true) : s.queuedAll ms = [] := by
  induction ms generalizing s with
  | nil => rfl
  | cons m ms ih =>
    rw [List.all_cons, Bool.and_eq_true] at hms
    rw [queuedAll, ih _ hms.2, List.append_nil]
    cases m with
    | reconfigure compiler settings => cases hms.1
    | applyNext => cases hms.1
    | _ => rfl

/-- A new configuration queues its warnings, and the requests that follow it queue nothing. -/
theorem queuedBy_applyConfig (s : Service) (compiler : Options) (settings : Settings) :
    s.queuedBy (.applyConfig compiler settings) = s.configWarnings settings := by
  rw [queuedBy, movesOf, queuedAll, queuedAll_of_isRoutine _ (all_isRoutine_revalidated _ settings),
    List.append_nil]
  rfl

/-- Whether a notice is a warning about a short delay. -/
def isDelayWarning (n : Notice) : Bool :=
  n.kind = .configWarning ∧ n.document = none ∧
    "Live validation delay of ".toList <+: n.message.toList

theorem isDelayWarning_shortDelayNotice (delay : Nat) :
    isDelayWarning (shortDelayNotice delay) = true := by
  simp [isDelayWarning, shortDelayNotice]

theorem isDelayWarning_badPatternNotice (pattern : String) :
    isDelayWarning (badPatternNotice pattern) = false := by
  simp [isDelayWarning, badPatternNotice]

/-- A delay under 16 milliseconds is too short. -/
theorem isNone_liveDelay? (settings : Settings) :
    settings.liveDelay?.isNone = decide (settings.delay < 16) := by
  rw [Settings.liveDelay?, minLiveDelay]
  split
  · next h => simp [Nat.not_lt.mpr h]
  · next h => simp [Nat.not_le.mp h]

/-- Of the warnings of a configuration at most one is about the delay. -/
theorem filter_configWarnings (s : Service) (settings : Settings) :
    (s.configWarnings settings).filter isDelayWarning =
      if settings.delay < 16 ∧ s.delayWarned = false then [shortDelayNotice settings.delay]
      else [] := by
  have hpatterns : ((PatternSet.ofStrings settings.filePatterns).invalid.map
      badPatternNotice).filter isDelayWarning = [] := by
    rw [List.filter_eq_nil_iff]
    intro notice hmem
    obtain ⟨pattern, -, rfl⟩ := List.mem_map.mp hmem
    simp [isDelayWarning_badPatternNotice]
  rw [configWarnings, List.filter_append, hpatterns, List.append_nil, isNone_liveDelay?]
  by_cases hwarns : settings.delay < 16 ∧ s.delayWarned = false
  · simp [hwarns, isDelayWarning_shortDelayNotice]
  · rw [if_neg hwarns, if_neg (by simpa using hwarns), List.filter_nil]

/-! ## §3 — what everything else queues -/

/-- The notices of a run are about its document. -/
theorem document_of_mem_collectRun {document : DocumentKey} {events : List RunEvent}
    {notice : Notice} (h : notice ∈ (collectRun document events).notices) :
    notice.document = some document := by
  rw [notices_collectRun, List.mem_append, List.mem_filterMap, Option.mem_toList] at h
  rcases h with ⟨item, -, hitem⟩ | houtcome
  · exact StderrItem.document_of_notice? hitem
  · exact document_outcomeNotice? houtcome

/-- A run ends by the move that says so. -/
theorem complete_of_mem_ends {s : Service} {m : Move} {run : Flight × Report}
    (h : run ∈ (s.emits m).ends) : ∃ id, m = .complete id run.2 := by
  obtain ⟨event, hevent, hended⟩ := List.mem_filterMap.mp h
  cases eventOf_of_mem hevent with
  | ended =>
    cases hended
    exact ⟨_, rfl⟩
  | _ => cases hended

/-- Every run that has ended did so by one of the moves. -/
theorem exists_complete_of_mem_log {s : Service} {ms : List Move} {run : Flight × Report}
    (h : run ∈ (s.log ms).ends) : ∃ id, .complete id run.2 ∈ ms := by
  induction ms generalizing s with
  | nil => cases h
  | cons m ms ih =>
    rw [log, History.ends_append, List.mem_append] at h
    rcases h with hfirst | hrest
    · obtain ⟨id, rfl⟩ := complete_of_mem_ends hfirst
      exact ⟨id, List.mem_cons_self⟩
    · obtain ⟨id, hmem⟩ := ih hrest
      exact ⟨id, List.mem_cons_of_mem m hmem⟩

/-- Only the action that ends a run has that move. -/
theorem eq_complete_of_mem_movesOf {s : Service} {a : Action} {id : SessionId} {report : Report}
    (h : .complete id report ∈ s.movesOf a) : a = .complete id report := by
  cases a with
  | handle event => exact absurd h (not_mem_movesOf_handle s event rfl)
  | applyConfig compiler settings =>
    exact absurd h (not_mem_movesOf_applyConfig s compiler settings rfl (by simp))
  | _ => simp_all [movesOf]

/-- **A run that has ended was completed with its report.** -/
theorem exists_complete_of_mem_history {s : Service} {actions : List Action}
    {run : Flight × Report} (h : run ∈ (s.history actions).ends) :
    ∃ id, .complete id run.2 ∈ actions := by
  obtain ⟨id, hmove⟩ := exists_complete_of_mem_log h
  clear h
  induction actions generalizing s with
  | nil => cases hmove
  | cons a actions ih =>
    rcases List.mem_append.mp hmove with hfirst | hrest
    · exact ⟨id, eq_complete_of_mem_movesOf hfirst ▸ List.mem_cons_self⟩
    · obtain ⟨id, hmem⟩ := ih hrest
      exact ⟨id, List.mem_cons_of_mem a hmem⟩

/-- Only a new configuration has the move that changes the settings. -/
theorem reconfigure_not_mem_movesOf (s : Service) {a : Action} (ha : a.settings? = none)
    (compiler : Options) (settings : Settings) : .reconfigure compiler settings ∉ s.movesOf a := by
  cases a with
  | handle event => exact not_mem_movesOf_handle s event rfl
  | applyConfig compiler settings => cases ha
  | _ => simp [movesOf]

/-- **What no configuration queues is about a document**: it comes from a result that was applied,
and so from the report of a run. -/
theorem document_of_queued {compiler : Options} {settings : Settings} {actions : List Action}
    {a : Action} (ha : a.settings? = none)
    (hreports : ∀ id report, .complete id report ∈ actions ++ [a] →
      ∃ document events, report = collectRun document events)
    {notice : Notice}
    (h : notice ∈ ((create compiler settings).performAll actions).queuedBy a) :
    notice.document ≠ none := by
  rw [queuedBy, queuedAll_eq _ fun _ _ => reconfigure_not_mem_movesOf _ ha _ _,
    List.mem_flatMap] at h
  -- the notice is one of a result that was applied, and thus of a report about its document.
  obtain ⟨result, happlied, hnotice⟩ := h
  have htaken : result ∈ ((create compiler settings).history (actions ++ [a])).taken := by
    rw [history_append, History.taken_append, List.mem_append]
    right
    rw [history, movesOfAll, movesOfAll, List.append_nil]
    exact mem_taken_of_applied happlied
  obtain ⟨run, hrun, rfl⟩ := (delivery_performAll compiler settings (actions ++ [a])).exists_run
    (List.mem_append_left _ htaken)
  obtain ⟨id, hcomplete⟩ := exists_complete_of_mem_history hrun
  obtain ⟨document, events, hreport⟩ := hreports id run.2 hcomplete
  have hmem : notice ∈ (collectRun document events).notices := hreport ▸ hnotice
  rw [document_of_mem_collectRun hmem]
  exact Option.some_ne_none document

/-! ## §4 — the delay in force -/

/-- The delay in force and whether a short one was reported. -/
def delayState (s : Service) : Nat × Bool :=
  (s.liveDelay, s.delayWarned)

/-- The delay and whether it was warned about are part of what only a new configuration changes.
-/
theorem delayState_play (s : Service) {m : Move}
    (hm : ∀ compiler settings, m ≠ .reconfigure compiler settings) :
    (s.play m).delayState = s.delayState := by
  cases m with
  | reconfigure compiler settings => exact absurd rfl (hm compiler settings)
  | mark openDocuments liveEdits ownSaves => rfl
  | _ =>
    rw [play_frame s rfl]
    rfl

theorem delayState_playAll (s : Service) {ms : List Move}
    (hms : ∀ compiler settings, .reconfigure compiler settings ∉ ms) :
    (s.playAll ms).delayState = s.delayState :=
  playAll_keeps delayState (fun s _ hm => delayState_play s fun compiler settings h =>
    hms compiler settings (h ▸ hm)) s

/-- A new configuration sets the delay, or the default if it is too short, and remembers the
warning. -/
theorem delayState_reconfigure (s : Service) (compiler : Options) (settings : Settings) :
    (s.reconfigure compiler settings).delayState =
      (settings.liveDelay?.getD defaultLiveDelay, s.delayWarned || settings.liveDelay?.isNone) := by
  unfold reconfigure
  simp only
  split <;> rfl

/-- **Only a configuration sets the delay.** -/
theorem delayState_perform (s : Service) (a : Action) :
    (s.perform a).delayState =
      match a.settings? with
      | some settings =>
        (settings.liveDelay?.getD defaultLiveDelay,
          s.delayWarned || settings.liveDelay?.isNone)
      | none => s.delayState := by
  rw [perform_eq_playAll]
  cases ha : a.settings? with
  | none => exact delayState_playAll s fun _ _ => reconfigure_not_mem_movesOf s ha _ _
  | some settings =>
    cases a with
    -- the requests that follow the configuration leave the delay alone.
    | applyConfig compiler settings' =>
      cases ha
      rw [movesOf, playAll_cons, delayState_playAll]
      · exact delayState_reconfigure s compiler settings
      · intro compiler' settings' hmem
        cases List.all_eq_true.mp (all_isRoutine_revalidated _ settings) _ hmem
    | _ => cases ha

/-! ## §5 — the policy -/

/-- The settings that were put in force in a course, from the first to the last. -/
def configurations (settings : Settings) (actions : List Action) : List Settings :=
  settings :: actions.filterMap Action.settings?

theorem configurations_concat (settings : Settings) (actions : List Action) (a : Action) :
    configurations settings (actions ++ [a]) =
      configurations settings actions ++ a.settings?.toList := by
  rw [configurations, configurations, List.filterMap_append, List.cons_append]
  cases h : a.settings? <;> simp [h]

/-- The delay in force for a configuration. -/
theorem getD_liveDelay? (settings : Settings) :
    settings.liveDelay?.getD defaultLiveDelay =
      if 16 ≤ settings.delay then settings.delay else 500 := by
  rw [Settings.liveDelay?, minLiveDelay]
  split <;> rfl

/-- **The delay in force is that of the last settings**, and the flag is set as soon as one delay was
too short. -/
theorem delay_course (compiler : Options) (settings : Settings) (actions : List Action) :
    let s := (create compiler settings).performAll actions
    s.liveDelay = (settingsAfter settings actions).liveDelay?.getD defaultLiveDelay ∧
    s.delayWarned = (configurations settings actions).any fun t => t.delay < 16 := by
  -- by induction on the last action, which counts only if it is a configuration.
  induction actions using List.reverseRecOn with
  | nil =>
    refine ⟨rfl, ?_⟩
    rw [configurations, List.filterMap_nil, List.any_cons, List.any_nil, Bool.or_false,
      ← isNone_liveDelay?]
    exact Bool.false_or _
  | append_singleton actions a ih =>
    obtain ⟨hdelay, hwarned⟩ := ih
    have hstep := delayState_perform ((create compiler settings).performAll actions) a
    rw [performAll_append, settingsAfter_concat, configurations_concat, List.any_append, ← hwarned]
    cases ha : a.settings? with
    | none =>
      rw [ha] at hstep
      obtain ⟨hdelay', hwarned'⟩ := Prod.mk.inj hstep
      exact ⟨hdelay'.trans hdelay, hwarned'.trans (Bool.or_false _).symm⟩
    | some settings' =>
      rw [ha] at hstep
      obtain ⟨hdelay', hwarned'⟩ := Prod.mk.inj hstep
      rw [isNone_liveDelay?] at hwarned'
      exact ⟨hdelay', hwarned'.trans (by simp)⟩

/-- **The warnings of a course**: that of the first delay that was too short, and no other. -/
theorem delayWarnings_course (compiler : Options) (settings : Settings) (actions : List Action)
    (hreports : ∀ id report, .complete id report ∈ actions →
      ∃ document events, report = collectRun document events) :
    ((create compiler settings).noticesEver actions).filter isDelayWarning =
      (((configurations settings actions).find? fun t => t.delay < 16).map
        fun first => shortDelayNotice first.delay).toList := by
  induction actions using List.reverseRecOn with
  | nil =>
    have hqueued : (create compiler settings).noticesEver [] =
        ({ compiler := compiler } : Service).configWarnings settings := rfl
    rw [hqueued, filter_configWarnings, configurations, List.filterMap_nil, List.find?_singleton]
    by_cases hshort : settings.delay < 16 <;> simp [hshort]
  | append_singleton actions a ih =>
    rw [noticesEver_concat, List.filter_append,
      ih fun id report h => hreports id report (List.mem_append_left _ h),
      configurations_concat, List.find?_append]
    cases ha : a.settings? with
    | none =>
      have hnone : (((create compiler settings).performAll actions).queuedBy a).filter
          isDelayWarning = [] := by
        rw [List.filter_eq_nil_iff]
        intro notice hmem
        simp [isDelayWarning, document_of_queued ha hreports hmem]
      simp [hnone]
    | some settings' =>
      cases a with
      | applyConfig compiler' settings'' =>
        cases ha
        -- the flag says whether one of the delays before was too short.
        rw [queuedBy_applyConfig, filter_configWarnings, (delay_course compiler settings actions).2]
        cases hfirst : (configurations settings actions).find? fun t => t.delay < 16 with
        | none =>
          have hany : ((configurations settings actions).any fun t => t.delay < 16) = false := by
            simpa [List.find?_eq_none] using hfirst
          by_cases hshort : settings'.delay < 16 <;> simp [hany, hshort]
        | some first =>
          have hany : ((configurations settings actions).any fun t => t.delay < 16) = true := by
            rw [List.any_eq_true]
            exact ⟨first, List.mem_of_find?_eq_some hfirst, by simpa using List.find?_some hfirst⟩
          simp [hany]
      | _ => cases ha

/-- **The delay policy.** Whatever happens to a service, the delay in force is that of the last
settings, or 500 ms if that is below 16 ms. Of the notices that were ever queued, fetched or not, at
most one warns of a short delay: none if no configuration so far had one, and else that of the first
configuration that had, which queues it. Reports are those of runs. -/
theorem delay_policy (compiler : Options) (settings : Settings) (actions : List Action)
    (hreports : ∀ id report, .complete id report ∈ actions →
      ∃ document events, report = collectRun document events) :
    let s := (create compiler settings).performAll actions
    let last := settingsAfter settings actions
    let warnings := ((create compiler settings).noticesEver actions).filter isDelayWarning
    s.liveDelay = (if 16 ≤ last.delay then last.delay else 500) ∧ 16 ≤ s.liveDelay ∧
    ((∀ t ∈ configurations settings actions, 16 ≤ t.delay) → warnings = []) ∧
    (∀ early first late, configurations settings actions = early ++ first :: late →
      (∀ t ∈ early, 16 ≤ t.delay) → first.delay < 16 →
      warnings = [shortDelayNotice first.delay]) ∧
    ∀ compiler' settings', (∀ t ∈ configurations settings actions, 16 ≤ t.delay) →
      settings'.delay < 16 →
      shortDelayNotice settings'.delay ∈ (s.applyConfig compiler' settings').notices := by
  intro s last warnings
  have hdelay : s.liveDelay = if 16 ≤ last.delay then last.delay else 500 :=
    (delay_course compiler settings actions).1.trans (getD_liveDelay? last)
  have hwarnings := delayWarnings_course compiler settings actions hreports
  refine ⟨hdelay, ?_, fun hall => ?_, fun early first late hsplit hearly hshort => ?_,
    fun compiler' settings' hall hshort => ?_⟩
  · rw [hdelay]
    split <;> omega
  · have hnone : (configurations settings actions).find? (fun t => t.delay < 16) = none := by
      simpa [List.find?_eq_none] using hall
    rw [hnone] at hwarnings
    exact hwarnings
  · have hfirst : (configurations settings actions).find? (fun t => t.delay < 16) =
        some first := by
      rw [hsplit, List.find?_append, List.find?_cons_of_pos (by simpa using hshort)]
      have hnone : early.find? (fun t => t.delay < 16) = none := by
        simpa [List.find?_eq_none] using hearly
      rw [hnone]
      rfl
    rw [hfirst] at hwarnings
    exact hwarnings
  -- the first configuration that is too short warns at once, as no earlier one has.
  · have hqueued : (s.applyConfig compiler' settings').notices =
        s.notices ++ s.configWarnings settings' := by
      rw [← queuedBy_applyConfig s compiler']
      exact notices_perform s (a := .applyConfig compiler' settings') (by simp)
    have hunwarned : s.delayWarned = false := by
      rw [(delay_course compiler settings actions).2]
      simpa using hall
    have hfilter := filter_configWarnings s settings'
    rw [if_pos ⟨hshort, hunwarned⟩] at hfilter
    have hmem : shortDelayNotice settings'.delay ∈
        (s.configWarnings settings').filter isDelayWarning := by
      rw [hfilter]
      exact List.mem_singleton_self _
    rw [hqueued]
    exact List.mem_append_right _ (List.mem_filter.mp hmem).1

/-- A short delay, a valid one and another short one, with the notices fetched in between and a run
that fails: one warning, of the first delay, and the default in force. -/
theorem delay_policy_of_second_short_delay :
    let key : DocumentKey := ⟨"a.ksp"⟩
    let report := collectRun key [.finished (.exited 1)]
    let actions : List Action :=
      [.applyConfig {} { delay := 15 }, .validate key 0, .fire key, .drainNotices,
        .complete 1 report, .applyConfig {} { delay := 16 }, .poll 1,
        .applyConfig {} { delay := 3 }]
    let s := (create {} {}).performAll actions
    let warnings := ((create {} {}).noticesEver actions).filter isDelayWarning
    (∀ id report', .complete id report' ∈ actions →
      ∃ document events, report' = collectRun document events) ∧
    s.notices.map Notice.kind = [.compileFailed 1] ∧ s.liveDelay = 500 ∧
    warnings = [shortDelayNotice 15] := by
  intro key report actions s warnings
  have hreports : ∀ id report', .complete id report' ∈ actions →
      ∃ document events, report' = collectRun document events := by
    intro id report' hmem
    have hsame : id = 1 ∧ report' = report := by simpa [actions] using hmem
    exact ⟨key, _, hsame.2⟩
  obtain ⟨hdelay, -, -, hfirst, -⟩ := delay_policy {} {} actions hreports
  refine ⟨hreports, by decide, hdelay, ?_⟩
  exact hfirst [{}] { delay := 15 } [{ delay := 16 }, { delay := 3 }] rfl (by decide) (by decide)

end Service

end KspWorkbench
