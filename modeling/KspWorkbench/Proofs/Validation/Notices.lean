import KspWorkbench.Proofs.Validation.Publication

/-!
# Notices of a service

Two moves queue notices: a configuration queues the warnings about it, and a result that is applied
queues those of its report. `queues` says which, and `notices_playAll` that the queue grows by
exactly these, in order, until it is drained.
-/

namespace KspWorkbench

namespace Service

/-! ## §1 — what a move queues -/

/-- The warnings that settings lead to. -/
def configWarnings (s : Service) (settings : Settings) : List Notice :=
  (if settings.liveDelay?.isNone && !s.delayWarned then [shortDelayNotice settings.delay]
    else []) ++
    (PatternSet.ofStrings settings.filePatterns).invalid.map badPatternNotice

def queues (s : Service) : Move → List Notice
  | .reconfigure _ settings => s.configWarnings settings
  | .applyNext =>
    match s.results.ready, s.applyNext.1 with
    | r :: _, some (some _) => r.report.notices
    | _, _ => []
  | _ => []

def queuedAll (s : Service) : List Move → List Notice
  | [] => []
  | m :: ms => s.queues m ++ (s.play m).queuedAll ms

theorem notices_reconfigure (s : Service) (compiler : Options) (settings : Settings) :
    (s.reconfigure compiler settings).notices = s.notices ++ s.configWarnings settings := by
  unfold reconfigure configWarnings
  rw [← List.append_assoc]
  simp only
  split <;> rfl

theorem notices_applyNext (s : Service) :
    s.applyNext.2.notices = s.notices ++ s.queues .applyNext := by
  cases hready : s.results.ready with
  | nil => simp [queues, applyNext_of_empty hready, hready]
  | cons r rest =>
    rcases applyNext_of_ready hready with ⟨-, hnext⟩ | ⟨_, -, -, hnext⟩
    · simp [queues, hnext, hready, dropResult]
    · simp [queues, hnext, hready]

/-- **The queue of notices grows by what a move queues**, unless the move drains it. -/
theorem notices_play (s : Service) {m : Move} (hm : m ≠ .drainNotices) :
    (s.play m).notices = s.notices ++ s.queues m := by
  cases m with
  | reconfigure compiler settings => exact notices_reconfigure s compiler settings
  | request key delay =>
    rw [play, validate_frame]
    exact (List.append_nil _).symm
  | fire key =>
    rw [play, fire_frame]
    exact (List.append_nil _).symm
  | complete id report =>
    rw [play, complete_frame]
    exact (List.append_nil _).symm
  | applyNext => exact notices_applyNext s
  | drainNotices => exact absurd rfl hm
  | _ => exact (List.append_nil _).symm

/-- **Notices are queued in the order of the moves**, as long as nothing fetches them. -/
theorem notices_playAll (s : Service) {ms : List Move} (hms : .drainNotices ∉ ms) :
    (s.playAll ms).notices = s.notices ++ s.queuedAll ms := by
  induction ms generalizing s with
  | nil => exact (List.append_nil _).symm
  | cons m ms ih =>
    rw [List.mem_cons, not_or] at hms
    rw [playAll_cons, ih _ hms.2, notices_play s (Ne.symm hms.1), queuedAll, List.append_assoc]

/-! ## §2 — what an action queues -/

/-- What an action queues, in order. -/
def queuedBy (s : Service) (a : Action) : List Notice :=
  s.queuedAll (s.movesOf a)

/-- The moves that events of documents lead to: marks, requests and the ends of sessions. -/
def Move.isRoutine : Move → Bool
  | .request .. | .mark .. | .dispose _ => true
  | _ => false

theorem all_isRoutine_movesOfEvent (s : Service) (event : DocumentEvent) :
    (s.movesOfEvent event).all Move.isRoutine = true := by
  cases event with
  | opened key =>
    rw [movesOfEvent, requestIfValidated]
    split <;> rfl
  | saved key =>
    rw [movesOfEvent, requestIfValidated]
    split
    · rfl
    · split <;> rfl
  | edited key =>
    rw [movesOfEvent]
    split <;> rfl
  | closed key => rfl

theorem all_isRoutine_revalidated (s : Service) (settings : Settings) :
    (s.revalidated settings).all Move.isRoutine = true := by
  rw [revalidated]
  split
  · rw [List.all_map, List.all_eq_true]
    exact fun key _ => rfl
  · rfl

theorem not_mem_movesOf_handle (s : Service) (event : DocumentEvent) {m : Move}
    (hm : m.isRoutine = false) : m ∉ s.movesOf (.handle event) := by
  intro h
  rw [List.all_eq_true.mp (all_isRoutine_movesOfEvent s event) m h] at hm
  cases hm

theorem not_mem_movesOf_applyConfig (s : Service) (compiler : Options) (settings : Settings)
    {m : Move} (hm : m.isRoutine = false) (hne : m ≠ .reconfigure compiler settings) :
    m ∉ s.movesOf (.applyConfig compiler settings) := by
  intro h
  rcases List.mem_cons.mp h with h | h
  · exact hne h
  · rw [List.all_eq_true.mp (all_isRoutine_revalidated _ settings) m h] at hm
    cases hm

theorem drainNotices_not_mem_movesOf (s : Service) {a : Action} (ha : a ≠ .drainNotices) :
    .drainNotices ∉ s.movesOf a := by
  cases a with
  | handle event => exact not_mem_movesOf_handle s event rfl
  | applyConfig compiler settings =>
    exact not_mem_movesOf_applyConfig s compiler settings rfl (by simp)
  | drainNotices => exact absurd rfl ha
  | _ => simp [movesOf]

/-- Apart from configurations, notices come from results that are applied: all of the report. -/
theorem queuedAll_eq (s : Service) {ms : List Move}
    (hms : ∀ compiler settings, .reconfigure compiler settings ∉ ms) :
    s.queuedAll ms = ((s.log ms).filterMap Event.applied?).flatMap (·.report.notices) := by
  induction ms generalizing s with
  | nil => rfl
  | cons m ms ih =>
    have hrest := ih (s.play m) fun compiler settings h =>
      hms compiler settings (List.mem_cons_of_mem m h)
    rw [queuedAll, log, hrest, List.filterMap_append, List.flatMap_append]
    congr 1
    -- apart from configurations, only results that are applied have notices.
    cases m with
    | reconfigure compiler settings => exact absurd List.mem_cons_self (hms compiler settings)
    | applyNext =>
      cases hready : s.results.ready with
      | nil => simp [queues, emits, hready]
      | cons r rest =>
        rcases applyNext_of_ready hready with ⟨-, hnext⟩ | ⟨_, -, -, hnext⟩
        · simp [queues, emits, hnext, hready, Event.applied?]
        · simp [queues, emits, hnext, hready, Event.applied?]
    | _ =>
      rw [applied_eq_nil (by simp)]
      rfl

/-- An action queues its notices behind those that are there. -/
theorem notices_perform (s : Service) {a : Action} (ha : a ≠ .drainNotices) :
    (s.perform a).notices = s.notices ++ s.queuedBy a := by
  rw [perform_eq_playAll, notices_playAll s (drainNotices_not_mem_movesOf s ha), queuedBy]

end Service

end KspWorkbench
