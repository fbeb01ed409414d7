import KspWorkbench.Command.Serve
import KspWorkbench.Proofs.Validation.Notices
import KspWorkbench.Proofs.Validation.Publication

/-!
# Turns of a server

A server takes turns: it handles a line of its input, or it applies the next run that has ended.
Beside that delays end, runs end and time passes. Nothing restricts the order, so the sequences of
turns cover every interleaving of lines with runs. `serve` is what the server sends over the turns,
made of its own functions for each.

Every turn sends at most one event of its own and then notices (`take?_eq`). A run that is applied
is the event of its turn (`summaries_at`). What is sent of the notices and what waits is what was
queued (`told_append_notices_after`), and a turn that queues notices sends all that wait
(`quiet_of_not_isBusy`).
-/

namespace KspWorkbench

/-- What happens next at a server. -/
inductive Turn where
  -- a line of the input is handled, with the files as they are then.
  | line (source : TextSource) (text : String)
  | endOfInput
  -- the next run that has ended is applied.
  | run
  -- what goes on beside the turns of the server itself.
  | fire (key : DocumentKey)
  | complete (id : SessionId) (report : Report)
  | refill
  | advance (ms : Nat)

namespace Turn

/-- Whether the conversation is over at this turn. -/
def ends : Turn → Bool
  | .line _ text => trim text.toList ≠ [] ∧ EditorRequest.ofLine? text = some .shutdown
  | .endOfInput => true
  | _ => false

/-- The turns before the conversation is over. -/
def heard (turns : List Turn) : List Turn :=
  turns.takeWhile fun turn => !turn.ends

end Turn

namespace ServerEvent

/-- Whether an event answers a request. -/
def isResponse : ServerEvent → Bool
  | .symbols .. | .locations .. | .edits .. | .status .. | .error _ => true
  | .diagnostics _ | .notice _ => false

def summary? : ServerEvent → Option RunSummary
  | .diagnostics summary => some summary
  | _ => none

def notice? : ServerEvent → Option Notice
  | .notice n => some n
  | _ => none

theorem summary?_of_isResponse {event : ServerEvent} (h : event.isResponse = true) :
    event.summary? = none := by
  cases event <;> first | rfl | cases h

theorem notice?_of_isResponse {event : ServerEvent} (h : event.isResponse = true) :
    event.notice? = none := by
  cases event <;> first | rfl | cases h

end ServerEvent

namespace Service

/-! ## §1 — the turns of the server, and what they are made of -/

/-- The events of a turn and the service after it, unless the conversation is over. -/
def take? (s : Service) : Turn → Option (List ServerEvent × Service)
  | .line source text =>
    match s.handleLine source text with
    | .skipped => some ([], s)
    | .ended => none
    | .handled events s => some (events, s)
  | .endOfInput => none
  | .run => some s.publishRun
  | .fire key => some ([], (s.fire key).2)
  | .complete id report => some ([], s.complete id report)
  | .refill => some ([], s.refill)
  | .advance ms => some ([], s.advance ms)

/-- Everything that the server sends over the turns. -/
def serve (s : Service) : List Turn → List ServerEvent
  | [] => []
  | turn :: turns =>
    match s.take? turn with
    | none => []
    | some (events, s) => events ++ s.serve turns

/-- What a request does to the service. -/
def requestAction? (s : Service) : EditorRequest → Option Action
  | .document event => some (.handle event)
  | .beginSave key => some (.beginOwnSave key)
  | .endSave key => some (.endOwnSave key)
  | .configure compiler settings =>
    some (.applyConfig (compiler.getD s.compiler) (settings.getD s.settings))
  | .ask .. | .status | .shutdown => none

/-- What a turn does to the service, but for handing out notices. -/
def action? (s : Service) : Turn → Option Action
  | .line _ text =>
    if trim text.toList = [] then none
    else (EditorRequest.ofLine? text).bind s.requestAction?
  | .endOfInput => none
  | .run => some .nextRun
  | .fire key => some (.fire key)
  | .complete id report => some (.complete id report)
  | .refill => some .refill
  | .advance ms => some (.advance ms)

/-- The answer to a line: none if it is blank or asks for none, and an error if it is no request or
if the request fails. -/
def answer? (s : Service) : Turn → Option ServerEvent
  | .line source text =>
    if trim text.toList = [] then none
    else
      match EditorRequest.ofLine? text with
      | none => some (.error RequestError.invalid.message)
      | some request =>
        match s.reply source request with
        | .ok answer => answer
        | .error e => some (.error e.message)
  | _ => none

/-- The event that a turn is about: an answer, or the diagnostics of a run. -/
def ownEvent? (s : Service) : Turn → Option ServerEvent
  | .run => s.nextRun.1.map .diagnostics
  | turn => s.answer? turn

/-- Whether a turn handles a request or applies a run. -/
def isBusy (s : Service) : Turn → Bool
  | .line _ text => trim text.toList ≠ []
  | .run => s.nextRun.1.isSome
  | _ => false

/-- What a turn queues. -/
def queuedAt (s : Service) (turn : Turn) : List Notice :=
  ((s.action? turn).map s.queuedBy).getD []

/-- The notices that a turn sends. -/
def toldAt (s : Service) (turn : Turn) : List Notice :=
  if s.isBusy turn then s.notices ++ s.queuedAt turn else []

/-- What a turn does to the service. -/
def actions (s : Service) (turn : Turn) : List Action :=
  (s.action? turn).toList ++ if s.isBusy turn then [.drainNotices] else []

def after (s : Service) (turn : Turn) : Service :=
  s.performAll (s.actions turn)

def afterAll (s : Service) (turns : List Turn) : Service :=
  turns.foldl after s

/-! ## §2 — one turn -/

/-- A request is carried out as one action, or as none. -/
theorem react_eq (s : Service) (request : EditorRequest) :
    s.react request = s.performAll (s.requestAction? request).toList := by
  cases request <;> rfl

/-- No request drains the notices: that is done at the end of each turn. -/
theorem requestAction?_ne (s : Service) (request : EditorRequest) :
    s.requestAction? request ≠ some .drainNotices := by
  cases request <;> simp [requestAction?]

theorem action?_ne (s : Service) (turn : Turn) : s.action? turn ≠ some .drainNotices := by
  cases turn with
  | line source text =>
    rw [action?]
    split
    · simp
    · cases EditorRequest.ofLine? text with
      | none => simp
      | some request => exact requestAction?_ne s request
  | _ => simp [action?]

/-- The notices that a turn queues come behind those that are there. -/
theorem notices_performAll_action? (s : Service) (turn : Turn) :
    (s.performAll (s.action? turn).toList).notices = s.notices ++ s.queuedAt turn := by
  rw [queuedAt]
  cases haction : s.action? turn with
  | none => exact (List.append_nil _).symm
  | some a =>
    have hne : a ≠ .drainNotices := by
      rintro rfl
      exact action?_ne s turn haction
    exact notices_perform s hne

/-- A turn that is busy hands out all notices. -/
theorem after_of_isBusy {s : Service} {turn : Turn} (h : s.isBusy turn = true) :
    s.after turn = { s.performAll (s.action? turn).toList with notices := [] } := by
  rw [after, actions, if_pos h, performAll_append]
  rfl

/-- A turn that does nothing leaves the notices alone. -/
theorem after_of_not_isBusy {s : Service} {turn : Turn} (h : s.isBusy turn = false) :
    s.after turn = s.performAll (s.action? turn).toList := by
  rw [after, actions, h, if_neg Bool.false_ne_true, List.append_nil]

/-- What a busy turn sends, and the service after it, in the words of `announce`. -/
theorem announce_eq {s : Service} {turn : Turn} (h : s.isBusy turn = true)
    (event : Option ServerEvent) :
    (s.performAll (s.action? turn).toList).announce event =
      (event.toList ++ (s.toldAt turn).map .notice, s.after turn) := by
  rw [after_of_isBusy h, toldAt, if_pos h, ← notices_performAll_action?]
  rfl

/-- What handling a line comes to: its answer, then all notices; a blank line is passed over, and
a shutdown ends the conversation. -/
theorem take?_line (s : Service) (source : TextSource) (text : String) :
    s.take? (.line source text) =
      if (Turn.line source text).ends then none
      else some ((s.answer? (.line source text)).toList ++
        (s.toldAt (.line source text)).map .notice, s.after (.line source text)) := by
  by_cases hblank : trim text.toList = []
  · have hquiet : s.isBusy (.line source text) = false := by simp [isBusy, hblank]
    rw [after_of_not_isBusy hquiet, toldAt, hquiet]
    simp [take?, handleLine, Turn.ends, answer?, action?, hblank, performAll]
  · have hbusy : s.isBusy (.line source text) = true := by simp [isBusy, hblank]
    rw [← announce_eq hbusy, action?, if_neg hblank, take?, handleLine, if_neg hblank, Turn.ends,
      answer?, if_neg hblank]
    -- a line that is no request has an answer, and no action.
    cases hrequest : EditorRequest.ofLine? text with
    | none => simp [performAll]
    | some request =>
      rw [Option.bind_some, ← react_eq]
      cases request with
      | shutdown => simp [hblank]
      | _ =>
        rw [if_neg (by simp)]
        rfl

/-- What applying the next run comes to: its summary, if there is a run, and then all notices. -/
theorem publishRun_eq (s : Service) :
    s.publishRun = ((s.ownEvent? .run).toList ++ (s.toldAt .run).map .notice, s.after .run) := by
  cases hrun : s.nextRun with
  | mk summary t =>
    have hperform : s.performAll (s.action? .run).toList = t := by
      show s.nextRun.2 = t
      rw [hrun]
    cases summary with
    | none =>
      have hquiet : s.isBusy .run = false := by simp [isBusy, hrun]
      rw [after_of_not_isBusy hquiet, toldAt, hquiet, hperform]
      simp [publishRun, hrun, ownEvent?]
    | some summary =>
      have hbusy : s.isBusy .run = true := by simp [isBusy, hrun]
      rw [← announce_eq hbusy, hperform]
      simp [publishRun, hrun, ownEvent?]

/-- **One turn**: at most one event of its own, and then notices. -/
theorem take?_eq (s : Service) (turn : Turn) :
    s.take? turn =
      if turn.ends then none
      else some ((s.ownEvent? turn).toList ++ (s.toldAt turn).map .notice, s.after turn) := by
  cases turn with
  | line source text => exact take?_line s source text
  | run => exact congrArg some (publishRun_eq s)
  | _ => rfl

/-! ## §3 — runs -/

/-- The summary of the next run is that of the one result that is applied; those before it were
dropped. -/
theorem applied_nextRunWithin (s : Service) (tries : Nat) :
    (((s.log (List.replicate (s.drawn tries) .applyNext)).filterMap Event.applied?).map
      fun r => r.report.summary r.document) = (s.nextRunWithin tries).1.toList := by
  induction tries generalizing s with
  | zero => rfl
  | succ tries ih =>
    cases hready : s.results.ready with
    | nil =>
      rw [drawn, nextRunWithin, applyNext_of_empty hready]
      rfl
    | cons r rest =>
      rcases applyNext_of_ready hready with ⟨-, hnext⟩ | ⟨_, -, -, hnext⟩
      · rw [drawn, nextRunWithin, hnext]
        simp only [List.replicate_succ, log, emits, hready, hnext, play]
        exact ih s.dropResult
      · rw [drawn, nextRunWithin, hnext]
        simp [List.replicate_succ, log, emits, hready, hnext, Event.applied?]

/-- Moves other than applying a result apply none. -/
theorem applied_log_eq_nil (s : Service) {ms : List Move} (hms : .applyNext ∉ ms) :
    (s.log ms).filterMap Event.applied? = [] := by
  induction ms generalizing s with
  | nil => rfl
  | cons m ms ih =>
    rw [List.mem_cons, not_or] at hms
    rw [log, List.filterMap_append, ih (s.play m) hms.2, applied_eq_nil (Ne.symm hms.1)]
    rfl

/-- Whether an action applies results. -/
def Action.applies : Action → Bool
  | .poll _ | .nextRun => true
  | _ => false

/-- An action that applies no results has no move that does. -/
theorem applyNext_not_mem_movesOf (s : Service) {a : Action} (ha : a.applies = false) :
    .applyNext ∉ s.movesOf a := by
  cases a with
  | handle event => exact not_mem_movesOf_handle s event rfl
  | applyConfig compiler settings =>
    exact not_mem_movesOf_applyConfig s compiler settings rfl (by simp)
  | poll budget => cases ha
  | nextRun => cases ha
  | _ => simp [movesOf]

/-- The results that some actions apply. -/
def resultsApplied (s : Service) (actions : List Action) : List RunResult :=
  (s.history actions).filterMap Event.applied?

/-- The results of later actions are applied after those of earlier ones. -/
theorem resultsApplied_append (s : Service) (as as' : List Action) :
    s.resultsApplied (as ++ as') = s.resultsApplied as ++ (s.performAll as).resultsApplied as' := by
  rw [resultsApplied, history_append, List.filterMap_append]
  rfl

theorem resultsApplied_singleton (s : Service) (a : Action) :
    s.resultsApplied [a] = (s.log (s.movesOf a)).filterMap Event.applied? := by
  rw [resultsApplied, history, movesOfAll, movesOfAll, List.append_nil]

theorem resultsApplied_eq_nil (s : Service) {as : List Action} (has : ∀ a ∈ as, a.applies = false) :
    s.resultsApplied as = [] := by
  induction as generalizing s with
  | nil => rfl
  | cons a as ih =>
    rw [← List.singleton_append, resultsApplied_append, resultsApplied_singleton,
      applied_log_eq_nil s (applyNext_not_mem_movesOf s (has a List.mem_cons_self)),
      ih _ fun b hb => has b (List.mem_cons_of_mem a hb)]
    rfl

/-- Only the turn of a run applies results. -/
theorem applies_of_action? {s : Service} {turn : Turn} (hturn : turn ≠ .run) {a : Action}
    (ha : s.action? turn = some a) : a.applies = false := by
  cases turn with
  | line source text =>
    rw [action?] at ha
    split at ha
    · cases ha
    · obtain ⟨request, -, hrequest⟩ := Option.bind_eq_some_iff.mp ha
      cases request <;> simp only [requestAction?, Option.some.injEq, reduceCtorEq] at hrequest <;>
        subst hrequest <;> rfl
  | run => exact absurd rfl hturn
  | endOfInput => cases ha
  | _ =>
    cases ha
    rfl

theorem applies_of_mem_drain {busy : Bool} {a : Action}
    (ha : a ∈ if busy then [Action.drainNotices] else []) : a.applies = false := by
  split at ha
  · rw [List.mem_singleton.mp ha]
    rfl
  · cases ha

theorem applies_of_mem_actions {s : Service} {turn : Turn} (hturn : turn ≠ .run) {a : Action}
    (ha : a ∈ s.actions turn) : a.applies = false := by
  rcases List.mem_append.mp ha with ha | ha
  · exact applies_of_action? hturn (Option.mem_toList.mp ha)
  · exact applies_of_mem_drain ha

/-- The answer to a query is a response. -/
theorem isResponse_of_answerQuery {document : DocumentKey} {text : String} {query : Query}
    {event : ServerEvent} (h : answerQuery document text query = .ok event) :
    event.isResponse = true := by
  cases query with
  | rename cursor newName =>
    rw [answerQuery] at h
    split at h <;> cases h
    rfl
  | _ => cases h; rfl

/-- Whatever a request is answered with is a response. -/
theorem isResponse_of_reply {s : Service} {source : TextSource} {request : EditorRequest}
    {event : ServerEvent} (h : s.reply source request = .ok (some event)) :
    event.isResponse = true := by
  -- only queries and the request for the status are answered.
  cases request with
  | ask path script query =>
    simp only [reply] at h
    cases htext : scriptText source path script with
    | error e => rw [htext] at h; cases h
    | ok text =>
      cases hanswer : answerQuery ⟨path⟩ text query with
      | error e => rw [htext] at h; simp only [Except.bind, bind, hanswer] at h; cases h
      | ok answer =>
        rw [htext] at h
        simp only [Except.bind, bind, hanswer] at h
        cases h
        exact isResponse_of_answerQuery hanswer
  | status => cases h; rfl
  | _ => cases h

/-- Only answers are sent as answers. -/
theorem isResponse_of_answer? {s : Service} {turn : Turn} {event : ServerEvent}
    (h : s.answer? turn = some event) : event.isResponse = true := by
  cases turn with
  | line source text =>
    rw [answer?] at h
    split at h
    · cases h
    · split at h
      · cases h
        rfl
      · split at h
        · next hreply => exact isResponse_of_reply (h ▸ hreply)
        · cases h
          rfl
  | _ => cases h

/-- A turn that is no run has its answer for its own event. -/
theorem ownEvent?_of_ne_run (s : Service) {turn : Turn} (hturn : turn ≠ .run) :
    s.ownEvent? turn = s.answer? turn := by
  cases turn with
  | run => exact absurd rfl hturn
  | _ => rfl

/-- The results that the turn of a run applies: one, if any of those that wait can be applied. -/
theorem summaries_at_run (s : Service) :
    ((s.resultsApplied (s.actions .run)).map fun r => r.report.summary r.document) =
      s.nextRun.1.toList := by
  have hdrain : (s.performAll [.nextRun]).resultsApplied
      (if s.isBusy .run then [.drainNotices] else []) = [] :=
    resultsApplied_eq_nil _ fun a ha => applies_of_mem_drain ha
  have hrun : s.actions .run = [.nextRun] ++ if s.isBusy .run then [.drainNotices] else [] := rfl
  rw [hrun, resultsApplied_append, hdrain, List.append_nil, resultsApplied_singleton]
  exact applied_nextRunWithin s _

/-- **Every run that a turn applies is the event that the turn is about**, and there is no other. -/
theorem summaries_at (s : Service) (turn : Turn) :
    (s.ownEvent? turn).toList.filterMap ServerEvent.summary? =
      (s.resultsApplied (s.actions turn)).map fun r => r.report.summary r.document := by
  by_cases hturn : turn = .run
  · subst hturn
    rw [summaries_at_run, ownEvent?]
    cases s.nextRun.1 <;> rfl
  · rw [resultsApplied_eq_nil s fun a => applies_of_mem_actions hturn, ownEvent?_of_ne_run s hturn]
    cases hanswer : s.answer? turn with
    | none => rfl
    | some event =>
      rw [Option.toList_some, List.filterMap_cons_none
        (ServerEvent.summary?_of_isResponse (isResponse_of_answer? hanswer))]
      rfl

/-! ## §4 — notices -/

/-- A turn that neither handles a request nor applies a run sends nothing and queues nothing. -/
theorem quiet_of_not_isBusy {s : Service} {turn : Turn} (h : s.isBusy turn = false) :
    s.ownEvent? turn = none ∧ s.queuedAt turn = [] := by
  cases turn with
  | line source text =>
    have hblank : trim text.toList = [] := by simpa [isBusy] using h
    simp [ownEvent?, answer?, queuedAt, action?, hblank]
  | run =>
    have hnone : s.nextRun.1 = none := by simpa [isBusy] using h
    -- all results that were taken were dropped.
    have happlied := applied_nextRunWithin s s.results.ready.length
    rw [show (s.nextRunWithin s.results.ready.length).1 = none from hnone, Option.toList_none,
      List.map_eq_nil_iff] at happlied
    refine ⟨by rw [ownEvent?, hnone, Option.map_none], ?_⟩
    show s.queuedAll (List.replicate _ .applyNext) = []
    rw [queuedAll_eq, happlied, List.flatMap_nil]
    intro compiler settings hmem
    cases List.eq_of_mem_replicate hmem
  | _ => exact ⟨rfl, rfl⟩

/-- What a turn sends and what waits afterwards is what waited before and what the turn queues. -/
theorem told_append_notices_after (s : Service) (turn : Turn) :
    s.toldAt turn ++ (s.after turn).notices = s.notices ++ s.queuedAt turn := by
  cases hbusy : s.isBusy turn with
  | true => rw [after_of_isBusy hbusy, toldAt, if_pos hbusy, List.append_nil]
  | false =>
    rw [after_of_not_isBusy hbusy, toldAt, hbusy, if_neg Bool.false_ne_true, List.nil_append,
      notices_performAll_action?]

/-- With no notices before a turn there are none after it: those that it queues it tells. -/
theorem notices_after_eq_nil {s : Service} (h : s.notices = []) (turn : Turn) :
    (s.after turn).notices = [] := by
  cases hbusy : s.isBusy turn with
  | true => rw [after_of_isBusy hbusy]
  | false =>
    rw [after_of_not_isBusy hbusy, notices_performAll_action?, h, (quiet_of_not_isBusy hbusy).2]
    rfl

end Service

end KspWorkbench
