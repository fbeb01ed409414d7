import KspWorkbench.Proofs.Sequences
import KspWorkbench.Proofs.Server.Turns

/-!
# Conversations with a server

What a server sends over a whole conversation, whatever the order of its turns: the answers to the
lines in the order of the lines, the diagnostics of the runs in the order in which they are applied,
and the notices in the order in which they are queued, each with the turn that queues it
(`conversation_in_order`). Everything is said turn by turn in `serve_eq_flatMap`, and the parts are
read off from there.
-/

namespace KspWorkbench

namespace Service

open Turn (heard)

/-! ## §1 — the course of a conversation -/

/-- The turns of a conversation, each with the service before it. -/
def trail (s : Service) : List Turn → List (Service × Turn)
  | [] => []
  | turn :: turns => (s, turn) :: (s.after turn).trail turns

/-- What a turn sends: the event that it is about, and then notices. -/
def eventsAt (s : Service) (turn : Turn) : List ServerEvent :=
  (s.ownEvent? turn).toList ++ (s.toldAt turn).map .notice

def actionsAll (s : Service) (turns : List Turn) : List Action :=
  (s.trail turns).flatMap fun moment => moment.1.actions moment.2

/-- A conversation goes on from the service that the first turns leave. -/
theorem trail_append (s : Service) (front back : List Turn) :
    s.trail (front ++ back) = s.trail front ++ (s.afterAll front).trail back := by
  induction front generalizing s with
  | nil => rfl
  | cons turn front ih => exact congrArg (List.cons (s, turn)) (ih (s.after turn))

theorem heard_cons (turn : Turn) (turns : List Turn) :
    heard (turn :: turns) = if turn.ends then [] else turn :: heard turns := by
  rw [heard, List.takeWhile_cons]
  cases turn.ends <;> rfl

/-- **A conversation is the sequence of its turns** up to the one that ends it. -/
theorem serve_eq_flatMap (s : Service) (turns : List Turn) :
    s.serve turns = (s.trail (heard turns)).flatMap fun moment => moment.1.eventsAt moment.2 := by
  induction turns generalizing s with
  | nil => rfl
  | cons turn turns ih =>
    rw [serve, take?_eq, heard_cons]
    cases turn.ends with
    | true => rfl
    | false => exact congrArg (s.eventsAt turn ++ ·) (ih (s.after turn))

/-- If turns are heard, so are the first ones, and so are the last ones. -/
theorem heard_of_append {turns front back : List Turn} (h : heard turns = front ++ back) :
    heard front = front ∧ heard back = back := by
  have hall : ∀ turn ∈ front ++ back, (!turn.ends) = true := by
    rw [← h]
    exact fun turn hturn => List.mem_takeWhile_imp (p := fun turn : Turn => !turn.ends) hturn
  constructor
  · exact List.takeWhile_eq_self_iff.mpr fun turn h => hall turn (List.mem_append_left _ h)
  · exact List.takeWhile_eq_self_iff.mpr fun turn h => hall turn (List.mem_append_right _ h)

/-- What is sent before a turn, at the turn and behind it. -/
theorem serve_split (s : Service) {turns front back : List Turn} {turn : Turn}
    (h : heard turns = front ++ turn :: back) :
    s.serve turns =
      s.serve front ++ (s.afterAll front).eventsAt turn ++
        ((s.afterAll front).after turn).serve back := by
  obtain ⟨hfront, hback⟩ := heard_of_append h
  have hrest : heard back = back := by
    rw [heard_cons] at hback
    split at hback
    · cases hback
    · exact (List.cons.inj hback).2
  rw [serve_eq_flatMap, serve_eq_flatMap, serve_eq_flatMap, h, hfront, hrest, trail_append,
    List.flatMap_append, trail, List.flatMap_cons, List.append_assoc]

/-! ## §2 — answers and diagnostics -/

/-- A turn sends one answer at most, and notices are no answers. -/
theorem filter_eventsAt (s : Service) (turn : Turn) :
    (s.eventsAt turn).filter ServerEvent.isResponse = (s.answer? turn).toList := by
  have hnotices : ((s.toldAt turn).map ServerEvent.notice).filter ServerEvent.isResponse = [] := by
    rw [List.filter_map, List.map_eq_nil_iff, List.filter_eq_nil_iff]
    exact fun _ _ => Bool.false_ne_true
  rw [eventsAt, List.filter_append, hnotices, List.append_nil]
  by_cases hturn : turn = .run
  · subst hturn
    rw [ownEvent?]
    cases s.nextRun.1 <;> rfl
  · rw [ownEvent?_of_ne_run s hturn]
    cases hanswer : s.answer? turn with
    | none => rfl
    | some event =>
      rw [Option.toList_some, List.filter_cons_of_pos (isResponse_of_answer? hanswer),
        List.filter_nil]

/-- **Answers come in the order of the lines**, one for each line that gets one. -/
theorem filter_serve (s : Service) (turns : List Turn) :
    (s.serve turns).filter ServerEvent.isResponse =
      (s.trail (heard turns)).filterMap fun moment => moment.1.answer? moment.2 := by
  rw [serve_eq_flatMap, List.filter_flatMap, List.filterMap_eq_flatMap_toList]
  congr 1
  funext moment
  exact filter_eventsAt moment.1 moment.2

/-- The results that a conversation applies are those of its turns, in their order. -/
theorem resultsApplied_actionsAll (s : Service) (turns : List Turn) :
    s.resultsApplied (s.actionsAll turns) =
      (s.trail turns).flatMap fun moment =>
        moment.1.resultsApplied (moment.1.actions moment.2) := by
  induction turns generalizing s with
  | nil => rfl
  | cons turn turns ih =>
    rw [actionsAll, trail, List.flatMap_cons, List.flatMap_cons, resultsApplied_append, ← ih]
    rfl

/-- **Every run that is applied is told once**, in the order in which they are applied. -/
theorem summaries_serve (s : Service) (turns : List Turn) :
    (s.serve turns).filterMap ServerEvent.summary? =
      (s.resultsApplied (s.actionsAll (heard turns))).map
        fun r => r.report.summary r.document := by
  rw [serve_eq_flatMap, resultsApplied_actionsAll, List.filterMap_flatMap, List.map_flatMap]
  congr 1
  funext moment
  have hnotices : ((moment.1.toldAt moment.2).map ServerEvent.notice).filterMap
      ServerEvent.summary? = [] := by
    rw [List.filterMap_map, List.filterMap_eq_nil_iff]
    exact fun _ _ => rfl
  rw [eventsAt, List.filterMap_append, hnotices, List.append_nil, summaries_at]

/-! ## §3 — notices -/

theorem notices_eventsAt (s : Service) (turn : Turn) :
    (s.eventsAt turn).filterMap ServerEvent.notice? = s.toldAt turn := by
  have hown : (s.ownEvent? turn).toList.filterMap ServerEvent.notice? = [] := by
    by_cases hturn : turn = .run
    · subst hturn
      rw [ownEvent?]
      cases s.nextRun.1 <;> rfl
    · rw [ownEvent?_of_ne_run s hturn]
      cases hanswer : s.answer? turn with
      | none => rfl
      | some event =>
        rw [Option.toList_some, List.filterMap_cons_none
          (ServerEvent.notice?_of_isResponse (isResponse_of_answer? hanswer))]
        rfl
  have htold : ServerEvent.notice? ∘ ServerEvent.notice = some := rfl
  rw [eventsAt, List.filterMap_append, hown, List.nil_append, List.filterMap_map, htold,
    List.filterMap_some]

/-- **Notices come in the order in which they are queued**: those that were sent and those that wait
are those that waited at the start and those that were queued since. -/
theorem notices_serve (s : Service) {turns : List Turn} (h : heard turns = turns) :
    (s.serve turns).filterMap ServerEvent.notice? ++ (s.afterAll turns).notices =
      s.notices ++ (s.trail turns).flatMap fun moment => moment.1.queuedAt moment.2 := by
  have htold : (s.serve turns).filterMap ServerEvent.notice? =
      (s.trail turns).flatMap fun moment => moment.1.toldAt moment.2 := by
    rw [serve_eq_flatMap, h, List.filterMap_flatMap]
    congr 1
    funext moment
    exact notices_eventsAt moment.1 moment.2
  rw [htold]
  clear h htold
  -- by induction on the turns: what one of them queues is told by it or by a later one, and
  -- never out of turn.
  induction turns generalizing s with
  | nil => exact (List.append_nil _).symm
  | cons turn turns ih =>
    rw [trail, List.flatMap_cons, List.flatMap_cons, List.append_assoc]
    calc s.toldAt turn ++ (((s.after turn).trail turns).flatMap
          (fun moment => moment.1.toldAt moment.2) ++ ((s.after turn).afterAll turns).notices)
        = s.toldAt turn ++ ((s.after turn).notices ++ ((s.after turn).trail turns).flatMap
            fun moment => moment.1.queuedAt moment.2) := by rw [ih]
      _ = (s.notices ++ s.queuedAt turn) ++ ((s.after turn).trail turns).flatMap
            (fun moment => moment.1.queuedAt moment.2) := by
          rw [← List.append_assoc, told_append_notices_after]
      _ = _ := List.append_assoc ..

/-- Once all notices are told, none is left waiting after any later turn. -/
theorem notices_afterAll_eq_nil {s : Service} (h : s.notices = []) (turns : List Turn) :
    (s.afterAll turns).notices = [] := by
  induction turns generalizing s with
  | nil => exact h
  | cons turn turns ih => exact ih (notices_after_eq_nil h turn)

/-- Notices wait only as long as nothing was sent. -/
theorem pending_of_serve_ne_nil {s : Service} {turns : List Turn} (h : heard turns = turns)
    (hsent : s.serve turns ≠ []) : (s.afterAll turns).notices = [] := by
  rw [serve_eq_flatMap, h] at hsent
  clear h
  induction turns generalizing s with
  | nil => exact absurd rfl hsent
  | cons turn turns ih =>
    cases hbusy : s.isBusy turn with
    | true =>
      -- the first turn that sends something sends all that waits.
      have hnone : (s.after turn).notices = [] := by rw [after_of_isBusy hbusy]
      exact notices_afterAll_eq_nil hnone turns
    | false =>
      apply ih
      rw [trail, List.flatMap_cons, eventsAt, (quiet_of_not_isBusy hbusy).1, toldAt, hbusy] at hsent
      exact hsent

/-! ## §4 — the whole conversation -/

/-- A line that is no request, a question, or a request that fails. -/
def OnlyAsks (s : Service) (source : TextSource) (text : String) : Prop :=
  EditorRequest.ofLine? text = none ∨ EditorRequest.ofLine? text = some .status ∨
    (∃ path script query, EditorRequest.ofLine? text = some (.ask path script query)) ∨
    ∃ request e, EditorRequest.ofLine? text = some request ∧ s.reply source request = .error e

/-- Only questions fail. -/
theorem exists_ask_of_reply {s : Service} {source : TextSource} {request : EditorRequest}
    {e : RequestError} (h : s.reply source request = .error e) :
    ∃ path script query, request = .ask path script query := by
  cases request with
  | ask path script query => exact ⟨path, script, query, rfl⟩
  | _ => cases h

/-- Questions change nothing but that the notices are handed out that still wait. -/
theorem handleLine_of_onlyAsks {s : Service} {source : TextSource} {text : String}
    (hline : trim text.toList ≠ []) (h : s.OnlyAsks source text) :
    ∃ events, s.handleLine source text = .handled events { s with notices := [] } := by
  rw [handleLine, if_neg hline]
  rcases h with hnone | hstatus | ⟨path, script, query, hask⟩ | ⟨request, e, hrequest, hreply⟩
  · rw [hnone]
    exact ⟨_, rfl⟩
  · rw [hstatus]
    exact ⟨_, rfl⟩
  · rw [hask]
    exact ⟨_, rfl⟩
  · obtain ⟨path, script, query, rfl⟩ := exists_ask_of_reply hreply
    rw [hrequest]
    exact ⟨_, rfl⟩

theorem take?_of_heard (s : Service) {turn : Turn} (h : turn.ends = false) :
    s.take? turn = some (s.eventsAt turn, s.after turn) := by
  rw [eventsAt, take?_eq, h, if_neg Bool.false_ne_true]

/-- A conversation without runs is one whose turns are its lines. -/
theorem converseAll_eq_serve (source : TextSource) (s : Service) {lines : List (List UInt8)}
    {texts : List String} (h : lines.map decodeFile = texts.map Except.ok) :
    converseAll source s lines = ⟨s.serve (texts.map (.line source)), none⟩ := by
  induction texts generalizing s lines with
  | nil =>
    rw [List.map_nil, List.map_eq_nil_iff] at h
    subst h
    rfl
  | cons text texts ih =>
    obtain ⟨line, rest, rfl, hline, hrest⟩ := List.map_eq_cons_iff.mp h
    simp only [converseAll, hline, List.map_cons, serve, take?]
    cases s.handleLine source text with
    | skipped => exact ih s hrest
    | ended => rfl
    | handled events t => simp only [ih t hrest]

/-- **Answers come in order, and questions change nothing.** Over any turns of a server the answers
are those to the lines before the end, in their order; questions, lines that are no requests and
requests that fail leave the service as it is, but for notices that are handed out; every run that
is applied is told once; and at every turn the notices come behind the event that the turn is about:
those that waited and those that the turn queued, each once and in the order in which they were
queued. Notices wait for a later turn only as long as nothing was sent at all. -/
theorem conversation_in_order (config : Config) (turns : List Turn) :
    let start := startServer config
    (start.serve turns).filter ServerEvent.isResponse =
        (start.trail (heard turns)).filterMap (fun moment => moment.1.answer? moment.2) ∧
      (∀ s source text, trim text.toList ≠ [] → OnlyAsks s source text →
        ∃ events, s.handleLine source text = .handled events { s with notices := [] }) ∧
      (start.serve turns).filterMap ServerEvent.summary? =
        ((start.resultsApplied (start.actionsAll (heard turns))).map
          fun r => r.report.summary r.document) ∧
      ∀ front turn back, heard turns = front ++ turn :: back →
        let s := start.afterAll front
        (start.serve front).filterMap ServerEvent.notice? ++ s.notices =
            start.notices ++ (start.trail front).flatMap
              (fun moment => moment.1.queuedAt moment.2) ∧
          (start.serve front ≠ [] → s.notices = []) ∧
          ∃ told, (told = s.notices ++ s.queuedAt turn ∨
              (told = [] ∧ s.queuedAt turn = [] ∧ s.ownEvent? turn = none)) ∧
            s.take? turn = some ((s.ownEvent? turn).toList ++ told.map .notice, s.after turn) ∧
            start.serve turns = start.serve front ++
              ((s.ownEvent? turn).toList ++ told.map .notice) ++ (s.after turn).serve back := by
  intro start
  refine ⟨filter_serve start turns, fun s source text => handleLine_of_onlyAsks,
    summaries_serve start turns, ?_⟩
  intro front turn back hturns s
  have hfront := (heard_of_append hturns).1
  refine ⟨notices_serve start hfront, pending_of_serve_ne_nil hfront, s.toldAt turn, ?_, ?_, ?_⟩
  -- a turn that does nothing tells nothing, and queues nothing either.
  · cases hbusy : s.isBusy turn with
    | true => exact Or.inl (if_pos hbusy)
    | false =>
      obtain ⟨hown, hqueued⟩ := quiet_of_not_isBusy hbusy
      exact Or.inr ⟨by rw [toldAt, hbusy, if_neg Bool.false_ne_true], hqueued, hown⟩
  · apply take?_of_heard
    have hmem : turn ∈ heard turns := by rw [hturns]; simp
    simpa using List.mem_takeWhile_imp (p := fun turn : Turn => !turn.ends) hmem
  · exact serve_split start hturns

/-- A pattern of the configuration is bad. The warning waits for the first line that is no request,
and the line behind the end is not heard. -/
theorem conversation_with_warning :
    (startServer { validate := some { filePatterns := ["["] } }).serve
        [.run, .line (fun _ => .ok "") "x", .line (fun _ => .ok "") "y", .endOfInput,
          .line (fun _ => .ok "") "z"] =
      [.error RequestError.invalid.message,
        .notice ⟨.configWarning, none, "Ignoring invalid file pattern '['"⟩,
        .error RequestError.invalid.message] := by
  obtain ⟨-, -, -, hturns⟩ := conversation_in_order { validate := some { filePatterns := ["["] } }
    [.run, .line (fun _ => .ok "") "x", .line (fun _ => .ok "") "y", .endOfInput,
      .line (fun _ => .ok "") "z"]
  obtain ⟨-, -, told, htold, -, hserve⟩ := hturns [.run] (.line (fun _ => .ok "") "x")
    [.line (fun _ => .ok "") "y"] rfl
  rcases htold with rfl | ⟨-, -, hnone⟩
  · exact hserve.trans (by decide +kernel)
  · cases hnone

end Service

end KspWorkbench
