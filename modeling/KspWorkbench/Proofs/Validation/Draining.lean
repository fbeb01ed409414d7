import KspWorkbench.Proofs.Validation.Independence

/-!
# Draining the results

Results are taken from the queue by polling with a budget, or one applied run at a time. A budget
counts the results that are taken, and a result whose session is gone counts too although nothing
is published of it. Whether a session is still there does not change while results are taken, so
what becomes of a result can be told from the state before.

* **`Drained`** — some results are taken from the front of the queue: those of sessions that are
  alive are applied, the others leave no trace. It holds of one application
  (`drained_applyNext`) and composes (`Drained.trans`).
* **`poll_add`** — two budgets, one after the other, do what their sum does.
* **`draining_composes`** — what polling with any budget takes and does, and that waiting for the
  next applied run again and again gives the same.
-/

namespace KspWorkbench

namespace Service

variable {s t u : Service}

/-! ## §1 — what becomes of results that are taken -/

/-- Whether the session that a result belongs to is alive. -/
def isCurrent (s : Service) (r : RunResult) : Bool :=
  (s.registry.current? r.document r.session).isSome

/-- The session of a document after these results have been applied to it. -/
def sessionAfterResults (s : Service) (session : Session) (results : List RunResult) : Session :=
  results.foldl (fun session r => s.sessionAfterResult r session) session

/-- **The results `taken` are taken from the front of the queue**, one after the other. Those whose
session is alive are applied, which gives one summary and queues the notices of the report; the
others leave no trace. -/
structure Drained (s : Service) (taken : List RunResult) (summaries : List RunSummary)
    (t : Service) : Prop where
  ready : s.results.ready = taken ++ t.results.ready
  outside : t.results.outside = s.results.outside
  summaries : summaries = (taken.filter s.isCurrent).map fun r => r.report.summary r.document
  notices : t.notices = s.notices ++ (taken.filter s.isCurrent).flatMap (·.report.notices)
  sessions : ∀ key, t.registry.get? key = (s.registry.get? key).map fun session =>
    s.sessionAfterResults session ((taken.filter s.isCurrent).filter (·.document = key))
  lastId : t.registry.lastId = s.registry.lastId
  -- everything else is as before.
  frame : t = { s with registry := t.registry, notices := t.notices, results := t.results }

theorem id_sessionAfterResults (s : Service) (session : Session) (results : List RunResult) :
    (s.sessionAfterResults session results).id = session.id := by
  induction results generalizing session with
  | nil => rfl
  | cons r results ih => exact ih (s.sessionAfterResult r session)

/-- Results do not end sessions. -/
theorem Drained.isCurrent_eq {taken : List RunResult} {summaries : List RunSummary}
    (h : Drained s taken summaries t) : t.isCurrent = s.isCurrent := by
  funext r
  have hget := h.sessions r.document
  rw [isCurrent, isCurrent, Registry.current?, Registry.current?, hget]
  cases s.registry.get? r.document with
  | none => rfl
  | some session =>
    simp only [Option.map_some, Option.filter_some, id_sessionAfterResults]
    split <;> rfl

/-- Whether a run that could not start counts depends on the configured program only. -/
theorem Drained.sessionAfterResults_eq {taken : List RunResult} {summaries : List RunSummary}
    (h : Drained s taken summaries t) (session : Session) (results : List RunResult) :
    t.sessionAfterResults session results = s.sessionAfterResults session results := by
  have hcompiler : t.compiler = s.compiler := by rw [h.frame]
  have hafter : (fun session r => t.sessionAfterResult r session) =
      fun session r => s.sessionAfterResult r session := by
    funext session r
    unfold sessionAfterResult pausedAfter
    rw [hcompiler]
  rw [sessionAfterResults, hafter]
  rfl

theorem Drained.refl (s : Service) : Drained s [] [] s where
  ready := rfl
  outside := rfl
  summaries := rfl
  notices := (List.append_nil _).symm
  sessions key := by simp [sessionAfterResults]
  lastId := rfl
  frame := rfl

/-- Draining twice is draining once: what is current stays so, since results change no identities.
-/
theorem Drained.trans {taken taken' : List RunResult} {summaries summaries' : List RunSummary}
    (h : Drained s taken summaries t) (h' : Drained t taken' summaries' u) :
    Drained s (taken ++ taken') (summaries ++ summaries') u where
  ready := by rw [h.ready, h'.ready, List.append_assoc]
  outside := h'.outside.trans h.outside
  summaries := by
    rw [h.summaries, h'.summaries, h.isCurrent_eq, List.filter_append, List.map_append]
  notices := by
    rw [h'.notices, h.notices, h.isCurrent_eq, List.filter_append, List.flatMap_append,
      List.append_assoc]
  -- the results of the second part find the sessions that the first one leaves, with the same
  -- identities.
  sessions key := by
    rw [h'.sessions, h.sessions, h.isCurrent_eq, Option.map_map, List.filter_append,
      List.filter_append]
    refine Option.map_congr fun session _ => ?_
    rw [Function.comp, h.sessionAfterResults_eq]
    exact List.foldl_append.symm
  lastId := h'.lastId.trans h.lastId
  frame := by
    rw [h'.frame, h.frame]

/-- **One result is taken** and applied or dropped. -/
theorem drained_applyNext {r : RunResult} {rest : List RunResult}
    (hready : s.results.ready = r :: rest) :
    Drained s [r] s.applyNext.1.join.toList s.applyNext.2 := by
  -- the result is dropped if its session is gone, and else it is applied to it.
  rcases applyNext_of_ready hready with ⟨hgone, hnext⟩ | ⟨owner, howner, hid, hnext⟩
  · have hdead : s.isCurrent r = false := by rw [isCurrent, hgone]; rfl
    rw [hnext]
    exact
      { ready := by simp [dropResult, hready]
        outside := rfl
        summaries := by simp [hdead]
        notices := by simp [dropResult, hdead]
        sessions := fun key => by simp [dropResult, hdead, sessionAfterResults]
        lastId := rfl
        frame := rfl }
  · have halive : s.isCurrent r = true := by
      rw [isCurrent, Registry.current?_eq_some_iff.mpr ⟨howner, hid⟩]
      rfl
    rw [hnext]
    exact
      { ready := by simp [dropResult, hready]
        outside := rfl
        summaries := by simp [halive]
        notices := by simp [halive]
        sessions := fun key => by
          rw [Registry.get?_modify]
          by_cases hkey : key = r.document
          · subst hkey
            simp [halive, howner, sessionAfterResults, sessionAfterResult]
          · simp [hkey, Ne.symm hkey, sessionAfterResults]
        lastId := rfl
        frame := rfl }

/-! ## §2 — polling -/

theorem poll_of_empty (h : s.results.ready = []) (n : Nat) : s.poll n = ([], s) := by
  cases n with
  | zero => rfl
  | succ n => rw [poll, applyNext_of_empty h]

/-- Polling with a budget takes one result, and goes on with the rest of the budget. -/
theorem poll_succ_of_ready {r : RunResult} {rest : List RunResult}
    (hready : s.results.ready = r :: rest) (n : Nat) :
    s.poll (n + 1) =
      (s.applyNext.1.join.toList ++ (s.applyNext.2.poll n).1, (s.applyNext.2.poll n).2) := by
  rcases applyNext_of_ready hready with ⟨-, hnext⟩ | ⟨_, -, -, hnext⟩ <;> rw [poll, hnext] <;> rfl

/-- **What polling does**: it takes as many results as the budget allows and the queue has. -/
theorem drained_poll (s : Service) (n : Nat) :
    Drained s (s.results.ready.take n) (s.poll n).1 (s.poll n).2 := by
  induction n generalizing s with
  | zero => exact .refl s
  | succ n ih =>
    cases hready : s.results.ready with
    | nil =>
      rw [poll_of_empty hready]
      exact .refl s
    | cons r rest =>
      have hone := drained_applyNext hready
      have hrest : s.applyNext.2.results.ready = rest := (document_of_applyNext hready).1
      have hmore := hone.trans (ih s.applyNext.2)
      rw [hrest] at hmore
      rw [poll_succ_of_ready hready]
      exact hmore

/-- The budget counts the results that are taken, dropped ones included. -/
theorem ready_poll (s : Service) (n : Nat) :
    (s.poll n).2.results.ready = s.results.ready.drop n := by
  have hsplit := (drained_poll s n).ready
  exact List.append_cancel_left (hsplit.symm.trans (List.take_append_drop n _).symm)

/-- **Budgets add up.** -/
theorem poll_add (s : Service) (a b : Nat) :
    s.poll (a + b) = ((s.poll a).1 ++ ((s.poll a).2.poll b).1, ((s.poll a).2.poll b).2) := by
  induction a generalizing s with
  | zero => rw [Nat.zero_add]; rfl
  | succ a ih =>
    cases hready : s.results.ready with
    | nil => rw [poll_of_empty hready, poll_of_empty hready, poll_of_empty hready]; rfl
    | cons r rest =>
      rw [Nat.succ_add, poll_succ_of_ready hready, poll_succ_of_ready hready, ih,
        List.append_assoc]

/-- A budget that is greater than needed takes no more. -/
theorem poll_of_length_le {n : Nat} (h : s.results.ready.length ≤ n) :
    s.poll n = s.poll s.results.ready.length := by
  obtain ⟨more, rfl⟩ := Nat.exists_eq_add_of_le h
  have hempty : (s.poll s.results.ready.length).2.results.ready = [] := by
    rw [ready_poll, List.drop_length]
  rw [poll_add, poll_of_empty hempty, List.append_nil]

/-! ## §3 — one applied run after the other -/

/-- Waits so many times for the next applied run: the summaries that come back. -/
def nextRuns (s : Service) : Nat → List RunSummary × Service
  | 0 => ([], s)
  | calls + 1 =>
    let (summary, s) := s.nextRun
    let (summaries, s) := s.nextRuns calls
    (summary.toList ++ summaries, s)

theorem nextRuns_succ (s : Service) (calls : Nat) :
    s.nextRuns (calls + 1) =
      (s.nextRun.1.toList ++ (s.nextRun.2.nextRuns calls).1, (s.nextRun.2.nextRuns calls).2) :=
  rfl

/-- Waiting for a run is polling with the budget that it takes. -/
theorem nextRun_eq_poll (s : Service) :
    (s.nextRun.1.toList, s.nextRun.2) = s.poll (s.drawn s.results.ready.length) := by
  refine Prod.ext ?_ ?_
  · rw [poll_fst]
    exact nextRunWithin_fst s _
  · rw [poll_snd]
    exact nextRunWithin_snd s _

/-- Where no run comes back, all results have been taken. -/
theorem ready_nextRunWithin {tries : Nat} (hnone : (s.nextRunWithin tries).1 = none)
    (hle : s.results.ready.length ≤ tries) : (s.nextRunWithin tries).2.results.ready = [] := by
  induction tries generalizing s with
  | zero => exact List.length_eq_zero_iff.mp (Nat.le_zero.mp hle)
  | succ n ih =>
    cases hready : s.results.ready with
    | nil => rw [nextRunWithin, applyNext_of_empty hready]; exact hready
    | cons r rest =>
      have hrest : s.applyNext.2.results.ready = rest := (document_of_applyNext hready).1
      rw [hready, List.length_cons] at hle
      rcases applyNext_of_ready hready with ⟨-, hnext⟩ | ⟨_, -, -, hnext⟩
      · rw [nextRunWithin, hnext] at hnone ⊢
        rw [hnext] at hrest
        exact ih hnone (by rw [hrest]; omega)
      · rw [nextRunWithin, hnext] at hnone
        cases hnone

/-- All that the queue holds, polled at once. -/
def pollAll (s : Service) : List RunSummary × Service :=
  s.poll s.results.ready.length

theorem pollAll_of_empty (h : s.results.ready = []) : s.pollAll = ([], s) :=
  poll_of_empty h _

/-- Polling the rest after a first part. -/
theorem pollAll_eq (s : Service) (n : Nat) :
    s.pollAll = ((s.poll n).1 ++ (s.poll n).2.pollAll.1, (s.poll n).2.pollAll.2) := by
  have hle : s.results.ready.length ≤ n + (s.poll n).2.results.ready.length := by
    rw [ready_poll, List.length_drop]
    omega
  rw [pollAll, ← poll_of_length_le hle, poll_add]
  rfl

/-- The next applied run is the first one of those to come. -/
theorem pollAll_nextRun (s : Service) :
    s.pollAll = (s.nextRun.1.toList ++ s.nextRun.2.pollAll.1, s.nextRun.2.pollAll.2) := by
  have h := pollAll_eq s (s.drawn s.results.ready.length)
  rw [← nextRun_eq_poll] at h
  exact h

theorem nextRuns_of_empty (h : s.results.ready = []) (calls : Nat) :
    s.nextRuns calls = ([], s) := by
  have hnext : s.nextRun = (none, s) := by rw [nextRun, h]; rfl
  induction calls with
  | zero => rfl
  | succ n ih => rw [nextRuns_succ, hnext, ih]; rfl

/-- **Waiting again and again gives the runs in the same order**, one for each call as long as there
are any; the state is the same when a call finds no more. -/
theorem nextRuns_eq (s : Service) (calls : Nat) :
    (s.nextRuns calls).1 = s.pollAll.1.take calls ∧
      (s.pollAll.1.length < calls → (s.nextRuns calls).2 = s.pollAll.2) := by
  induction calls generalizing s with
  | zero => exact ⟨by rw [List.take_zero]; rfl, fun h => absurd h (Nat.not_lt_zero _)⟩
  | succ n ih =>
    obtain ⟨hruns, hstate⟩ := ih s.nextRun.2
    rw [pollAll_nextRun, nextRuns_succ]
    cases hnext : s.nextRun.1 with
    | none =>
      have hempty : s.nextRun.2.results.ready = [] :=
        ready_nextRunWithin hnext (Nat.le_refl _)
      rw [pollAll_of_empty hempty, nextRuns_of_empty hempty]
      exact ⟨rfl, fun _ => rfl⟩
    | some summary =>
      refine ⟨congrArg (summary :: ·) hruns, fun hless => hstate ?_⟩
      simpa using hless

/-- **Draining composes.** Polling with two budgets, one after the other, returns the same summaries
and leaves the same state as polling with their sum. A budget `n` takes `n` results or all that
there are, each one once, and applies or drops it. Waiting for the next applied run as often as one
likes returns the first summaries of a budget that is great enough, and leaves the same state as
soon as a call has found no more. -/
theorem draining_composes (s : Service) :
    (∀ a b, s.poll (a + b) =
      ((s.poll a).1 ++ ((s.poll a).2.poll b).1, ((s.poll a).2.poll b).2)) ∧
    (∀ n, ∃ taken, taken.length = min n s.results.ready.length ∧
      Drained s taken (s.poll n).1 (s.poll n).2) ∧
    ∀ budget calls, s.results.ready.length ≤ budget →
      (s.nextRuns calls).1 = (s.poll budget).1.take calls ∧
      ((s.poll budget).1.length < calls → (s.nextRuns calls).2 = (s.poll budget).2) := by
  refine ⟨poll_add s, fun n => ⟨_, List.length_take, drained_poll s n⟩, ?_⟩
  intro budget calls hbudget
  rw [poll_of_length_le hbudget]
  exact nextRuns_eq s calls

/-- Four results wait: one of a session that another one has replaced, two of sessions that are
alive, one of a session that is gone. A budget of two applies one of them. -/
theorem drained_past_dropped_results :
    let a : DocumentKey := ⟨"a.ksp"⟩
    let b : DocumentKey := ⟨"b.ksp"⟩
    let c : DocumentKey := ⟨"c.ksp"⟩
    let report (code : Int) : Report := ⟨.exited code, [], []⟩
    let run (key : DocumentKey) (id : SessionId) (code : Int) : List Action :=
      [.validate key 0, .fire key, .complete id (report code)]
    let s := (create {} { filePatterns := [] }).performAll
      (run a 1 1 ++ [.handle (.closed a)] ++ run a 2 2 ++ run b 3 3 ++ run c 4 4 ++
        [.handle (.closed c)])
    s.results.ready.length ≤ 4 ∧ (s.poll 2).1 = [⟨a, some 2, []⟩] ∧
    (s.poll 4).1 = [⟨a, some 2, []⟩, ⟨b, some 3, []⟩] ∧
    (s.nextRuns 3).1 = (s.poll 4).1.take 3 ∧ (s.nextRuns 3).2 = (s.poll 4).2 := by
  intro a b c report run s
  have hlength : s.results.ready.length ≤ 4 := by decide
  obtain ⟨-, -, hnext⟩ := draining_composes s
  obtain ⟨hruns, hstate⟩ := hnext 4 3 hlength
  exact ⟨hlength, by decide, by decide, hruns, hstate (by decide)⟩

end Service

end KspWorkbench
