import KspWorkbench.Proofs.Validation.Identity
import KspWorkbench.Proofs.Validation.SingleFlight

/-!
# The way from a run to its result

The invariant `Delivery` follows runs from their start to the moment when their result is taken
from the queue. Every run belongs to a session that has been made, and to the document of that
session as long as the session is alive. The results that were taken and those that still wait are
the results of the runs that have ended, one by one and in the order of their ends.
-/

namespace KspWorkbench

namespace Service

/-- The result of a run that has ended. -/
def resultOf (run : Flight × Report) : RunResult :=
  run.1.result run.2

structure Delivery (L : History) (s : Service) : Prop where
  flight : SingleFlight L s
  distinct : s.registry.Distinct
  known : ∀ flight ∈ L.starts, flight.session ≤ s.registry.lastId
  owner : ∀ {key session}, s.registry.get? key = some session →
    ∀ flight ∈ L.starts, flight.session = session.id → flight.document = key
  fifo : L.ends.map resultOf = L.taken ++ s.results.toList

theorem delivery_create (compiler : Options) (settings : Settings) :
    Delivery [] (create compiler settings) where
  flight := singleFlight_create compiler settings
  distinct := distinct_create compiler settings
  known := by simp [History.starts]
  owner := by simp [History.starts]
  fifo := rfl

/-- Every run that was ever started belongs to a session that was made. -/
theorem known_play {L : History} {s : Service} (h : Delivery L s) (m : Move) :
    ∀ flight ∈ History.starts (L ++ s.emits m),
      flight.session ≤ (s.play m).registry.lastId := by
  intro flight hmem
  refine Nat.le_trans ?_ (lastId_le_play s m)
  rw [History.starts_append, List.mem_append] at hmem
  rcases hmem with hold | hnew
  · exact h.known flight hold
  · obtain ⟨session, hget, hid⟩ := owner_of_start hnew
    rw [← hid]
    exact h.distinct.bounded hget

/-- The runs of a session are all of the document of the session. -/
theorem owner_play {L : History} {s : Service} (h : Delivery L s) (m : Move) {key : DocumentKey}
    {session : Session} (hget : (s.play m).registry.get? key = some session) :
    ∀ flight ∈ History.starts (L ++ s.emits m), flight.session = session.id →
      flight.document = key := by
  intro flight hmem hid
  rw [History.starts_append, List.mem_append] at hmem
  rcases (origin_of_get?_play hget).old_or_new with ⟨old, hold, hold_id, -⟩ | ⟨-, hnew, -⟩
  · rw [← hold_id] at hid
    rcases hmem with hbefore | hnow
    · exact h.owner hold flight hbefore hid
    -- a run that starts now has the document of its session, and there is only one such session.
    · obtain ⟨owner, howner, howner_id⟩ := owner_of_start hnow
      exact h.distinct.unique howner hold (by rw [howner_id, hid])
  -- the session has just been made, and no run can have its identity yet.
  · exfalso
    rcases hmem with hbefore | hnow
    · have hle := h.known flight hbefore
      rw [hid, hnew] at hle
      exact Nat.not_succ_le_self _ hle
    · obtain ⟨owner, howner, howner_id⟩ := owner_of_start hnow
      exact h.distinct.id_ne_next howner (by rw [howner_id, hid, hnew])

/-- Results are taken in the order in which runs have ended, and none is lost. -/
theorem fifo_play {L : History} {s : Service}
    (h : L.ends.map resultOf = L.taken ++ s.results.toList) (m : Move) :
    (History.ends (L ++ s.emits m)).map resultOf =
      History.taken (L ++ s.emits m) ++ (s.play m).results.toList := by
  rw [History.ends_append, History.taken_append, List.map_append, h]
  cases resultChange_play s m with
  | none hresults hends htaken => simp [hresults, hends, htaken]
  | queued flight report hresults hends htaken => simp [hresults, hends, htaken, resultOf]
  | taken r hresults hends htaken => simp [hresults, hends, htaken]

/-- Every move keeps the way from a run to its result in order. -/
theorem delivery_play {L : History} {s : Service} (h : Delivery L s) (m : Move) :
    Delivery (L ++ s.emits m) (s.play m) where
  flight := singleFlight_play h.flight m
  distinct := distinct_play h.distinct m
  known := known_play h m
  owner := owner_play h m
  fifo := fifo_play h.fifo m

/-- **The way from a run to its result**, after any actions. -/
theorem delivery_performAll (compiler : Options) (settings : Settings) (actions : List Action) :
    Delivery ((create compiler settings).history actions)
      ((create compiler settings).performAll actions) :=
  history_induction (delivery_create compiler settings) (fun _ _ m h => delivery_play h m) actions

/-! ## Results go back to runs -/

/-- What has ended has started. -/
theorem Delivery.mem_starts {L : History} {s : Service} (h : Delivery L s) {run : Flight × Report}
    (hmem : run ∈ L.ends) : run.1 ∈ L.starts := by
  have hend : run.1 ∈ (L.endsOf run.1.session).map Prod.fst :=
    List.mem_map.mpr ⟨run, List.mem_filter.mpr ⟨hmem, by simp⟩, rfl⟩
  have hstart : run.1 ∈ L.startsOf run.1.session := by
    rw [h.flight.balance]
    exact List.mem_append_left _ hend
  exact (List.mem_filter.mp hstart).1

/-- A result, taken or waiting, is that of a run which has ended. -/
theorem Delivery.exists_run {L : History} {s : Service} (h : Delivery L s) {r : RunResult}
    (hr : r ∈ L.taken ++ s.results.toList) : ∃ run ∈ L.ends, resultOf run = r := by
  rw [← h.fifo] at hr
  exact List.mem_map.mp hr

/-- A result belongs to a session that was made, be it alive or gone. -/
theorem Delivery.session_le {L : History} {s : Service} (h : Delivery L s) {r : RunResult}
    (hr : r ∈ L.taken ++ s.results.toList) : r.session ≤ s.registry.lastId := by
  obtain ⟨run, hrun, rfl⟩ := h.exists_run hr
  exact h.known run.1 (h.mem_starts hrun)

/-- The results of a session that is alive are those of its document. -/
theorem Delivery.document_eq {L : History} {s : Service} (h : Delivery L s) {r : RunResult}
    (hr : r ∈ L.taken ++ s.results.toList) {key : DocumentKey} {session : Session}
    (hget : s.registry.get? key = some session) (hid : r.session = session.id) :
    r.document = key := by
  obtain ⟨run, hrun, rfl⟩ := h.exists_run hr
  exact h.owner hget run.1 (h.mem_starts hrun) hid

end Service

end KspWorkbench
