import KspWorkbench.Proofs.DocumentOrder
import KspWorkbench.Proofs.Validation.Projection
import Mathlib.Logic.Equiv.Basic

/-!
# Documents do not interfere

All documents share one registry, one counter of identities, one queue of results and one
configuration. Nothing of it leads from one document to another: what becomes of a document depends
on what concerns it and on nothing else.

`concerns` is the part of an action that concerns a document. The invariant `Tracks` says that the
state of the document is that of a `DocumentRun` which has answered to these concerns alone, up to
the names of sessions; every move keeps it, and so does every action.

* **`follows_perform`** — one action, seen from a document.
* **`documents_independent`** — two courses with the same concerns of a document end with the same
  state of it, after the same processes and the same summaries.
-/

namespace KspWorkbench

def DocumentEvent.key : DocumentEvent → DocumentKey
  | .opened key | .saved key | .edited key | .closed key => key

theorem KeySet.contains_add (keys : KeySet) (other key : DocumentKey) :
    (keys.add other).contains key = (decide (key = other) || keys.contains key) := by
  rw [Bool.eq_iff_iff]
  simp

theorem KeySet.contains_remove (keys : KeySet) (other key : DocumentKey) :
    (keys.remove other).contains key = (keys.contains key && decide (key ≠ other)) := by
  rw [Bool.eq_iff_iff]
  simp

namespace Service

/-! ## §1 — what concerns a document -/

/-- The results of a document among the oldest `n` that are ready. -/
def takenFor (s : Service) (key : DocumentKey) (n : Nat) : List Concern :=
  ((s.results.ready.take n).filter (·.document = key)).map fun _ => .applied

/-- **What of an action concerns a document**: events and calls about it, the ends of its delays and
of its runs, and each of its results that is taken from the queue; and every configuration and
shutdown. -/
def concerns (key : DocumentKey) (s : Service) : Action → List Concern
  | .handle event => if event.key = key then [.handle event] else []
  | .beginOwnSave other => if other = key then [.beginOwnSave] else []
  | .endOwnSave other => if other = key then [.endOwnSave] else []
  | .validate other delay => if other = key then [.validate delay] else []
  | .applyConfig compiler settings => [.applyConfig compiler settings]
  | .shutdown => [.shutdown]
  | .fire other => if other = key then [.fired] else []
  | .complete id report => (s.placeOf? key id).toList.map (.ended · report)
  | .poll budget => s.takenFor key budget
  | .nextRun => s.takenFor key (s.drawn s.results.ready.length)
  | .refill | .drainNotices | .advance _ => []

/-- The processes that an action starts for a document. -/
def launches (key : DocumentKey) (s : Service) : Action → List Launch
  | .fire other => ((s.fire other).1.toList.filter (·.document = key)).map Flight.launch
  | _ => []

/-- The summaries that an action returns for a document. -/
def summaries (key : DocumentKey) (s : Service) : Action → List RunSummary
  | .poll budget => (s.poll budget).1.filter (·.document = key)
  | .nextRun => s.nextRun.1.toList.filter (·.document = key)
  | _ => []

/-- What the actions of a course give, one after the other. -/
def along {α : Type} (output : Service → Action → List α) (s : Service) : List Action → List α
  | [] => []
  | a :: actions => output s a ++ (s.perform a).along output actions

/-! ## §2 — a document answers to what concerns it, whatever else happens -/

/-- **The state of a document is that of a run which answered to its concerns**, if the sessions of
the run are named by `ν`; so are the processes and the summaries so far. -/
structure Tracks (key : DocumentKey) (ν : Equiv.Perm SessionId) (r : DocumentRun)
    (started : List Launch) (returned : List RunSummary) (s : Service) : Prop where
  delivery : ∃ L, Delivery L s
  state : s.document key = r.state.rename ν
  started : started = r.launches.map (Launch.rename ν)
  returned : returned = r.summaries
  numbered : ∀ id ∈ r.ids, id < r.made
  bounded : ∀ n < r.made, ν n ≤ s.registry.lastId

/-- A service tracks a run under some names of its sessions. -/
def Follows (key : DocumentKey) (r : DocumentRun) (started : List Launch)
    (returned : List RunSummary) (s : Service) : Prop :=
  ∃ ν, Tracks key ν r started returned s

variable {key other : DocumentKey} {ν : Equiv.Perm SessionId} {r : DocumentRun}
  {started : List Launch} {returned : List RunSummary} {s : Service}

/-- A move that makes no session for the document. -/
theorem Tracks.step (h : Tracks key ν r started returned s) (m : Move) {r' : DocumentRun}
    {started' : List Launch} {returned' : List RunSummary}
    (hstate : (s.play m).document key = r'.state.rename ν)
    (hstarted : started' = r'.launches.map (Launch.rename ν)) (hreturned : returned' = r'.summaries)
    (hmade : r'.made = r.made) (hids : r'.ids ⊆ r.ids) :
    Tracks key ν r' started' returned' (s.play m) := by
  obtain ⟨L, hdelivery⟩ := h.delivery
  exact
    { delivery := ⟨_, delivery_play hdelivery m⟩
      state := hstate
      started := hstarted
      returned := hreturned
      numbered := fun id hid => hmade ▸ h.numbered id (hids hid)
      bounded := fun n hn => Nat.le_trans (h.bounded n (hmade ▸ hn)) (lastId_le_play s m) }

/-- A move that changes the state of the document as a change of the run's state does. -/
theorem Tracks.update (h : Tracks key ν r started returned s) (m : Move)
    (change : DocumentState → DocumentState)
    (hstate : (s.play m).document key = change (s.document key))
    (hrename : change (r.state.rename ν) = (change r.state).rename ν)
    (hids : (change r.state).ids ⊆ r.state.ids) :
    Follows key (r.update change) started returned (s.play m) := by
  refine ⟨ν, h.step m ?_ h.started h.returned rfl ?_⟩
  · rw [hstate, h.state, hrename]
    rfl
  · exact List.append_subset.mpr ⟨List.subset_append_of_subset_left _ hids,
      List.subset_append_right _ _⟩

/-- A move that leaves the state of the document alone. -/
theorem Follows.keep (h : Follows key r started returned s) (m : Move)
    (hstate : (s.play m).document key = s.document key) :
    Follows key r started returned (s.play m) := by
  obtain ⟨ν, h⟩ := h
  exact h.update m id hstate rfl (List.Subset.refl _)

/-- Names can be extended by a name that nobody has yet, for the next number. -/
theorem exists_next_name (ν : Equiv.Perm SessionId) {made fresh : Nat}
    (h : ∀ n < made, ν n < fresh) :
    ∃ ν' : Equiv.Perm SessionId, ν' made = fresh ∧ ∀ n < made, ν' n = ν n := by
  refine ⟨ν.trans (Equiv.swap (ν made) fresh), Equiv.swap_apply_left _ _, fun n hn => ?_⟩
  refine Equiv.swap_apply_of_ne_of_ne (fun heq => ?_) (Nat.ne_of_lt (h n hn))
  exact Nat.ne_of_lt hn (ν.injective heq)

/-- A request uses the next number only if it makes a session, and then counts it. -/
theorem numbered_request (h : ∀ id ∈ r.ids, id < r.made) (delay : Nat) :
    ∀ id ∈ (r.request key delay).ids, id < (r.request key delay).made := by
  intro id hid
  show id < if r.state.session?.isSome then r.made else r.made + 1
  have hcases : id < r.made ∨ (r.state.session? = none ∧ id = r.made) := by
    rcases List.mem_append.mp hid with hmem | hmem
    · rcases DocumentState.mem_ids_request hmem with hmem | hmem
      · exact Or.inl (h id (List.mem_append_left _ hmem))
      · exact Or.inr hmem
    · exact Or.inl (h id (List.mem_append_right _ hmem))
  rcases hcases with hlt | ⟨hnone, rfl⟩
  · split
    · exact hlt
    · exact Nat.lt_succ_of_lt hlt
  · rw [hnone]
    exact Nat.lt_succ_self _

/-- **A request.** The next number names a session that is made for it; it is nobody's yet. -/
theorem Tracks.request (h : Tracks key ν r started returned s) (delay : Nat) :
    Follows key (r.request key delay) started returned (s.play (.request key delay)) := by
  obtain ⟨L, hdelivery⟩ := h.delivery
  have hdocument := document_validate hdelivery.fresh_not_running key delay
  have hfresh : ∀ n < r.made, ν n < s.registry.lastId + 1 :=
    fun n hn => Nat.lt_succ_of_le (h.bounded n hn)
  obtain ⟨ν', hnew, hold⟩ := exists_next_name ν hfresh
  -- what the run has so far keeps its names.
  have hstate : r.state.rename ν = r.state.rename ν' :=
    DocumentState.rename_congr fun id hid =>
      (hold id (h.numbered id (List.mem_append_left _ hid))).symm
  have hlaunches : r.launches.map (Launch.rename ν) = r.launches.map (Launch.rename ν') := by
    refine List.map_congr_left fun launch hlaunch => ?_
    have hlt := h.numbered launch.session
      (List.mem_append_right _ (List.mem_map_of_mem hlaunch))
    rw [Launch.rename, Launch.rename, hold _ hlt]
  -- the run counts a session exactly if the registry makes one.
  have hsession : r.state.session?.isSome = (s.registry.get? key).isSome := by
    have hsame := congrArg (fun d => d.session?.isSome) h.state
    simpa [document, DocumentState.rename] using hsame.symm
  have hlast := lastId_validate s key delay
  refine ⟨ν', ⟨⟨_, delivery_play hdelivery (.request key delay)⟩, ?_, ?_, h.returned,
    numbered_request h.numbered delay, ?_⟩⟩
  · show (s.validate key delay).2.document key = _
    rw [hdocument, h.state, hstate, ← hnew, DocumentState.rename_request]
    rfl
  · rw [h.started, hlaunches]
    rfl
  · intro n hn
    show ν' n ≤ (s.validate key delay).2.registry.lastId
    have hn : n < if r.state.session?.isSome then r.made else r.made + 1 := hn
    rw [hlast, ← hsession]
    cases hsome : r.state.session?.isSome with
    | true =>
      rw [hsome, if_pos rfl] at hn
      rw [if_pos rfl, hold n hn]
      exact h.bounded n hn
    | false =>
      rw [hsome, if_neg Bool.false_ne_true] at hn
      rw [if_neg Bool.false_ne_true]
      rcases Nat.lt_succ_iff_lt_or_eq.mp hn with hlt | rfl
      · rw [hold n hlt]
        exact Nat.le_succ_of_le (h.bounded n hlt)
      · exact Nat.le_of_eq hnew

/-- **The end of a delay.** -/
theorem Tracks.fire (h : Tracks key ν r started returned s) :
    Tracks key ν (r.respond key .fired)
      (started ++ ((s.fire key).1.map Flight.launch).toList) returned (s.play (.fire key)) := by
  obtain ⟨hlaunch, hstate⟩ := document_fire s key
  rw [h.state, DocumentState.rename_fire] at hlaunch hstate
  obtain ⟨hids, hsession⟩ := r.state.ids_fire_subset
  refine h.step (.fire key) hstate ?_ h.returned rfl (List.append_subset.mpr ⟨?_, ?_⟩)
  · rw [h.started, hlaunch, DocumentRun.respond, List.map_append]
    cases r.state.fire.1 <;> rfl
  · exact List.subset_append_of_subset_left _ hids
  · rw [DocumentRun.respond, List.map_append]
    refine List.append_subset.mpr ⟨List.subset_append_right _ _, ?_⟩
    intro id hid
    obtain ⟨launch, hfired, rfl⟩ := List.mem_map.mp hid
    exact List.mem_append_left _ (hsession launch (Option.mem_toList.mp hfired))

/-- **A result of the document is taken.** -/
theorem Tracks.applyNext (h : Tracks key ν r started returned s) {result : RunResult}
    {rest : List RunResult} (hready : s.results.ready = result :: rest)
    (hkey : result.document = key) :
    Tracks key ν (r.respond key .applied) started
      (returned ++ s.applyNext.1.join.toList) (s.play .applyNext) := by
  obtain ⟨hsummary, hstate⟩ := document_applyNext hready hkey
  rw [h.state, DocumentState.rename_applyNext] at hsummary hstate
  refine h.step .applyNext hstate h.started ?_ rfl (List.append_subset.mpr ⟨?_, ?_⟩)
  · rw [h.returned, hsummary]
    rfl
  · exact List.subset_append_of_subset_left _ (r.state.ids_applyNext_subset key)
  · exact List.subset_append_right _ _

/-! ## §3 — actions -/

/-- A request of the document is answered by the document on its own. -/
theorem Follows.requestIf (h : Follows key r started returned s) (condition : Bool)
    (delay : Nat) :
    Follows key (r.requestIf key condition delay) started returned
      (s.playAll (if condition then [.request key delay] else [])) := by
  obtain ⟨ν, h⟩ := h
  cases condition with
  | true => exact h.request delay
  | false => exact ⟨ν, h⟩

/-- Requests for several documents, among them this one or not. -/
theorem Follows.requests {keys : List DocumentKey} (h : Follows key r started returned s)
    (hnodup : keys.Nodup) :
    Follows key (r.requestIf key (keys.contains key) 0) started returned
      (s.playAll (keys.map (.request · 0))) := by
  induction keys generalizing r s with
  | nil => exact h
  | cons first keys ih =>
    obtain ⟨hfirst, hnodup⟩ := List.nodup_cons.mp hnodup
    -- the document is requested once at most; requests of others do not concern it.
    by_cases hkey : first = key
    · subst hkey
      have hrest : keys.contains first = false := by simpa using hfirst
      have hlast := ih (h.requestIf true 0) hnodup
      rw [hrest] at hlast
      simpa [DocumentRun.requestIf] using hlast
    · have hsame : (first :: keys).contains key = keys.contains key := by
        simp [Ne.symm hkey]
      rw [hsame]
      exact ih (h.keep (.request first 0) (document_validate_of_ne hkey 0)) hnodup

/-- Whether a document is to be validated can be told from its own state. -/
theorem Follows.shouldValidate_eq (h : Follows key r started returned s) :
    s.shouldValidate key = r.state.shouldValidate key := by
  obtain ⟨ν, h⟩ := h
  exact congrArg (DocumentState.shouldValidate · key) h.state

theorem Follows.selects_eq (h : Follows key r started returned s) :
    s.selects key = r.state.selects key := by
  obtain ⟨ν, h⟩ := h
  exact congrArg (DocumentState.selects · key) h.state

theorem Follows.live_eq (h : Follows key r started returned s) :
    s.settings.live = r.state.settings.live ∧ s.liveDelay = r.state.liveDelay := by
  obtain ⟨ν, h⟩ := h
  exact ⟨congrArg (fun d => d.settings.live) h.state, congrArg DocumentState.liveDelay h.state⟩

/-- The marks of a document are those of its own state. -/
theorem Follows.marks_eq (h : Follows key r started returned s) :
    s.openDocuments.contains key = r.state.isOpen ∧ s.liveEdits.contains key = r.state.liveEdit ∧
      s.ownSaves.contains key = r.state.ownSave := by
  obtain ⟨ν, h⟩ := h
  exact ⟨congrArg DocumentState.isOpen h.state, congrArg DocumentState.liveEdit h.state,
    congrArg DocumentState.ownSave h.state⟩

/-- Setting marks of the document is setting them in its own state. -/
theorem Follows.mark (h : Follows key r started returned s) {openDocuments liveEdits ownSaves : KeySet}
    {isOpen liveEdit ownSave : Bool} (hopen : openDocuments.contains key = isOpen)
    (hedit : liveEdits.contains key = liveEdit) (hsave : ownSaves.contains key = ownSave) :
    Follows key
      (r.update ({ · with isOpen := isOpen, liveEdit := liveEdit, ownSave := ownSave })) started
      returned (s.play (.mark openDocuments liveEdits ownSaves)) := by
  obtain ⟨ν, h⟩ := h
  refine h.update _ _ ?_ rfl (List.Subset.refl _)
  rw [document_mark, hopen, hedit, hsave]

/-- The marks of other documents leave the document alone. -/
theorem Follows.mark_others (h : Follows key r started returned s)
    {openDocuments liveEdits ownSaves : KeySet}
    (hopen : openDocuments.contains key = s.openDocuments.contains key)
    (hedit : liveEdits.contains key = s.liveEdits.contains key)
    (hsave : ownSaves.contains key = s.ownSaves.contains key) :
    Follows key r started returned (s.play (.mark openDocuments liveEdits ownSaves)) := by
  refine h.keep _ ?_
  rw [document_mark, hopen, hedit, hsave]
  rfl

/-- A request of another document does not concern the document. -/
theorem Follows.request_other {t : Service} (h : Follows key r started returned t)
    (hne : other ≠ key) (s : Service) :
    Follows key r started returned (t.playAll (s.requestIfValidated other)) := by
  unfold requestIfValidated
  split
  · exact h.keep (.request other 0) (document_validate_of_ne hne 0)
  · exact h

/-- An event of another document does not concern the document. -/
theorem follows_handle_of_ne (h : Follows key r started returned s) (event : DocumentEvent)
    (hne : event.key ≠ key) : Follows key r started returned (s.perform (.handle event)) := by
  -- marks of another document are set and removed beside those of the document.
  have hadd : ∀ keys : KeySet, (keys.add event.key).contains key = keys.contains key := by
    intro keys
    rw [KeySet.contains_add, decide_eq_false (Ne.symm hne), Bool.false_or]
  have hremove : ∀ keys : KeySet, (keys.remove event.key).contains key = keys.contains key := by
    intro keys
    rw [KeySet.contains_remove, decide_eq_true (Ne.symm hne), Bool.and_true]
  rw [perform, handle_eq]
  cases event with
  | opened other =>
    exact (h.mark_others (hadd _) rfl rfl).request_other hne s
  | saved other =>
    rw [movesOfEvent]
    split
    · exact h
    · exact (h.mark_others rfl (hremove _) rfl).request_other hne s
  | edited other =>
    rw [movesOfEvent]
    split
    · exact (h.mark_others rfl (hadd _) rfl).keep (.request other s.liveDelay)
        (document_validate_of_ne hne _)
    · exact h
  | closed other =>
    refine (h.mark_others (hremove _) (hremove _) (hremove _)).keep (.dispose other) ?_
    rw [document_dispose]
    exact if_neg hne

/-- An event of the document is answered by the document on its own. -/
theorem follows_handle (h : Follows key r started returned s) (event : DocumentEvent)
    (hkey : event.key = key) :
    Follows key (r.handle key event) started returned (s.perform (.handle event)) := by
  obtain ⟨hopen, hedit, hsave⟩ := h.marks_eq
  have hvalidate := h.shouldValidate_eq
  have hadd : ∀ keys : KeySet, (keys.add key).contains key = true := by
    intro keys
    rw [KeySet.contains_add, decide_eq_true rfl, Bool.true_or]
  have hremove : ∀ keys : KeySet, (keys.remove key).contains key = false := by
    intro keys
    rw [KeySet.contains_remove, decide_eq_false (by simp), Bool.and_false]
  rw [perform, handle_eq]
  -- in each case the decision to validate is taken from what the document knows itself.
  cases event with
  | opened other =>
    have hkey : other = key := hkey
    subst hkey
    have hmarked := h.mark (hadd s.openDocuments) hedit hsave
    rw [DocumentRun.handle, ← hvalidate]
    exact hmarked.requestIf (s.shouldValidate other) 0
  | saved other =>
    have hkey : other = key := hkey
    subst hkey
    rw [DocumentRun.handle, movesOfEvent, ← hsave, ← hvalidate]
    by_cases hown : s.ownSaves.contains other = true
    · rw [if_pos hown, if_pos hown]
      exact h
    · rw [if_neg hown, if_neg hown]
      have hmarked := h.mark hopen (hremove s.liveEdits) hsave
      exact hmarked.requestIf (s.shouldValidate other) 0
  | edited other =>
    have hkey : other = key := hkey
    subst hkey
    obtain ⟨hlive, hdelay⟩ := h.live_eq
    rw [DocumentRun.handle, movesOfEvent, ← hvalidate, ← hlive, ← hdelay]
    by_cases hlives : (s.settings.live && s.shouldValidate other) = true
    · rw [if_pos hlives, if_pos hlives]
      have hmarked := h.mark hopen (hadd s.liveEdits) hsave
      exact hmarked.requestIf true s.liveDelay
    · rw [if_neg hlives, if_neg hlives]
      exact h
  | closed other =>
    have hkey : other = key := hkey
    subst hkey
    obtain ⟨ν, hmarked⟩ := h.mark (hremove s.openDocuments) (hremove s.liveEdits)
      (hremove s.ownSaves)
    refine hmarked.update (.dispose other) ({ · with session? := none }) ?_ rfl
      (List.subset_append_right _ _)
    rw [document_dispose]
    exact if_pos rfl

/-- A new configuration reaches every document alike. -/
theorem follows_applyConfig (h : Follows key r started returned s) (compiler : Options)
    (settings : Settings) :
    Follows key (r.respond key (.applyConfig compiler settings)) started returned
      (s.perform (.applyConfig compiler settings)) := by
  obtain ⟨ν, h⟩ := h
  have hconfigured := h.update (.reconfigure compiler settings) (·.reconfigure compiler settings)
    (document_reconfigure s key compiler settings) (DocumentState.rename_reconfigure ν _ _ _)
    (by rw [DocumentState.ids_reconfigure]; exact List.Subset.refl _)
  rw [perform, applyConfig_eq, DocumentRun.respond, revalidated]
  cases hconfig : settings.enabled with
  | false => exact hconfigured
  | true =>
    -- of the documents that are validated again, only this one counts here.
    have hcontains : ((DocumentKey.sortDistinct (s.reconfigure compiler settings).openDocuments).filter
        (s.reconfigure compiler settings).selects).contains key =
        ((r.update (·.reconfigure compiler settings)).state.isOpen &&
          (r.update (·.reconfigure compiler settings)).state.selects key) := by
      rw [← hconfigured.marks_eq.1, ← hconfigured.selects_eq, Bool.eq_iff_iff]
      simp [DocumentKey.mem_sortDistinct, play]
    have hrequests := hconfigured.requests
      ((DocumentKey.nodup_sortDistinct (s.reconfigure compiler settings).openDocuments).filter
        (s.reconfigure compiler settings).selects)
    rw [hcontains] at hrequests
    exact hrequests

/-! ## §4 — polling -/

/-- The summaries of the results that so many applications take. -/
def appliedBy (s : Service) : Nat → List RunSummary
  | 0 => []
  | n + 1 => s.applyNext.1.join.toList ++ s.applyNext.2.appliedBy n

theorem appliedBy_of_none (h : s.applyNext.1 = none) (n : Nat) : s.appliedBy n = [] := by
  induction n with
  | zero => rfl
  | succ n ih =>
    rw [appliedBy, h, applyNext_snd_of_fst_eq_none h]
    exact ih

/-- The summaries of polling are those of the results that are applied. -/
theorem poll_fst (s : Service) (budget : Nat) : (s.poll budget).1 = s.appliedBy budget := by
  induction budget generalizing s with
  | zero => rfl
  | succ n ih =>
    cases hnext : s.applyNext with
    | mk taken t =>
      cases taken with
      | none => rw [appliedBy_of_none (by rw [hnext]), poll, hnext]
      | some summary =>
        rw [poll, appliedBy, hnext]
        exact congrArg (summary.toList ++ ·) (ih t)

/-- The summary of the next run is the one of the results up to the first that is applied. -/
theorem nextRunWithin_fst (s : Service) (tries : Nat) :
    (s.nextRunWithin tries).1.toList = s.appliedBy (s.drawn tries) := by
  induction tries generalizing s with
  | zero => rfl
  | succ n ih =>
    cases hnext : s.applyNext with
    | mk taken t =>
      -- a dropped result has no summary, and the wait goes on.
      match taken with
      | none => rw [appliedBy_of_none (by rw [hnext]), nextRunWithin, hnext]; rfl
      | some none =>
        rw [nextRunWithin, drawn, hnext]
        dsimp only
        rw [appliedBy, hnext]
        exact ih t
      | some (some summary) =>
        rw [nextRunWithin, drawn, hnext]
        dsimp only
        rw [appliedBy, hnext]
        rfl

/-- A result that is applied gives a summary of its own document. -/
theorem document_of_applyNext {result : RunResult} {rest : List RunResult}
    (hready : s.results.ready = result :: rest) :
    s.applyNext.2.results.ready = rest ∧
      ∀ summary ∈ s.applyNext.1.join.toList, summary.document = result.document := by
  have hdrop : s.dropResult.results.ready = rest := by simp [dropResult, hready]
  rcases applyNext_of_ready hready with ⟨-, hnext⟩ | ⟨_, -, -, hnext⟩
  · rw [hnext]
    exact ⟨hdrop, fun _ hmem => by cases hmem⟩
  · rw [hnext]
    refine ⟨hdrop, fun summary hmem => ?_⟩
    cases List.mem_singleton.mp hmem
    rfl

/-- **Results are taken one by one**; those of other documents leave the document alone. -/
theorem Follows.applyAll (h : Follows key r started returned s) (n : Nat) :
    Follows key ((s.takenFor key n).foldl (DocumentRun.respond key) r) started
      (returned ++ (s.appliedBy n).filter (·.document = key))
      (s.playAll (List.replicate n .applyNext)) := by
  -- results are taken one by one, and each of them concerns its own document only.
  induction n generalizing r returned s with
  | zero =>
    rw [appliedBy, List.filter_nil, List.append_nil]
    exact h
  | succ n ih =>
    cases hready : s.results.ready with
    | nil =>
      have hnone : s.applyNext.1 = none := by rw [applyNext_of_empty hready]
      rw [playAll_replicate_applyNext_of_none hnone, appliedBy_of_none hnone, takenFor, hready,
        List.filter_nil, List.append_nil]
      exact h
    | cons result rest =>
      obtain ⟨hrest, hdocument⟩ := document_of_applyNext hready
      rw [List.replicate_succ, playAll_cons, appliedBy, List.filter_append, ← List.append_assoc,
        takenFor, hready, List.take_succ_cons, ← hrest]
      by_cases hkey : result.document = key
      · have hown : s.applyNext.1.join.toList.filter (·.document = key) =
            s.applyNext.1.join.toList :=
          List.filter_eq_self.mpr fun summary hmem => by simp [hdocument summary hmem, hkey]
        rw [hown, List.filter_cons_of_pos (by simp [hkey])]
        obtain ⟨ν, h⟩ := h
        exact ih ⟨ν, h.applyNext hready hkey⟩
      · have hnone : s.applyNext.1.join.toList.filter (·.document = key) = [] :=
          List.filter_eq_nil_iff.mpr fun summary hmem => by simp [hdocument summary hmem, hkey]
        rw [hnone, List.append_nil, List.filter_cons_of_neg (by simp [hkey])]
        exact ih (h.keep .applyNext (document_applyNext_of_ne hready hkey))

/-! ## §5 — courses -/

/-- The end of a run concerns the document of the run. -/
theorem follows_complete (h : Follows key r started returned s) (id : SessionId)
    (report : Report) :
    Follows key ((s.concerns key (.complete id report)).foldl (DocumentRun.respond key) r) started
      returned (s.perform (.complete id report)) := by
  obtain ⟨ν, h⟩ := h
  obtain ⟨L, hdelivery⟩ := h.delivery
  rw [concerns]
  cases hplace : s.placeOf? key id with
  | none =>
    exact Follows.keep ⟨ν, h⟩ (.complete id report)
      (document_complete_of_none hdelivery hplace report)
  | some place =>
    exact h.update (.complete id report) (·.land place report)
      (document_complete hdelivery hplace report) (DocumentState.rename_land ν _ _ _)
      (DocumentState.ids_land_subset _ _ _)

theorem document_of_fire {flight : Flight} (h : flight ∈ (s.fire other).1.toList) :
    flight.document = other := by
  rcases fire_cases s other with hfire | ⟨_, _, -, -, ⟨-, hfire⟩ | ⟨-, hfire⟩⟩
  · rw [hfire] at h
    cases h
  · rw [hfire] at h
    cases h
  · rw [hfire] at h
    cases List.mem_singleton.mp h
    rfl

/-- The end of a delay concerns the document that waits. -/
theorem follows_fire (h : Follows key r started returned s) (other : DocumentKey) :
    Follows key ((s.concerns key (.fire other)).foldl (DocumentRun.respond key) r)
      (started ++ s.launches key (.fire other)) returned (s.perform (.fire other)) := by
  obtain ⟨ν, h⟩ := h
  rw [concerns, launches]
  -- starts are listed for each document, so those of another one do not show.
  by_cases hkey : other = key
  · subst hkey
    have hown : (s.fire other).1.toList.filter (·.document = other) = (s.fire other).1.toList :=
      List.filter_eq_self.mpr fun flight hmem => by simp [document_of_fire hmem]
    have hlaunch : (s.fire other).1.toList.map Flight.launch =
        ((s.fire other).1.map Flight.launch).toList := by
      cases (s.fire other).1 <;> rfl
    rw [if_pos rfl, hown, hlaunch]
    exact ⟨ν, h.fire⟩
  · have hnone : (s.fire other).1.toList.filter (·.document = key) = [] :=
      List.filter_eq_nil_iff.mpr fun flight hmem => by simp [document_of_fire hmem, hkey]
    obtain ⟨L, hdelivery⟩ := h.delivery
    rw [if_neg hkey, hnone, List.map_nil, List.append_nil]
    exact Follows.keep ⟨ν, h⟩ (.fire other) (document_fire_of_ne hdelivery.distinct hkey)

/-- A save of its own is marked for its document alone. -/
theorem follows_ownSave (h : Follows key r started returned s) (other : DocumentKey) :
    Follows key ((s.concerns key (.beginOwnSave other)).foldl (DocumentRun.respond key) r) started
      returned (s.perform (.beginOwnSave other)) ∧
    Follows key ((s.concerns key (.endOwnSave other)).foldl (DocumentRun.respond key) r) started
      returned (s.perform (.endOwnSave other)) := by
  obtain ⟨hopen, hedit, -⟩ := h.marks_eq
  have hadd := KeySet.contains_add s.ownSaves other key
  have hremove := KeySet.contains_remove s.ownSaves other key
  rw [concerns, concerns]
  -- both sets of marks, before and after, are compared at the document.
  by_cases hkey : other = key
  · subst hkey
    rw [decide_eq_true rfl, Bool.true_or] at hadd
    rw [decide_eq_false (by simp), Bool.and_false] at hremove
    rw [if_pos rfl, if_pos rfl]
    exact ⟨h.mark hopen hedit hadd, h.mark hopen hedit hremove⟩
  · rw [decide_eq_false (Ne.symm hkey), Bool.false_or] at hadd
    rw [decide_eq_true (Ne.symm hkey), Bool.and_true] at hremove
    rw [if_neg hkey, if_neg hkey]
    exact ⟨h.mark_others rfl rfl hadd, h.mark_others rfl rfl hremove⟩

/-- A shutdown reaches every document alike. -/
theorem follows_shutdown (h : Follows key r started returned s) :
    Follows key (r.respond key .shutdown) started returned (s.perform .shutdown) := by
  obtain ⟨ν, h⟩ := h
  have hdisposed := h.update .disposeAll ({ · with session? := none }) rfl rfl
    (List.subset_append_right _ _)
  exact hdisposed.mark rfl rfl rfl

/-- An action that starts and returns nothing. -/
theorem Follows.quiet (h : Follows key r started returned s) :
    Follows key r (started ++ []) (returned ++ []) s := by
  rwa [List.append_nil, List.append_nil]

/-- **One action, seen from a document**: the document answers to what of the action concerns it. -/
theorem follows_perform (h : Follows key r started returned s) (a : Action) :
    Follows key ((s.concerns key a).foldl (DocumentRun.respond key) r)
      (started ++ s.launches key a) (returned ++ s.summaries key a) (s.perform a) := by
  -- every action concerns all documents alike, or one document, or none.
  cases a with
  | handle event =>
    refine Follows.quiet ?_
    rw [concerns]
    by_cases hkey : event.key = key
    · rw [if_pos hkey]
      exact follows_handle h event hkey
    · rw [if_neg hkey]
      exact follows_handle_of_ne h event hkey
  | beginOwnSave other => exact (follows_ownSave h other).1.quiet
  | endOwnSave other => exact (follows_ownSave h other).2.quiet
  | validate other delay =>
    refine Follows.quiet ?_
    rw [concerns]
    by_cases hkey : other = key
    · subst hkey
      rw [if_pos rfl]
      exact h.requestIf true delay
    · rw [if_neg hkey]
      exact h.keep (.request other delay) (document_validate_of_ne hkey delay)
  | applyConfig compiler settings => exact (follows_applyConfig h compiler settings).quiet
  | shutdown => exact (follows_shutdown h).quiet
  | complete id report => exact (follows_complete h id report).quiet
  | drainNotices => exact (h.keep .drainNotices rfl).quiet
  | advance ms => exact (h.keep (.advance ms) rfl).quiet
  | refill =>
    refine (h.keep .refill ?_).quiet
    refine DocumentState.ext rfl rfl rfl rfl rfl rfl rfl rfl rfl ?_
    show (s.results.refill.toList.filter _).map _ = _
    rw [ResultQueue.toList_refill]
    rfl
  | fire other =>
    show Follows key _ _ (returned ++ []) _
    rw [List.append_nil]
    exact follows_fire h other
  | poll budget =>
    show Follows key _ (started ++ []) _ _
    rw [List.append_nil, summaries, poll_fst, perform, poll_snd]
    exact h.applyAll budget
  | nextRun =>
    show Follows key _ (started ++ []) _ _
    rw [List.append_nil, summaries, nextRun, nextRunWithin_fst, perform, nextRun,
      nextRunWithin_snd]
    exact h.applyAll (s.drawn s.results.ready.length)

/-- **A document on its own follows the service**, along any course of actions. -/
theorem follows_performAll (h : Follows key r started returned s) (actions : List Action) :
    Follows key ((s.along (concerns key) actions).foldl (DocumentRun.respond key) r)
      (started ++ s.along (launches key) actions)
      (returned ++ s.along (summaries key) actions) (s.performAll actions) := by
  induction actions generalizing r started returned s with
  | nil => exact h.quiet
  | cons a actions ih =>
    rw [along, along, along, ← List.append_assoc, ← List.append_assoc, List.foldl_append]
    exact ih (follows_perform h a)

/-- A new service has nothing of a document but the configuration. -/
theorem follows_create (compiler : Options) (settings : Settings) (key : DocumentKey) :
    Follows key { state := (create compiler settings).document key } [] []
      (create compiler settings) :=
  ⟨Equiv.refl _,
    { delivery := ⟨[], delivery_create compiler settings⟩
      state := rfl
      started := rfl
      returned := rfl
      numbered := fun _ hid => by cases hid
      bounded := fun _ hn => absurd hn (Nat.not_lt_zero _) }⟩

/-- **Documents do not interfere.** Two courses of a service, however they differ in what they do to
other documents, that have the same concerns of a document end with the same state of it, and the
same processes were started and the same summaries returned for it. Only the identities of its
sessions may differ, by one renaming throughout. -/
theorem documents_independent (compiler : Options) (settings : Settings) (key : DocumentKey)
    (actions actions' : List Action)
    (h : (create compiler settings).along (concerns key) actions =
      (create compiler settings).along (concerns key) actions') :
    ∃ ρ : Equiv.Perm SessionId,
      ((create compiler settings).performAll actions').document key =
        (((create compiler settings).performAll actions).document key).rename ρ ∧
      (create compiler settings).along (launches key) actions' =
        ((create compiler settings).along (launches key) actions).map (Launch.rename ρ) ∧
      (create compiler settings).along (summaries key) actions' =
        (create compiler settings).along (summaries key) actions := by
  obtain ⟨ν, hfirst⟩ := follows_performAll (follows_create compiler settings key) actions
  obtain ⟨ν', hsecond⟩ := follows_performAll (follows_create compiler settings key) actions'
  rw [← h] at hsecond
  -- both follow one and the same run, whose numbers they name differently.
  have hnames : (ν.symm.trans ν' : SessionId → SessionId) ∘ ν = ν' := by
    funext n
    simp
  refine ⟨ν.symm.trans ν', ?_, ?_, ?_⟩
  · rw [hfirst.state, hsecond.state, DocumentState.rename_rename, hnames]
  · have hstarted := hfirst.started
    have hstarted' := hsecond.started
    rw [List.nil_append] at hstarted hstarted'
    rw [hstarted, hstarted', List.map_map]
    refine List.map_congr_left fun launch _ => ?_
    simp [Launch.rename]
  · have hreturned := hfirst.returned
    have hreturned' := hsecond.returned
    rw [List.nil_append] at hreturned hreturned'
    rw [hreturned, hreturned']

/-- A document that is validated alone, and one that is validated beside another document whose
session was made first: only the identity of its session differs. -/
theorem validated_beside_another :
    let key : DocumentKey := ⟨"a.ksp"⟩
    let other : DocumentKey := ⟨"b.ksp"⟩
    let settings : Settings := { filePatterns := [] }
    let report : Report := ⟨.exited 0, [], []⟩
    let alone : List Action := [.validate key 0, .fire key, .complete 1 report, .poll 1]
    let beside : List Action :=
      [.validate other 0, .fire other, .validate key 0, .complete 1 report, .fire key, .advance 5,
       .complete 2 report, .poll 2]
    (create {} settings).along (concerns key) alone =
      [.validate 0, .fired, .ended 0 report, .applied] ∧
    ∃ ρ : Equiv.Perm SessionId, ρ 1 = 2 ∧
      ((create {} settings).performAll beside).document key =
        (((create {} settings).performAll alone).document key).rename ρ ∧
      (create {} settings).along (summaries key) beside =
        (create {} settings).along (summaries key) alone := by
  intro key other settings report alone beside
  have hconcerns : (create {} settings).along (concerns key) alone =
      [.validate 0, .fired, .ended 0 report, .applied] := by decide +kernel
  have hsame : (create {} settings).along (concerns key) alone =
      (create {} settings).along (concerns key) beside := by decide +kernel
  have hone : ((create {} settings).along (launches key) alone).map Launch.session = [1] := by
    decide +kernel
  have htwo : ((create {} settings).along (launches key) beside).map Launch.session = [2] := by
    decide +kernel
  obtain ⟨ρ, hstate, hlaunches, hsummaries⟩ :=
    documents_independent {} settings key alone beside hsame
  refine ⟨hconcerns, ρ, ?_, hstate, hsummaries⟩
  have hsessions : ((create {} settings).along (launches key) beside).map Launch.session =
      (((create {} settings).along (launches key) alone).map Launch.session).map ρ := by
    rw [hlaunches, List.map_map, List.map_map]
    rfl
  rw [hone, htwo] at hsessions
  simpa using hsessions.symm

end Service

end KspWorkbench
