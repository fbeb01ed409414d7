import KspWorkbench.Proofs.Server.Conversation
import KspWorkbench.Server.Rehearsal

/-!
# Rehearsals are conversations

A rehearsal lets a server, a supervisor and a machine work together in one order. Whatever they do
to the service are turns of the server, so that what holds of every sequence of turns holds of a
rehearsal: `exchange_sends` says so of one exchange, and exchanges compose by `Sends.trans`.
-/

namespace KspWorkbench

open Turn (heard)

namespace Service

/-- Some turns lead from one service to another, and these events are sent over them. -/
def Sends (s : Service) (events : List ServerEvent) (t : Service) : Prop :=
  ∃ turns, heard turns = turns ∧ events = s.serve turns ∧ t = s.afterAll turns

theorem Sends.refl (s : Service) : s.Sends [] s :=
  ⟨[], rfl, rfl, rfl⟩

/-- Conversations can be continued. -/
theorem Sends.trans {s t u : Service} {events more : List ServerEvent} (h : s.Sends events t)
    (h' : t.Sends more u) : s.Sends (events ++ more) u := by
  obtain ⟨turns, hheard, rfl, rfl⟩ := h
  obtain ⟨turns', hheard', rfl, rfl⟩ := h'
  have hall : heard (turns ++ turns') = turns ++ turns' := by
    apply List.takeWhile_eq_self_iff.mpr
    intro turn hturn
    rcases List.mem_append.mp hturn with hturn | hturn
    · exact List.takeWhile_eq_self_iff.mp hheard turn hturn
    · exact List.takeWhile_eq_self_iff.mp hheard' turn hturn
  refine ⟨turns ++ turns', hall, ?_, List.foldl_append.symm⟩
  rw [serve_eq_flatMap, serve_eq_flatMap, serve_eq_flatMap, hall, hheard, hheard', trail_append,
    List.flatMap_append]

/-- A turn is a conversation of one turn. -/
theorem sends_of_take? {s t : Service} {events : List ServerEvent} (turn : Turn)
    (h : s.take? turn = some (events, t)) : s.Sends events t := by
  have hends : turn.ends = false := by
    cases hturn : turn.ends with
    | false => rfl
    | true => rw [take?_eq, hturn, if_pos rfl] at h; cases h
  refine ⟨[turn], by rw [heard_cons, hends]; rfl, ?_, ?_⟩
  · simp only [serve, h, List.append_nil]
  · rw [take?_of_heard s hends] at h
    cases h
    rfl

end Service

open Service (Sends sends_of_take?)

variable {σ : Type}

namespace Supervisor

/-- Many steps without events send none. -/
theorem sends_foldl {α : Type} {f : Supervisor σ → α → Supervisor σ}
    (h : ∀ (v : Supervisor σ) x, v.service.Sends [] (f v x).service) (v : Supervisor σ)
    (xs : List α) : v.service.Sends [] (xs.foldl f v).service := by
  induction xs generalizing v with
  | nil => exact .refl _
  | cons x xs ih => exact (h v x).trans (ih (f v x))

theorem sends_finish (v : Supervisor σ) (p : Suspended) : v.service.Sends [] (v.finish p).service :=
  sends_of_take? (.complete p.flight.session (collectRun p.flight.document p.process.events)) rfl

/-- A launch sends nothing, whether or not the process starts. -/
theorem sends_launch (m : Machine σ) (v : Supervisor σ) (key : DocumentKey) :
    v.service.Sends [] (v.launch m key).service := by
  have hfire : v.service.Sends [] (v.service.fire key).2 := sends_of_take? (.fire key) rfl
  rw [launch]
  split
  · next hnone => rw [hnone] at hfire; exact hfire
  · next flight service hflight =>
    rw [hflight] at hfire
    -- a run that could not start has ended at once.
    cases hstart : m.start v.machine flight.plan.request with
    | mk started machine =>
      cases started with
      | ok process => exact hfire
      | error e =>
        exact hfire.trans (sends_of_take?
          (.complete flight.session (collectRun flight.document (startEvents (.error e)))) rfl)

theorem sends_finishSince (v : Supervisor σ) (before : Nat) :
    v.service.Sends [] (v.finishSince before).service := by
  rw [finishSince]
  exact sends_foldl sends_finish
    { v with
      suspended := v.suspended.take before ++
        ((v.suspended.drop before).partition fun p => v.held.contains p.flight.document).1 } _

theorem sends_settle (m : Machine σ) (v : Supervisor σ) :
    v.service.Sends [] (v.settle m).service := by
  have hlaunched := sends_foldl (sends_launch m) v v.dueKeys
  have hfinished := sends_finishSince (v.dueKeys.foldl (launch m) v) v.suspended.length
  exact (hlaunched.trans hfinished).trans (sends_of_take? .refill rfl)

/-- Letting time pass sends nothing. -/
theorem sends_skipAhead (m : Machine σ) (v : Supervisor σ) :
    v.service.Sends [] (v.skipAhead m).service := by
  rw [skipAhead]
  split
  · exact sends_settle m v
  · next due key rest hagenda =>
    have htime : v.service.take? (.advance (max v.service.now due - v.service.now)) =
        some ([], { v.service with now := max v.service.now due }) := by
      have hsum : v.service.now + (max v.service.now due - v.service.now) =
          max v.service.now due := by omega
      rw [Service.take?, Service.advance, hsum]
    have hsettle := sends_settle m (v.withService fun s => { s with now := max s.now due })
    exact (sends_of_take? _ htime).trans hsettle

end Supervisor

namespace Rehearsal

/-- The server has gone on, and what it sent is what the editor has not read yet. -/
def GoesOn (r r' : Rehearsal σ) : Prop :=
  ∃ events, r.supervisor.service.Sends events r'.supervisor.service ∧
    r'.unread = r.unread ++ events

theorem GoesOn.refl (r : Rehearsal σ) : r.GoesOn r :=
  ⟨[], .refl _, (List.append_nil _).symm⟩

theorem GoesOn.trans {r r' r'' : Rehearsal σ} (h : r.GoesOn r') (h' : r'.GoesOn r'') :
    r.GoesOn r'' := by
  obtain ⟨events, hsends, hunread⟩ := h
  obtain ⟨more, hsends', hunread'⟩ := h'
  exact ⟨events ++ more, hsends.trans hsends', by rw [hunread', hunread, List.append_assoc]⟩

/-- What a conversation sends is put behind what is unread. -/
theorem goesOn_tell {r : Rehearsal σ} {events : List ServerEvent} {service : Service}
    (h : r.supervisor.service.Sends events service) : r.GoesOn (r.tell events service) :=
  ⟨events, h, rfl⟩

/-- A piece of work applies the next run, or lets time pass when no run is ready. -/
theorem goesOn_work (m : Machine σ) (r : Rehearsal σ) : r.GoesOn (r.work m) := by
  rw [work]
  split
  · exact ⟨[], Supervisor.sends_skipAhead m r.supervisor, (List.append_nil _).symm⟩
  · exact goesOn_tell (sends_of_take? .run rfl)

/-- Waiting for events is work, piece by piece. -/
theorem goesOn_awaitWithin (m : Machine σ) (r : Rehearsal σ) (wanted pieces : Nat) :
    r.GoesOn (r.awaitWithin m wanted pieces) := by
  induction pieces generalizing r with
  | zero => exact .refl r
  | succ pieces ih =>
    rw [awaitWithin]
    split
    · exact .refl r
    · exact (goesOn_work m r).trans (ih (r.work m))

/-- Hearing a line is a turn of the server, and nothing at all once it has ended. -/
theorem goesOn_hear (m : Machine σ) (r : Rehearsal σ) (line : List UInt8) :
    r.GoesOn (r.hear m line) := by
  rw [hear]
  split
  · exact .refl r
  · cases hline : decodeFile line with
    | error e => exact .refl r
    | ok text =>
      simp only
      cases hhandled : r.supervisor.service.handleLine (m.readText r.supervisor.machine) text with
      | skipped => exact .refl r
      | ended => exact .refl r
      | handled events service =>
        refine goesOn_tell (sends_of_take? (.line (m.readText r.supervisor.machine) text) ?_)
        rw [Service.take?, hhandled]

/-- **An exchange is a part of a conversation**: what the editor reads and what is left to read is
what it had not read and what the server sends over some turns. -/
theorem exchange_sends (m : Machine σ) (r : Rehearsal σ) (input : List UInt8) (wanted : Nat) :
    ∃ events,
      r.supervisor.service.Sends events (r.exchange m input wanted).2.supervisor.service ∧
      (r.exchange m input wanted).1 ++ (r.exchange m input wanted).2.unread =
        r.unread ++ events := by
  -- by induction on the lines, each of which is a turn.
  have hheard : r.GoesOn ((inputLines input).foldl (hear m) r) := by
    generalize inputLines input = lines
    induction lines generalizing r with
    | nil => exact .refl r
    | cons line lines ih => exact (goesOn_hear m r line).trans (ih (r.hear m line))
  have hwaited : r.GoesOn (if ((inputLines input).foldl (hear m) r).ended
      then (inputLines input).foldl (hear m) r
      else ((inputLines input).foldl (hear m) r).awaitWithin m wanted
        ((inputLines input).foldl (hear m) r).pending) := by
    split
    · exact hheard
    · exact hheard.trans (goesOn_awaitWithin m _ wanted _)
  obtain ⟨events, hsends, hunread⟩ := hwaited
  exact ⟨events, hsends, (List.take_append_drop wanted _).trans hunread⟩

end Rehearsal

end KspWorkbench
