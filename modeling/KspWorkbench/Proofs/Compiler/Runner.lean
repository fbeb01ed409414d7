import KspWorkbench.Machine.Interface
import KspWorkbench.Proofs.Sequences
import Mathlib.Logic.Relation

/-!
# The events of a process

The two streams of a process are read at the same time. Each has a pump that sends what it reads into
one channel, which holds so many events and no more; when both pumps are done, the outcome follows.
At the other end the events are taken out one by one. A process that did not start has no streams and
an outcome only.

* **`Runner.Step`** — one of the four things that can happen next.
* **`Runner.Sent`** — what holds after every step: the events that came through so far are made of
  what the pumps have sent, each in its order.
* **`Runner.delivers_iff`** — the events of a process are its two streams in any order that keeps
  each of them, and then its outcome; every such order is possible, that of `startEvents` too.
* **`Runner.delivers_of_reaches`** — whatever the pumps did so far, the process can come to its end.
-/

namespace KspWorkbench

open Relation (ReflTransGen)

/-- The number of events that the channel holds. -/
def channelCapacity : Nat :=
  256

/-- A process under way. -/
structure Runner where
  -- what the pump of the standard output has still to send.
  stdout : List RunEvent := []
  -- what the pump of the standard error has still to send.
  stderr : List RunEvent := []
  -- the outcome, until it is sent.
  outcome : Option Outcome
  -- what was sent and not taken out.
  channel : List RunEvent := []
  -- what was taken out.
  received : List RunEvent := []

namespace Runner

/-- What there is to send, given what became of the start of a process. -/
def start : Except RunError Process → Runner
  | .ok p => { stdout := p.stdoutEvents, stderr := p.stderrEvents, outcome := some p.outcome }
  | .error e => { outcome := some (.failed e) }

inductive Step : Runner → Runner → Prop where
  | stdout {r : Runner} {event : RunEvent} {rest : List RunEvent}
      (hnext : r.stdout = event :: rest) (hroom : r.channel.length < channelCapacity) :
      Step r { r with stdout := rest, channel := r.channel ++ [event] }
  | stderr {r : Runner} {event : RunEvent} {rest : List RunEvent}
      (hnext : r.stderr = event :: rest) (hroom : r.channel.length < channelCapacity) :
      Step r { r with stderr := rest, channel := r.channel ++ [event] }
  | finish {r : Runner} {outcome : Outcome} (hnext : r.outcome = some outcome)
      (hstdout : r.stdout = []) (hstderr : r.stderr = [])
      (hroom : r.channel.length < channelCapacity) :
      Step r { r with outcome := none, channel := r.channel ++ [.finished outcome] }
  | receive {r : Runner} {event : RunEvent} {rest : List RunEvent}
      (hnext : r.channel = event :: rest) :
      Step r { r with channel := rest, received := r.received ++ [event] }

/-- The steps can lead to the end, where nothing is left to send or to take out, and these are the
events that were taken out. -/
def Delivers (r : Runner) (events : List RunEvent) : Prop :=
  ∃ last, ReflTransGen Step r last ∧ last.outcome = none ∧ last.channel = [] ∧
    last.received = events

/-! ## §1 — what comes through -/

/-- The pumps have sent `xs` of `out` and `ys` of `err`, and the events that came through so far are
made of the two; the outcome comes through last. -/
structure Sent (out err : List RunEvent) (outcome : Outcome) (r : Runner)
    (xs ys zs : List RunEvent) : Prop where
  stdout : out = xs ++ r.stdout
  stderr : err = ys ++ r.stderr
  order : Interleaves xs ys zs
  through :
    (r.outcome = some outcome ∧ r.received ++ r.channel = zs) ∨
    (r.outcome = none ∧ r.stdout = [] ∧ r.stderr = [] ∧
      r.received ++ r.channel = zs ++ [.finished outcome])

/-- Each step of a runner sends one event on, or takes one out of the channel, and keeps the order
of each stream. -/
theorem Sent.step {out err xs ys zs : List RunEvent} {outcome : Outcome} {r r' : Runner}
    (h : Sent out err outcome r xs ys zs) (hstep : Step r r') :
    ∃ xs' ys' zs', Sent out err outcome r' xs' ys' zs' := by
  cases hstep with
  | @stdout event rest hnext hroom =>
    rcases h.through with ⟨houtcome, hthrough⟩ | ⟨-, hdone, -⟩
    · refine ⟨xs ++ [event], ys, zs ++ [event], ?_, h.stderr, h.order.concat_left event, ?_⟩
      · rw [h.stdout, hnext, List.append_assoc]
        rfl
      · exact Or.inl ⟨houtcome, by rw [← hthrough, List.append_assoc]⟩
    · rw [hnext] at hdone
      cases hdone
  | @stderr event rest hnext hroom =>
    rcases h.through with ⟨houtcome, hthrough⟩ | ⟨-, -, hdone, -⟩
    · refine ⟨xs, ys ++ [event], zs ++ [event], h.stdout, ?_, h.order.concat_right event, ?_⟩
      · rw [h.stderr, hnext, List.append_assoc]
        rfl
      · exact Or.inl ⟨houtcome, by rw [← hthrough, List.append_assoc]⟩
    · rw [hnext] at hdone
      cases hdone
  | @finish sent hnext hstdout hstderr hroom =>
    rcases h.through with ⟨houtcome, hthrough⟩ | ⟨houtcome, -⟩
    · rw [hnext] at houtcome
      cases houtcome
      refine ⟨xs, ys, zs, h.stdout, h.stderr, h.order, Or.inr ⟨rfl, hstdout, hstderr, ?_⟩⟩
      rw [← hthrough, List.append_assoc]
    · rw [hnext] at houtcome
      cases houtcome
  | @receive event rest hnext =>
    -- an event moves from the front of the channel behind those taken out.
    have hmoved : (r.received ++ [event]) ++ rest = r.received ++ r.channel := by
      rw [hnext, List.append_assoc]
      rfl
    have hthrough := h.through
    rw [← hmoved] at hthrough
    exact ⟨xs, ys, zs, h.stdout, h.stderr, h.order, hthrough⟩

/-- **Whatever the steps were**, what has come through is an interleaving of parts of the two
streams. -/
theorem exists_sent {out err : List RunEvent} {outcome : Outcome} {r : Runner}
    (h : ReflTransGen Step { stdout := out, stderr := err, outcome := some outcome } r) :
    ∃ xs ys zs, Sent out err outcome r xs ys zs := by
  induction h with
  | refl => exact ⟨[], [], [], rfl, rfl, .nil, Or.inl ⟨rfl, rfl⟩⟩
  | tail _ hstep ih =>
    obtain ⟨xs, ys, zs, hsent⟩ := ih
    exact hsent.step hstep

/-! ## §2 — every order is possible -/

/-- Every interleaving is possible: each event is received before the next one is sent, so that
the channel has always room. -/
theorem reaches_of_interleaves {out err lines : List RunEvent} (h : Interleaves out err lines)
    (outcome : Outcome) (received : List RunEvent) :
    ReflTransGen Step
      { stdout := out, stderr := err, outcome := some outcome, received := received }
      { outcome := none, received := received ++ lines ++ [.finished outcome] } := by
  have hroom : ([] : List RunEvent).length < channelCapacity := by decide
  -- by induction on the interleaving, which says of each event from which stream it comes.
  induction h generalizing received with
  | nil =>
    rw [List.append_nil]
    exact .tail (.single (.finish rfl rfl rfl hroom)) (.receive rfl)
  | left x _ ih =>
    have hrest := ih (received ++ [x])
    rw [List.append_assoc received] at hrest
    exact .head (.stdout rfl hroom) (.head (.receive rfl) hrest)
  | right y _ ih =>
    have hrest := ih (received ++ [y])
    rw [List.append_assoc received] at hrest
    exact .head (.stderr rfl hroom) (.head (.receive rfl) hrest)

/-- **The events of a process** are its two streams in an order that keeps each of them, and then
its outcome. -/
theorem delivers_iff {out err events : List RunEvent} {outcome : Outcome} :
    Delivers { stdout := out, stderr := err, outcome := some outcome } events ↔
      ∃ lines, Interleaves out err lines ∧ events = lines ++ [.finished outcome] := by
  constructor
  · rintro ⟨last, hsteps, hdone, hempty, rfl⟩
    obtain ⟨xs, ys, zs, hstdout, hstderr, horder, hthrough⟩ := exists_sent hsteps
    rcases hthrough with ⟨houtcome, -⟩ | ⟨-, hout, herr, hreceived⟩
    · rw [hdone] at houtcome
      cases houtcome
    · rw [hout, List.append_nil] at hstdout
      rw [herr, List.append_nil] at hstderr
      rw [hempty, List.append_nil] at hreceived
      subst hstdout hstderr
      exact ⟨zs, horder, hreceived⟩
  · rintro ⟨lines, horder, rfl⟩
    exact ⟨_, reaches_of_interleaves horder outcome [], rfl, rfl, rfl⟩

/-- **The events of a process** are the interleavings of its two streams, with the outcome at the
end. -/
theorem delivers_ok {p : Process} {events : List RunEvent} :
    (start (.ok p)).Delivers events ↔
      ∃ lines, Interleaves p.stdoutEvents p.stderrEvents lines ∧
        events = lines ++ [.finished p.outcome] :=
  delivers_iff

/-- A process that did not start has its failure for its one event. -/
theorem delivers_error {e : RunError} {events : List RunEvent} :
    (start (.error e)).Delivers events ↔ events = [.finished (.failed e)] := by
  rw [start, delivers_iff]
  constructor
  · rintro ⟨lines, horder, rfl⟩
    cases horder
    rfl
  · rintro rfl
    exact ⟨[], .nil, rfl⟩

/-- The order of `startEvents` is one of those that are possible. -/
theorem delivers_startEvents (started : Except RunError Process) :
    (start started).Delivers (startEvents started) := by
  cases started with
  | error e => exact delivers_error.mpr rfl
  | ok p =>
    have hclosed : Interleaves [.stdoutClosed] p.stderrEvents
        (p.stderrEvents ++ [.stdoutClosed]) := by
      simpa using (Interleaves.left RunEvent.stdoutClosed .nil).append_right p.stderrEvents
    refine delivers_ok.mpr ⟨_, hclosed.append_left ((streamLines p.stdout).map RunEvent.stdout), ?_⟩
    rw [startEvents, Process.events, List.append_assoc _ p.stderrEvents]

/-! ## §3 — no order gets stuck -/

/-- What was sent can be taken out. -/
theorem reaches_drained (out err channel received : List RunEvent) (outcome : Option Outcome) :
    ReflTransGen Step ⟨out, err, outcome, channel, received⟩
      ⟨out, err, outcome, [], received ++ channel⟩ := by
  induction channel generalizing received with
  | nil => rw [List.append_nil]
  | cons event channel ih =>
    have hrest := ih (received ++ [event])
    rw [List.append_assoc] at hrest
    exact .head (.receive rfl) hrest

/-- **A process under way can come to its end**, whatever happened so far. -/
theorem delivers_of_reaches {started : Except RunError Process} {r : Runner}
    (h : ReflTransGen Step (start started) r) : ∃ events, r.Delivers events := by
  have hsent : ∃ out err outcome xs ys zs, Sent out err outcome r xs ys zs := by
    cases started with
    | ok p => exact ⟨_, _, _, exists_sent h⟩
    | error e => exact ⟨_, _, _, exists_sent h⟩
  obtain ⟨_, _, outcome, _, _, _, -, -, -, hthrough⟩ := hsent
  obtain ⟨out, err, pending, channel, received⟩ := r
  have hdrained := reaches_drained out err channel received pending
  rcases hthrough with ⟨rfl, -⟩ | ⟨rfl, -⟩
  · -- the channel is empty, so one pump after the other can send the rest.
    have horder : Interleaves out err (out ++ err) := by
      simpa using (Interleaves.nil.append_right err).append_left out
    have hrest := reaches_of_interleaves horder outcome (received ++ channel)
    exact ⟨_, _, hdrained.trans hrest, rfl, rfl, rfl⟩
  · exact ⟨_, _, hdrained, rfl, rfl, rfl⟩

end Runner

end KspWorkbench
