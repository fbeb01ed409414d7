import KspWorkbench.Proofs.Validation.Moves
import Mathlib.Data.List.Induction
import Mathlib.Data.List.Nodup

/-!
# Session instances

A document can have many sessions, one after the other: each is made when none is alive and dies
when it is disposed of. Runs in flight remember the identity of theirs long after that. This module
follows a registry through any operations on it and keeps the record of the sessions it makes.

* **`ids_issued`** — the identities are handed out in order and without a gap.
* **`id_get?_apply`**, **`isCurrent_concat`** — one more operation does the same to the session of a
  document as to what the course of operations says of it.
* **`session_identity`** — no two instances share an identity, and an identity counts exactly as
  long as its session is the latest of its document and not disposed of.
-/

namespace KspWorkbench

namespace Registry

/-! ## §1 — operations and the sessions that they make -/

/-- What is done to a registry. -/
inductive Operation where
  | getOrCreate (key : DocumentKey)
  | dispose (key : DocumentKey)
  | disposeAll
  | resumeChanged (executable : String)
  -- a session is changed in place by those it was handed to. Its identity is out of their reach.
  | change (key : DocumentKey) (f : Session → Session)

def Operation.disposes (key : DocumentKey) : Operation → Bool
  | .dispose other => other = key
  | .disposeAll => true
  | _ => false

def apply (r : Registry) : Operation → Registry
  | .getOrCreate key => (r.getOrCreate key).2
  | .dispose key => r.dispose key
  | .disposeAll => r.disposeAll
  | .resumeChanged executable => r.resumeChanged executable
  | .change key f => r.modify key fun session => { f session with id := session.id }

def applyAll (r : Registry) (ops : List Operation) : Registry :=
  ops.foldl apply r

/-- The session that an operation makes, if it makes one: its document and its identity. -/
def made (r : Registry) : Operation → Option (DocumentKey × SessionId)
  | .getOrCreate key =>
    if (r.get? key).isNone then some (key, (r.getOrCreate key).1.id) else none
  | _ => none

/-- The sessions that operations make, the first one first. -/
def issued (r : Registry) : List Operation → List (DocumentKey × SessionId)
  | [] => []
  | op :: ops => (r.made op).toList ++ (r.apply op).issued ops

theorem applyAll_concat (r : Registry) (ops : List Operation) (op : Operation) :
    r.applyAll (ops ++ [op]) = (r.applyAll ops).apply op :=
  List.foldl_concat ..

theorem issued_concat (r : Registry) (ops : List Operation) (op : Operation) :
    r.issued (ops ++ [op]) = r.issued ops ++ ((r.applyAll ops).made op).toList := by
  induction ops generalizing r with
  | nil => exact List.append_nil _
  | cons first ops ih =>
    rw [List.cons_append, issued, issued, ih, List.append_assoc]
    rfl

/-! ## §2 — the counter -/

/-- A session that is made takes the next identity. -/
theorem id_of_made {r : Registry} {op : Operation} {entry : DocumentKey × SessionId}
    (h : r.made op = some entry) : entry.2 = r.lastId + 1 := by
  cases op with
  | getOrCreate key =>
    cases hget : r.get? key with
    | none =>
      rw [made, hget, getOrCreate_of_none hget] at h
      cases h
      rfl
    | some session =>
      rw [made, hget] at h
      cases h
  | _ => cases h

/-- The counter goes up by one for each session that is made. -/
theorem lastId_apply (r : Registry) (op : Operation) :
    (r.apply op).lastId = r.lastId + (r.made op).toList.length := by
  cases op with
  | getOrCreate key =>
    rw [apply, lastId_getOrCreate, made]
    cases r.get? key <;> rfl
  | _ => rfl

/-- **Identities are handed out in order**: those of the sessions made are the ones that follow the
last, and the counter stands at the last of them. -/
theorem ids_issued (r : Registry) (ops : List Operation) :
    (r.issued ops).map Prod.snd = List.range' (r.lastId + 1) (r.issued ops).length ∧
      (r.applyAll ops).lastId = r.lastId + (r.issued ops).length := by
  induction ops generalizing r with
  | nil => exact ⟨rfl, rfl⟩
  | cons op ops ih =>
    obtain ⟨hids, hlast⟩ := ih (r.apply op)
    have hcounter := lastId_apply r op
    rw [issued, List.map_append, hids, List.length_append]
    constructor
    -- an operation that makes no session leaves the counter where it is.
    · cases hmade : r.made op with
      | none =>
        rw [hmade] at hcounter
        rw [hcounter]
        simp
      | some entry =>
        rw [hmade] at hcounter
        have hid := id_of_made hmade
        simp only [Option.toList_some, List.map_cons, List.map_nil, hid, List.singleton_append,
          List.length_singleton, hcounter, Nat.add_comm 1, List.range'_succ]
    · show ((r.apply op).applyAll ops).lastId = _
      rw [hlast, hcounter, Nat.add_assoc]

/-! ## §3 — the session of a document, told from the operations -/

/-- **One operation**: a session is there afterwards if it was just made, or if it was there before,
was not disposed of and no other one was made. -/
theorem id_get?_apply (r : Registry) (op : Operation) (key : DocumentKey) (id : SessionId) :
    ((r.apply op).get? key).map Session.id = some id ↔
      r.made op = some (key, id) ∨
      ((r.get? key).map Session.id = some id ∧ op.disposes key = false ∧
        ∀ other, r.made op ≠ some (key, other)) := by
  -- only asking for a session can make one, and only disposing can end it.
  cases op with
  | getOrCreate asked =>
    rw [apply, get?_getOrCreate, made]
    by_cases hkey : key = asked
    · subst hkey
      cases hget : r.get? key with
      | none => simp
      | some session => simp [getOrCreate_of_some hget, Operation.disposes]
    · have hne : asked ≠ key := Ne.symm hkey
      cases r.get? asked <;> simp [hkey, hne, Operation.disposes]
  | dispose disposed =>
    rw [apply, get?_dispose]
    by_cases hkey : key = disposed
    · simp [hkey, made, Operation.disposes]
    · simp [hkey, Ne.symm hkey, made, Operation.disposes]
  | disposeAll => simp [apply, made, Operation.disposes]
  | resumeChanged executable =>
    cases hget : r.get? key with
    | none => simp [apply, hget, made]
    | some session =>
      simp only [apply, get?_resumeChanged, hget, Option.map_some, made, Operation.disposes]
      split <;> simp
  | change changed f =>
    rw [apply, get?_modify]
    split
    · cases r.get? key <;> simp [made, Operation.disposes]
    · simp [made, Operation.disposes]

/-- The latest session that was made for the document has this identity, and it has not been
disposed of since. -/
def IsCurrent (r : Registry) (ops : List Operation) (key : DocumentKey) (id : SessionId) : Prop :=
  ∃ early op late, ops = early ++ op :: late ∧ (r.applyAll early).made op = some (key, id) ∧
    (∀ other, (key, other) ∉ (r.applyAll (early ++ [op])).issued late) ∧
    ∀ later ∈ late, later.disposes key = false

theorem not_isCurrent_nil (r : Registry) (key : DocumentKey) (id : SessionId) :
    ¬ r.IsCurrent [] key id := by
  rintro ⟨early, op, late, hsplit, -⟩
  simp at hsplit

/-- A session is current after an operation if it was just made, or was current before and neither
disposed of nor replaced. -/
theorem isCurrent_concat {r : Registry} {ops : List Operation} {op : Operation}
    {key : DocumentKey} {id : SessionId} :
    r.IsCurrent (ops ++ [op]) key id ↔
      (r.applyAll ops).made op = some (key, id) ∨
      (r.IsCurrent ops key id ∧ op.disposes key = false ∧
        ∀ other, (r.applyAll ops).made op ≠ some (key, other)) := by
  -- the state in which the last operation is done, from either end.
  have hstate (early late : List Operation) (first : Operation) :
      (r.applyAll (early ++ [first])).applyAll late = r.applyAll (early ++ first :: late) := by
    simp [applyAll]
  constructor
  · rintro ⟨early, first, late, hsplit, hmade, hlatest, hkept⟩
    rcases List.eq_nil_or_concat' late with rfl | ⟨late, last, rfl⟩
    · obtain ⟨rfl, hlast⟩ := List.append_inj' hsplit rfl
      cases hlast
      exact Or.inl hmade
    · rw [← List.cons_append, ← List.append_assoc] at hsplit
      obtain ⟨rfl, hlast⟩ := List.append_inj' hsplit rfl
      cases hlast
      simp only [issued_concat, hstate, List.mem_append, Option.mem_toList, not_or] at hlatest
      exact Or.inr ⟨⟨early, first, late, rfl, hmade, fun other => (hlatest other).1,
        fun later hlater => hkept later (by simp [hlater])⟩, hkept op (by simp),
        fun other => (hlatest other).2⟩
  · rintro (hmade | ⟨⟨early, first, late, rfl, hmade, hlatest, hkept⟩, hop, hnone⟩)
    · exact ⟨ops, op, [], rfl, hmade, by simp [issued], by simp⟩
    · refine ⟨early, first, late ++ [op], by simp, hmade, fun other => ?_, fun later hlater => ?_⟩
      · rw [issued_concat, hstate, List.mem_append, Option.mem_toList, not_or]
        exact ⟨hlatest other, hnone other⟩
      · rcases List.mem_append.mp hlater with hlater | hlater
        · exact hkept later hlater
        · rwa [List.mem_singleton.mp hlater]

/-- **The session of a document** is the one that the operations say it is. -/
theorem id_get?_applyAll (ops : List Operation) (key : DocumentKey) (id : SessionId) :
    ((applyAll {} ops).get? key).map Session.id = some id ↔ IsCurrent {} ops key id := by
  induction ops using List.reverseRecOn generalizing id with
  | nil => exact iff_of_false (by simp [applyAll, get?]) (not_isCurrent_nil _ key id)
  | append_singleton ops op ih => rw [applyAll_concat, id_get?_apply, isCurrent_concat, ih]

/-! ## §4 — identities -/

/-- A session is current when it is the one that its document has. -/
theorem isSome_current?_iff {r : Registry} {key : DocumentKey} {id : SessionId} :
    (r.current? key id).isSome = true ↔ (r.get? key).map Session.id = some id := by
  rw [current?]
  cases r.get? key <;> simp [Option.filter]

/-- **The identity of sessions.** Whatever is done to a new registry, as long as fewer than 2⁶⁴
sessions are made: their identities are pairwise distinct numbers of 64 bits, over all documents and
all times. Asking for a document whose session is alive gives that session and changes nothing. An
identity finds a session if and only if it is that of the latest one made for the document, and this
one has not been disposed of since. -/
theorem session_identity (ops : List Operation) (hcount : (issued {} ops).length < UInt64.size) :
    let r := applyAll {} ops
    ((issued {} ops).map fun made => UInt64.ofNat made.2).Nodup ∧
    r.lastId < UInt64.size ∧
    (∀ key session, r.get? key = some session → r.getOrCreate key = (session, r)) ∧
    ∀ key id, (r.current? key id).isSome = true ↔ IsCurrent {} ops key id := by
  intro r
  have hids : (issued {} ops).map Prod.snd = List.range' 1 (issued {} ops).length :=
    (ids_issued {} ops).1
  have hlast : r.lastId = (issued {} ops).length :=
    (ids_issued {} ops).2.trans (Nat.zero_add _)
  refine ⟨?_, hlast ▸ hcount, fun key session hget => getOrCreate_of_some hget,
    fun key id => isSome_current?_iff.trans (id_get?_applyAll ops key id)⟩
  rw [show ((issued {} ops).map fun made => UInt64.ofNat made.2) =
    ((issued {} ops).map Prod.snd).map UInt64.ofNat by simp, hids]
  -- numbers of 64 bits are equal only if they are the same identity, as all are below 2⁶⁴.
  refine List.Nodup.map_on ?_ List.nodup_range'
  intro m hm n hn heq
  rw [List.mem_range'_1] at hm hn
  have hm64 : m < UInt64.size := by omega
  have hn64 : n < UInt64.size := by omega
  rw [← UInt64.toNat_ofNat_of_lt' hm64, heq, UInt64.toNat_ofNat_of_lt' hn64]

/-- A document that was closed and opened again has a new session: the old identity finds nothing,
though somebody tries to give it to the new session, and the new one is found. -/
theorem identity_of_reopened_document :
    let a : DocumentKey := ⟨"a.ksp"⟩
    let b : DocumentKey := ⟨"b.ksp"⟩
    let ops : List Operation :=
      [.getOrCreate a, .getOrCreate b, .dispose a, .getOrCreate a, .getOrCreate a,
        .change a fun session => { session with id := 1, paused := true }, .resumeChanged "ksp"]
    let r := applyAll {} ops
    issued {} ops = [(a, 1), (b, 2), (a, 3)] ∧ (issued {} ops).length < UInt64.size ∧
    ((issued {} ops).map fun made => UInt64.ofNat made.2).Nodup ∧
    (r.current? a 1).isSome = false ∧ ¬ IsCurrent {} ops a 1 ∧
    (r.current? a 3).isSome = true ∧ IsCurrent {} ops a 3 := by
  intro a b ops r
  have hissued : issued {} ops = [(a, 1), (b, 2), (a, 3)] := by decide
  have hcount : (issued {} ops).length < UInt64.size := by
    rw [hissued]
    decide
  obtain ⟨hnodup, -, -, hcurrent⟩ := session_identity ops hcount
  have hold : (r.current? a 1).isSome = false := by decide
  have hnew : (r.current? a 3).isSome = true := by decide
  refine ⟨hissued, hcount, hnodup, hold, ?_, hnew, (hcurrent a 3).mp hnew⟩
  rw [← hcurrent a 1]
  exact Bool.eq_false_iff.mp hold

end Registry

end KspWorkbench
