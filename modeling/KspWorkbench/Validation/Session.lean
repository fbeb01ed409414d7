import KspWorkbench.Compiler.Report
import KspWorkbench.Compiler.Request
import KspWorkbench.Text.PathName
import KspWorkbench.Validation.Gate

/-!
# Sessions

A session holds what is known of one document while it is validated. It dies by being removed from
the registry. A session made later for the same document has a new identity, so that results of the
old one can be told apart. Identities are handed out once.
-/

namespace KspWorkbench

abbrev SessionId := Nat

/-- A run that was requested: all that it needs, as it was at the time of the request, with the
number of the request. -/
structure Plan where
  ticket : Nat
  request : Request
  echo : Echo
  deriving DecidableEq, Repr

/-- What is known of a document while it is validated. Requested runs wait at the gate; a paused
session refuses requests because the compiler could not be started. The diagnostics are those of the
last run that was applied, the program that of the last run that was requested. -/
structure Session where
  id : SessionId
  gate : Gate Plan := {}
  paused : Bool := false
  diagnostics : List Diagnostic := []
  lastExecutable : Option String := none
  deriving DecidableEq, Repr

inductive SessionState where
  | idle
  | running
  | paused
  deriving DecidableEq, Repr

def SessionState.name : SessionState → String
  | .idle => "idle"
  | .running => "running"
  | .paused => "paused"

/-- What a session is doing, given whether a run of it is in flight. -/
def Session.state (s : Session) (running : Bool) : SessionState :=
  if running then .running else if s.paused then .paused else .idle

/-- The sessions that are alive, by document and in the order in which they were made, and the
identity handed out last. -/
structure Registry where
  sessions : List (DocumentKey × Session) := []
  lastId : SessionId := 0
  deriving DecidableEq, Repr

namespace Registry

def get? (r : Registry) (key : DocumentKey) : Option Session :=
  r.sessions.lookup key

/-- The session of a document if it is still the one with this identity. -/
def current? (r : Registry) (key : DocumentKey) (id : SessionId) : Option Session :=
  (r.get? key).filter (·.id = id)

/-- The session of a document, made if there is none. -/
def getOrCreate (r : Registry) (key : DocumentKey) : Session × Registry :=
  match r.get? key with
  | some session => (session, r)
  | none =>
    let session : Session := { id := r.lastId + 1 }
    (session, { sessions := r.sessions ++ [(key, session)], lastId := r.lastId + 1 })

/-- Changes the session of a document, if there is one. -/
def modify (r : Registry) (key : DocumentKey) (change : Session → Session) : Registry :=
  { r with
    sessions := r.sessions.map fun (k, session) =>
      if k = key then (k, change session) else (k, session) }

def dispose (r : Registry) (key : DocumentKey) : Registry :=
  { r with sessions := r.sessions.filter fun (k, _) => k ≠ key }

def disposeAll (r : Registry) : Registry :=
  { r with sessions := [] }

/-- Whether a session is paused on account of another program. -/
def isStale (session : Session) (executable : String) : Bool :=
  session.paused && !session.lastExecutable.any (samePath executable)

/-- Resumes the sessions that are paused on account of another program. -/
def resumeChanged (r : Registry) (executable : String) : Registry :=
  { r with
    sessions := r.sessions.map fun (k, session) =>
      (k, if isStale session executable then { session with paused := false } else session) }

/-- The number of sessions that `resumeChanged` resumes. -/
def countStale (r : Registry) (executable : String) : Nat :=
  r.sessions.countP fun (_, session) => isStale session executable

def size (r : Registry) : Nat :=
  r.sessions.length

/-! ## What the operations do to the session of a document -/

theorem lookup_map_of_key (change : DocumentKey → Session → Session) (key : DocumentKey)
    (sessions : List (DocumentKey × Session)) :
    (sessions.map fun (k, session) => (k, change k session)).lookup key =
      (sessions.lookup key).map (change key) := by
  induction sessions with
  | nil => rfl
  | cons entry sessions ih =>
    obtain ⟨k, session⟩ := entry
    simp only [List.map_cons, List.lookup_cons]
    split
    · next h => rw [eq_of_beq h]; rfl
    · exact ih

theorem get?_modify (r : Registry) (key other : DocumentKey) (change : Session → Session) :
    (r.modify key change).get? other =
      if other = key then (r.get? other).map change else r.get? other := by
  have h := lookup_map_of_key (fun k session => if k = key then change session else session) other
    r.sessions
  have hmap : (r.modify key change).sessions =
      r.sessions.map fun (k, session) => (k, if k = key then change session else session) := by
    simp only [modify]
    congr 1
    funext entry
    split <;> rfl
  rw [get?, hmap, h]
  by_cases ho : other = key <;> simp [ho, get?]

theorem get?_dispose (r : Registry) (key other : DocumentKey) :
    (r.dispose key).get? other = if other = key then none else r.get? other := by
  simp only [get?, dispose]
  induction r.sessions with
  | nil => simp
  | cons entry sessions ih =>
    obtain ⟨k, session⟩ := entry
    by_cases hk : k = key <;> by_cases ho : other = key <;> grind

@[simp] theorem get?_disposeAll (r : Registry) (key : DocumentKey) :
    r.disposeAll.get? key = none :=
  rfl

end Registry

end KspWorkbench
