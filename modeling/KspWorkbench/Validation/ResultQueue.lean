import KspWorkbench.Validation.Session

/-!
# The queue of results

Runs that have ended wait here until they are applied. The queue has a limited number of places;
results that find it full stay outside and come in, in order, when places are free. In the view
`toList`, adding a result puts it last and letting results in changes nothing.
-/

namespace KspWorkbench

/-- The result of a run that has ended, with the program that was to be started. -/
structure RunResult where
  document : DocumentKey
  session : SessionId
  executable : String
  report : Report
  deriving DecidableEq, Repr

/-- The results that wait to be applied, in the queue and outside of it, the oldest first. -/
structure ResultQueue where
  ready : List RunResult := []
  outside : List RunResult := []
  deriving DecidableEq, Repr

namespace ResultQueue

def capacity : Nat :=
  64

/-- Lets results come in from outside as far as there are places. -/
def refill (q : ResultQueue) : ResultQueue :=
  let places := capacity - q.ready.length
  { ready := q.ready ++ q.outside.take places, outside := q.outside.drop places }

def push (q : ResultQueue) (r : RunResult) : ResultQueue :=
  if q.outside.isEmpty ∧ q.ready.length < capacity then { q with ready := q.ready ++ [r] }
  else { q with outside := q.outside ++ [r] }

/-- All results that wait, the oldest first. -/
def toList (q : ResultQueue) : List RunResult :=
  q.ready ++ q.outside

@[simp] theorem toList_refill (q : ResultQueue) : q.refill.toList = q.toList := by
  simp [toList, refill]

@[simp] theorem toList_push (q : ResultQueue) (r : RunResult) :
    (q.push r).toList = q.toList ++ [r] := by
  unfold push
  split
  · next h => simp [toList, List.isEmpty_iff.1 h.1]
  · simp [toList]

end ResultQueue

end KspWorkbench
