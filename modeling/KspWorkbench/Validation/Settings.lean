import KspWorkbench.Data.Datum

/-!
# Validation settings

Which documents are validated, and how long live validation waits. A live delay below the minimum
is rejected in favour of the default.
-/

namespace KspWorkbench

def minLiveDelay : Nat :=
  16

/-- The delay of live validation where none is given or the given one is rejected. -/
def defaultLiveDelay : Nat :=
  500

/-- Which documents are validated, and when: the patterns of the documents, whether they are
validated while they are edited, and after which delay in milliseconds. -/
structure Settings where
  enabled : Bool := false
  live : Bool := true
  delay : Nat := defaultLiveDelay
  filePatterns : List String := ["*.ksp"]
  deriving DecidableEq, Repr, Inhabited

namespace Settings

/-- The names of the settings, in the order of the fields. -/
def names : List String :=
  ["enabled", "live", "delay_ms", "file_patterns"]

def maxDelay : Nat :=
  18446744073709551615

def ofDatum? (d : Datum) : Option Settings := do
  let fields ← d.fields? names
  return {
    enabled := ← fields.getD 0 Datum.toBool? false
    live := ← fields.getD 1 Datum.toBool? true
    delay := ← fields.getD 2 (Datum.toNat? maxDelay) defaultLiveDelay
    filePatterns := ← fields.getD 3 Datum.toTexts? ["*.ksp"] }

/-- The delay of live validation, unless it is too short. -/
def liveDelay? (s : Settings) : Option Nat :=
  if minLiveDelay ≤ s.delay then some s.delay else none

end Settings

end KspWorkbench
