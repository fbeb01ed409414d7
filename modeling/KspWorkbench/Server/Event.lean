import KspWorkbench.Data.Encoding
import KspWorkbench.Data.JsonWriter

/-!
# Events for an editor

The server sends one event a line, as a JSON object whose field `event` says what it tells. Answers
to requests are events like those that nobody asked for.
-/

namespace KspWorkbench

inductive ServerEvent where
  | diagnostics (summary : RunSummary)
  | notice (n : Notice)
  | symbols (document : DocumentKey) (found : List Symbol)
  | locations (document : DocumentKey) (positions : List Position)
  | edits (document : DocumentKey) (changes : List LineEdit)
  | status (summary : String) (errors warnings : Nat)
  | error (message : String)
  deriving DecidableEq, Repr

namespace ServerEvent

def name : ServerEvent → String
  | .diagnostics _ => "diagnostics"
  | .notice _ => "notice"
  | .symbols .. => "symbols"
  | .locations .. => "locations"
  | .edits .. => "edits"
  | .status .. => "status"
  | .error _ => "error"

/-- The fields of an event besides its name. -/
def toFields : ServerEvent → List (String × Datum)
  | .diagnostics summary => summary.toFields
  | .notice n => n.toFields
  | .symbols document found =>
    [("document", document.toDatum), ("symbols", .list (found.map Symbol.toDatum))]
  | .locations document positions =>
    [("document", document.toDatum), ("locations", .list (positions.map Position.toDatum))]
  | .edits document changes =>
    [("document", document.toDatum), ("edits", .list (changes.map LineEdit.toDatum))]
  | .status summary errors warnings =>
    [("status", .text summary), ("errors", .nat errors), ("warnings", .nat warnings)]
  | .error message => [("message", .text message)]

def toDatum (e : ServerEvent) : Datum :=
  .record (("event", .text e.name) :: e.toFields)

def toLine (e : ServerEvent) : String :=
  Json.compact e.toDatum ++ "\n"

end ServerEvent

end KspWorkbench
