import KspWorkbench.Compiler.Report
import KspWorkbench.Data.Datum
import KspWorkbench.Script.Navigation
import KspWorkbench.Validation.Service

/-!
# Structured output

How the things that this library reports are written as structured data. The order of the fields is
part of the format.
-/

namespace KspWorkbench

def Position.toDatum (p : Position) : Datum :=
  .record [("line", .nat p.line), ("character", .nat p.character)]

def Range.toDatum (r : Range) : Datum :=
  .record [("start", r.start.toDatum), ("end", r.stop.toDatum)]

def Diagnostic.toDatum (d : Diagnostic) : Datum :=
  .record [("severity", .text d.severity.name), ("message", .text d.message),
    ("line", .nat d.line), ("range", d.range.toDatum), ("source", .text d.source)]

def DocumentKey.toDatum (k : DocumentKey) : Datum :=
  .text k.path

def NoticeKind.toFields (k : NoticeKind) : List (String × Datum) :=
  ("kind", .text k.name) ::
    match k with
    | .compileFailed code => [("code", .int code)]
    | .fatal label => [("label", .text label)]
    | _ => []

/-- The fields of a notice. A notice without a document has no field for it. -/
def Notice.toFields (n : Notice) : List (String × Datum) :=
  n.kind.toFields ++ (n.document.map fun k => ("document", k.toDatum)).toList ++
    [("message", .text n.message)]

def Notice.toDatum (n : Notice) : Datum :=
  .record n.toFields

def Symbol.toDatum (s : Symbol) : Datum :=
  .recordOf [("name", some (.text s.name)), ("kind", some (.text s.kind.name)),
    ("type", s.kind.variableType?.map fun t => .text t.name),
    ("is_const", some (.bool s.kind.isConstant)),
    ("is_polyphonic", some (.bool s.kind.isPolyphonic)),
    ("is_ui", some (.bool s.kind.isInterface)),
    ("ui_type", s.kind.widget?.map .text), ("ui_control", s.kind.control?.map .text),
    ("description", some (.text s.kind.description)), ("line", some (.nat s.line)),
    ("column", some (.nat s.column))]

def RunSummary.toFields (r : RunSummary) : List (String × Datum) :=
  [("document", r.document.toDatum), ("exit_code", (r.exitCode.map .int).getD .null),
    ("diagnostics", .list (r.diagnostics.map Diagnostic.toDatum))]

def RunSummary.toDatum (r : RunSummary) : Datum :=
  .record r.toFields

def LineEdit.toDatum (e : LineEdit) : Datum :=
  .record [("range", e.range.toDatum), ("new_text", .text e.newText)]

end KspWorkbench
