import KspWorkbench.Data.JsonReader
import KspWorkbench.Document
import KspWorkbench.Validation.Service

/-!
# Requests of an editor

An editor sends one request a line, as a JSON object whose field `method` says what is asked for.
A list is taken as well; its first item is then the method and the others are the fields by
position, none of which may be left out.
-/

namespace KspWorkbench

inductive Query where
  | symbols
  | definition (cursor : Position)
  | references (cursor : Position)
  | rename (cursor : Position) (newName : String)
  deriving DecidableEq, Repr

inductive EditorRequest where
  | document (event : DocumentEvent)
  -- from the one to the other the editor saves the document on its own behalf.
  | beginSave (key : DocumentKey)
  | endSave (key : DocumentKey)
  -- an absent part stays as it is.
  | configure (compiler : Option Options) (settings : Option Settings)
  -- about the text if it is given, else about the file.
  | ask (path : String) (text : Option String) (query : Query)
  | status
  | shutdown
  deriving DecidableEq, Repr

namespace EditorRequest

def methodField : String :=
  "method"

/-- The method of a request and the value that holds its other fields. -/
def method? : Datum → Option (String × Datum)
  | .record fields =>
    match fields.filter (·.1 == methodField) with
    | [(_, .text method)] => some (method, .record (fields.filter (·.1 != methodField)))
    | _ => none
  | .list (.text method :: rest) => some (method, .list rest)
  | _ => none

/-- The values of the named fields; by position none may be missing. -/
def operands? (names : List String) (d : Datum) : Option Fields :=
  match d with
  | .list items => if items.length = names.length then d.fields? names else none
  | _ => d.fields? names

def documentOf? (make : DocumentKey → EditorRequest) (d : Datum) : Option EditorRequest := do
  let fields ← operands? ["path"] d
  return make ⟨← fields.get? 0 Datum.toText?⟩

def configureOf? (d : Datum) : Option EditorRequest := do
  let fields ← operands? ["compiler", "validate"] d
  return .configure (← fields.getD 0 (Datum.toOptional? Options.ofDatum?) none)
    (← fields.getD 1 (Datum.toOptional? Settings.ofDatum?) none)

def cursorOf? (fields : Fields) (index : Nat) : Option Position := do
  return ⟨← fields.get? index (Datum.toNat? maxLineNumber),
    ← fields.get? (index + 1) (Datum.toNat? maxLineNumber)⟩

/-- Reads the text of a script, which may be absent. -/
def textOf? (fields : Fields) (index : Nat) : Option (Option String) :=
  fields.getD index (Datum.toOptional? Datum.toText?) none

def symbolsOf? (d : Datum) : Option EditorRequest := do
  let fields ← operands? ["path", "text"] d
  return .ask (← fields.get? 0 Datum.toText?) (← textOf? fields 1) .symbols

def lookupOf? (query : Position → Query) (d : Datum) : Option EditorRequest := do
  let fields ← operands? ["path", "line", "character", "text"] d
  return .ask (← fields.get? 0 Datum.toText?) (← textOf? fields 3) (query (← cursorOf? fields 1))

def renameOf? (d : Datum) : Option EditorRequest := do
  let fields ← operands? ["path", "line", "character", "new_name", "text"] d
  let query := Query.rename (← cursorOf? fields 1) (← fields.get? 3 Datum.toText?)
  return .ask (← fields.get? 0 Datum.toText?) (← textOf? fields 4) query

/-- A request without fields. Those that are given all the same are passed over, unless they are
given by position. -/
def plainOf? (request : EditorRequest) : Datum → Option EditorRequest
  | .list (_ :: _) => none
  | _ => some request

def ofDatum? (d : Datum) : Option EditorRequest := do
  let (method, fields) ← method? d
  match method with
  | "open" => documentOf? (.document ∘ .opened) fields
  | "save" => documentOf? (.document ∘ .saved) fields
  | "edit" => documentOf? (.document ∘ .edited) fields
  | "close" => documentOf? (.document ∘ .closed) fields
  | "begin_save" => documentOf? .beginSave fields
  | "end_save" => documentOf? .endSave fields
  | "config" => configureOf? fields
  | "symbols" => symbolsOf? fields
  | "definition" => lookupOf? .definition fields
  | "references" => lookupOf? .references fields
  | "rename" => renameOf? fields
  | "status" => plainOf? .status fields
  | "shutdown" => plainOf? .shutdown fields
  | _ => none

def ofLine? (line : String) : Option EditorRequest := do
  ofDatum? (← Json.read? line)

/-- The file that is needed to answer a request. -/
def file? : EditorRequest → Option String
  | .ask path none _ => some path
  | _ => none

end EditorRequest

end KspWorkbench
