import KspWorkbench.Machine.FileTree
import KspWorkbench.Server.Event
import KspWorkbench.Server.Request
import KspWorkbench.Text.Scanning

/-!
# Conversations with an editor

The server reads requests line by line and applies runs as they end. Either leads to at most one
event of its own, and after it to one event for each notice that has come up. Questions never change
the service. A conversation ends with a request to shut down or with the last line.
-/

namespace KspWorkbench

/-- How the server gets at the text of a file. -/
abbrev TextSource := String → Except FileError String

inductive RequestError where
  | invalid
  | unreadable (path : String) (error : FileError)
  | rename (error : RenameError)
  deriving DecidableEq, Repr

def RequestError.message : RequestError → String
  | .invalid => "invalid request: not a request that the server knows"
  | .unreadable path e => "failed to read " ++ path ++ ": " ++ e.message
  | .rename e => e.message

inductive LineOutcome where
  | skipped
  | ended
  | handled (events : List ServerEvent) (service : Service)

def answerQuery (document : DocumentKey) (text : String) :
    Query → Except RequestError ServerEvent
  | .symbols => .ok (.symbols document (collect text))
  | .definition cursor => .ok (.locations document (definition text cursor))
  | .references cursor => .ok (.locations document (references text cursor))
  | .rename cursor newName =>
    match rename text cursor newName with
    | .ok edits => .ok (.edits document edits)
    | .error e => .error (.rename e)

namespace Service

/-- The text of a script: the one that is given, else that of the file. -/
def scriptText (source : TextSource) (path : String) : Option String → Except RequestError String
  | some text => .ok text
  | none =>
    match source path with
    | .ok text => .ok text
    | .error e => .error (.unreadable path e)

def statusEvent (s : Service) : ServerEvent :=
  let snapshot := s.snapshot
  .status snapshot.status (snapshot.count .error) (snapshot.count .warning)

/-- The answer to a request, if it asks for one. -/
def reply (source : TextSource) (s : Service) :
    EditorRequest → Except RequestError (Option ServerEvent)
  | .ask path text query => do
    let text ← scriptText source path text
    return some (← answerQuery ⟨path⟩ text query)
  | .status => .ok (some s.statusEvent)
  | _ => .ok none

/-- The service after a request. -/
def react (s : Service) : EditorRequest → Service
  | .document event => s.handle event
  | .beginSave key => s.beginOwnSave key
  | .endSave key => s.endOwnSave key
  | .configure compiler settings =>
    s.applyConfig (compiler.getD s.compiler) (settings.getD s.settings)
  | .ask .. | .status | .shutdown => s

/-- An event followed by one for each notice that has come up. -/
def announce (s : Service) (event : Option ServerEvent) : List ServerEvent × Service :=
  let (notices, s) := s.drainNotices
  (event.toList ++ notices.map .notice, s)

def converse (source : TextSource) (s : Service) (request : EditorRequest) :
    List ServerEvent × Service :=
  let event := match s.reply source request with
    | .ok event => event
    | .error e => some (.error e.message)
  (s.react request).announce event

def handleLine (source : TextSource) (s : Service) (line : String) : LineOutcome :=
  if trim line.toList = [] then .skipped
  else
    match EditorRequest.ofLine? line with
    | some .shutdown => .ended
    | some request =>
      let (events, s) := s.converse source request
      .handled events s
    | none =>
      let (events, s) := s.announce (some (.error RequestError.invalid.message))
      .handled events s

/-- Applies the next run that has ended, if there is one. -/
def publishRun (s : Service) : List ServerEvent × Service :=
  match s.nextRun with
  | (some summary, s) => s.announce (some (.diagnostics summary))
  | (none, s) => ([], s)

end Service

end KspWorkbench
