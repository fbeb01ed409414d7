import KspWorkbench.Command.Completion
import KspWorkbench.Server.Conversation
import KspWorkbench.Text.Lines

/-!
# The command that serves an editor

The standard input holds the requests, one a line. A line that is no UTF-8 is a failure, after the
lines before it have been handled.
-/

namespace KspWorkbench

/-- The lines of the input as bytes, without their ends. -/
def inputLines (input : List UInt8) : List (List UInt8) :=
  (pieces 10 input).map fun p =>
    if p.terminated ∧ p.body.getLast? = some 13 then p.body.dropLast else p.body

/-- The events of a conversation in order, and the failure that ended it, if one did. -/
structure ConversationRecord where
  events : List ServerEvent
  failure : Option FileError
  deriving DecidableEq, Repr

/-- A whole conversation in which no run ends. -/
def converseAll (source : TextSource) (s : Service) : List (List UInt8) → ConversationRecord
  | [] => ⟨[], none⟩
  | line :: rest =>
    match decodeFile line with
    | .error e => ⟨[], some e⟩
    | .ok text =>
      match s.handleLine source text with
      | .skipped => converseAll source s rest
      | .ended => ⟨[], none⟩
      | .handled events s =>
        let r := converseAll source s rest
        { r with events := events ++ r.events }

def startServer (config : Config) : Service :=
  Service.create config.options config.settings

def ConversationRecord.complete (r : ConversationRecord) : Completion :=
  let stdout := String.join (r.events.map ServerEvent.toLine)
  match r.failure with
  | none => { stdout := stdout }
  | some e => { Completion.failed "" (.readRequest e) with stdout := stdout }

end KspWorkbench
