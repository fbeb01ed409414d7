import KspWorkbench.Compiler.Notice
import KspWorkbench.Diagnostic
import KspWorkbench.Text.Scanning

/-!
# Blocks of the compiler's standard error

A line `>>> BEGIN kind` opens a block, and `>>> END kind` with the same kind closes it. Between
them stand a command, a location and the lines of a message. A block that is closed becomes a
diagnostic or a notice; one that is opened anew before that is dropped. Outside of blocks two kinds
of single lines are known that report a fatal error.
-/

namespace KspWorkbench

inductive StderrItem where
  | diagnostic (d : Diagnostic)
  | notice (kind : NoticeKind) (message : String)
  deriving DecidableEq, Repr

/-- A block that is open: what it reports, the command that failed, the location with its line
counted from zero if the number could be read, and the lines of the message. -/
structure ErrorBlock where
  kind : List Char
  command : Option (List Char) := none
  file : Option (List Char) := none
  line : Option Nat := none
  message : List (List Char) := []
  deriving DecidableEq, Repr

/-- The kind that a marker line names. White space stands behind the marker, and white space at the
end does not count. If there is nothing but white space, the kind is its last character that is no
line feed, the first one aside. -/
def markerKind? (marker line : List Char) : Option (List Char) := do
  let rest ← afterWord? marker line
  let blanks := rest.takeWhile isBlank
  if blanks = [] then none else
  match trimEnd (rest.dropWhile isBlank) with
  | [] => ((blanks.drop 1).reverse.find? (· != '\n')).map ([·])
  | kind => if kind.contains '\n' then none else some kind

/-- The kind of the block that a line opens. -/
def beginKind? (line : List Char) : Option (List Char) :=
  markerKind? ">>> BEGIN".toList line

/-- The kind of the blocks that a line closes. -/
def endKind? (line : List Char) : Option (List Char) :=
  markerKind? ">>> END".toList line

def commandField? (line : List Char) : Option (List Char) := do
  let command := trim (← afterWord? ">>> Command:".toList line)
  if command.contains '\n' then none else some command

/-- The file and the digits of the line that a line names: the digits stand behind the last colon,
and nothing else but white space does. -/
def locationField? (line : List Char) : Option (List Char × List Char) := do
  let rest ← afterWord? ">>> Location:".toList line
  let digits := trim (rest.reverse.takeWhile (· != ':')).reverse
  match rest.reverse.dropWhile (· != ':') with
  | [] => none
  | _ :: before =>
    let file := trimStart before.reverse
    if digits ≠ [] ∧ digits.all isDecimalDigit ∧ !file.contains '\n' then some (file, digits)
    else none

/-- The line that a number counted from one means, counted from zero. -/
def zeroBased? (digits : List Char) : Option Nat :=
  (lineNumber? digits).map (· - 1)

/-- The digits behind the first `marker` in `cs` that digits follow. -/
def numberAfter? (marker : List Char) : List Char → Option (List Char)
  | [] => none
  | c :: cs =>
    match (afterWord? marker (c :: cs)).map (·.takeWhile isDecimalDigit) with
    | none | some [] => numberAfter? marker cs
    | some digits => some digits

def parseExceptionNumber? : List Char → Option (List Char)
  | [] => none
  | c :: cs =>
    let number := (afterWord? "ParseException:".toList (c :: cs)).bind fun rest =>
      numberAfter? "at line ".toList (rest.takeWhile (· != '\n'))
    match number with
    | some digits => some digits
    | none => parseExceptionNumber? cs

/-- The digits of the line that a fatal report on a single line names. -/
def fatalLineNumber? (line : List Char) : Option (List Char) :=
  numberAfter? "TokenMgrError: Lexical error at line ".toList line <|> parseExceptionNumber? line

/-- The diagnostic of a fatal report on a single line. -/
def fatalLine? (line : List Char) : Option StderrItem := do
  let number ← zeroBased? (← fatalLineNumber? line)
  return .diagnostic (.ofCompiler .error "FATAL: Check your script carefully again." number)

namespace ErrorBlock

/-- The message, or a text made of the kind if the message is blank. -/
def messageText (b : ErrorBlock) : String :=
  match trim (['\n'].intercalate b.message) with
  | [] => "Compiler reported " ++ String.ofList b.kind
  | text => String.ofList text

/-- The message with the command and the location. -/
def noticeText (b : ErrorBlock) : String :=
  b.messageText ++
    (match b.command with
      | some command => "\nCommand: " ++ String.ofList command
      | none => "") ++
    match b.file, b.line with
    | some file, some line => "\nLocation: " ++ String.ofList file ++ ":" ++ toString (line + 1)
    | _, _ => ""

/-- What a block reports when it is closed. An error with a line is a diagnostic. -/
def close (b : ErrorBlock) : StderrItem :=
  if b.kind = "Error".toList then
    match b.line with
    | some line => .diagnostic (.ofCompiler .error b.messageText line)
    | none => .notice (.fatal "Error") b.noticeText
  else if b.kind = "Exception".toList then
    .notice .exception b.noticeText
  else
    .notice (.fatal (String.ofList b.kind)) b.noticeText

/-- The block with one more line that does not close it. -/
def add (b : ErrorBlock) (line : List Char) : ErrorBlock :=
  match commandField? line with
  | some command => { b with command := some command }
  | none =>
    match locationField? line with
    | some (file, digits) => { b with file := some file, line := zeroBased? digits }
    | none => { b with message := b.message ++ [line] }

end ErrorBlock

/-- Reads one line of standard error with the block that is open, if any: the block that is open
afterwards, and what is reported. -/
def feedStderr (block : Option ErrorBlock) (line : List Char) :
    Option ErrorBlock × Option StderrItem :=
  match beginKind? line with
  | some kind => (some { kind := kind }, none)
  | none =>
    match block with
    | none => (none, fatalLine? line)
    | some b =>
      if endKind? line = some b.kind then (none, some b.close)
      else (some (b.add line), none)

end KspWorkbench
