import KspWorkbench.Diagnostic
import KspWorkbench.Text.Scanning

/-!
# Lines of the compiler's standard output

A line of the form `LEVEL path:number: message` is a diagnostic. Path and message may hold colons
and numbers of their own; the last number between two colons counts. If that number cannot be read,
the line is no diagnostic, whatever stands before it. Line feeds may stand only between the parts,
where white space may.
-/

namespace KspWorkbench

/-- The parts of a line that count for a diagnostic: the word in front, the digits between the two
colons, and what follows without leading white space. -/
structure StdoutParts where
  level : List Char
  number : List Char
  message : List Char
  deriving DecidableEq, Repr

/-- The digits between a colon at the front of `cs` and the next colon, and the rest. -/
def numberField? : List Char → Option (List Char × List Char)
  | ':' :: cs =>
    match cs.takeWhile isDecimalDigit, cs.dropWhile isDecimalDigit with
    | [], _ => none
    | digits, ':' :: rest => some (digits, rest)
    | _, _ => none
  | _ => none

/-- The last number between two colons in `cs`, and the rest behind it. -/
def lastNumberField? : List Char → Option (List Char × List Char)
  | [] => none
  | c :: cs => lastNumberField? cs <|> numberField? (c :: cs)

/-- The parts of a diagnostic line. The path is at least one character. It starts behind the white
space, unless nothing but white space stands before the number: then it is the last blank. -/
def stdoutParts? (line : List Char) : Option StdoutParts := do
  let level := line.takeWhile Char.isUpper
  let rest := line.dropWhile Char.isUpper
  let blanks := rest.takeWhile isBlank
  let body := rest.dropWhile isBlank
  if level = [] ∨ blanks = [] then none else
  let row := body.takeWhile (· != '\n')
  let blankPath :=
    if 2 ≤ blanks.length ∧ blanks.getLast? ≠ some '\n' then numberField? row else none
  let (number, after) ← lastNumberField? (row.drop 1) <|> blankPath
  let message := trimStart (after ++ body.drop row.length)
  if message.contains '\n' then none else some ⟨level, number, message⟩

/-- The diagnostic that a line of standard output stands for. Lines are counted from zero in a
diagnostic, and the number zero means the first line too. -/
def stdoutDiagnostic? (line : String) : Option Diagnostic := do
  let parts ← stdoutParts? line.toList
  let number ← lineNumber? parts.number
  return .ofCompiler (.ofLevel (String.ofList parts.level)) (String.ofList parts.message)
    (number - 1)

end KspWorkbench
