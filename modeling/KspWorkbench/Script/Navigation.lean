import KspWorkbench.Script.Declaration
import KspWorkbench.Script.Occurrence
import KspWorkbench.Script.Token

/-!
# Navigation

Definition, references and renaming for the word under a cursor, over one text.
-/

namespace KspWorkbench

inductive RenameError where
  | emptyName
  | noSymbol
  | keyword (word : String)
  | literal (word : String)
  deriving DecidableEq, Repr

def RenameError.message : RenameError → String
  | .emptyName => "new name is empty"
  | .noSymbol => "no symbol at the requested position"
  | .keyword word => "'" ++ word ++ "' is a keyword and cannot be renamed"
  | .literal word => "'" ++ word ++ "' is a literal and cannot be renamed"

/-- The replacement of one whole line, from its start to its last column. -/
structure LineEdit where
  range : Range
  newText : String
  deriving DecidableEq, Repr

def wordAt? (text : String) (p : Position) : Option (List Char) := do
  let line ← (lines text.toList)[p.line]?
  let word := tokenAt line p.character
  if word = [] then none else some word

def declares (symbols : List Symbol) (word : String) : Bool :=
  symbols.any (·.sourceName = word)

def handlersOf (symbols : List Symbol) (control : String) : List Symbol :=
  symbols.filter fun s => s.kind.control? = some control

/-- Where a declaration leads from the cursor's line: to its name, unless that stands on the line,
and for a control also to the callbacks that handle it. -/
def definitionsAt (symbols : List Symbol) (line : Nat) (s : Symbol) : List Position :=
  (if s.line = line then [] else [s.position]) ++
    if s.kind.isControl then (handlersOf symbols s.sourceName).map Symbol.position else []

def definition (text : String) (p : Position) : List Position :=
  match wordAt? text p with
  | none => []
  | some word =>
    let symbols := collect text
    (symbols.filter (·.sourceName = String.ofList word)).flatMap (definitionsAt symbols p.line)

/-- The positions at which a word occurs in numbered lines. -/
def positionsIn (word : List Char) (numbered : List (List Char × Nat)) : List Position :=
  numbered.flatMap fun (line, number) => (occurrences word line).map (⟨number, ·⟩)

/-- Every occurrence of the word under the cursor, if it is the name of a declared symbol. -/
def references (text : String) (p : Position) : List Position :=
  match wordAt? text p with
  | none => []
  | some word =>
    if declares (collect text) (String.ofList word) then
      positionsIn word (lines text.toList).zipIdx
    else
      []

/-- The edit that renames `word` on one line, if the word occurs there. -/
def lineEdit? (word name line : List Char) (number : Nat) : Option LineEdit :=
  if occurrences word line = [] then
    none
  else
    some ⟨⟨⟨number, 0⟩, ⟨number, line.length⟩⟩, String.ofList (replaceOccurrences word name line)⟩

/-- The word under the cursor if it may be renamed. -/
def renameTarget (text : String) (p : Position) (newName : String) :
    Except RenameError (List Char) :=
  if newName = "" then .error .emptyName
  else
    match wordAt? text p with
    | none => .error .noSymbol
    | some word =>
      if isVariableName word then .ok word
      else if isKeyword word then .error (.keyword (String.ofList word))
      else if isLiteral word then .error (.literal (String.ofList word))
      else .ok word

/-- The edits that rename the word under the cursor everywhere in the text. -/
def rename (text : String) (p : Position) (newName : String) :
    Except RenameError (List LineEdit) := do
  let word ← renameTarget text p newName
  return (lines text.toList).zipIdx.filterMap fun (line, number) =>
    lineEdit? word newName.toList line number

end KspWorkbench
