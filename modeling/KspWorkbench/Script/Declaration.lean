import KspWorkbench.Script.Symbol
import KspWorkbench.Text.Scanning
import KspWorkbench.Text.Lines

/-!
# Declarations of a script

A line declares at most one symbol, in one of three forms: `declare` with a variable, `on` with a
callback, `function` with a function. The keyword stands first on the line, white space aside, and
white space follows it. A callback of a control is linked to the widget type of the last control of
that name declared above it.
-/

namespace KspWorkbench

/-- What a line can declare: a variable with its name behind the sigil, a callback with what stands
in the parentheses after it, or a function. -/
inductive Form where
  | variable (type : VariableType) (modifier : Option Modifier) (name : List Char)
  | callback (name : List Char) (argument : Option (List Char))
  | function (name : List Char)
  deriving DecidableEq, Repr

/-- A form found on a line, and the column where the declared name starts. -/
structure Declared where
  form : Form
  column : Nat
  deriving DecidableEq, Repr

def spanIdentifier (cs : List Char) : List Char × List Char :=
  (cs.takeWhile isIdentifierChar, cs.dropWhile isIdentifierChar)

/-- What follows white space, the keyword, and at least one blank after it. -/
def afterKeyword? (keyword cs : List Char) : Option (List Char) := do
  let rest ← afterWord? keyword (trimStart cs)
  if rest.head?.any isBlank then some (trimStart rest) else none

def Modifier.ofWord? (word : List Char) : Option Modifier :=
  if word = "const".toList then some .constant
  else if word = "polyphonic".toList then some .polyphonic
  else if "ui_".toList.isPrefixOf word ∧ 3 < word.length then some (.widget (String.ofList word))
  else none

/-- The modifier at the front of `cs`, if a word stands there, and the rest behind white space.
A word that is no modifier is refused. -/
def modifier? (cs : List Char) : Option (Option Modifier × List Char) :=
  match spanIdentifier cs with
  | ([], rest) => some (none, trimStart rest)
  | (word, rest) => (Modifier.ofWord? word).map fun m => (some m, trimStart rest)

def identifier? (cs : List Char) : Option (List Char × List Char) :=
  match spanIdentifier cs with
  | ([], _) => none
  | (name, rest) => some (name, rest)

def variableForm? (line : List Char) : Option Declared := do
  let rest ← afterKeyword? "declare".toList line
  let (modifier, rest) ← modifier? rest
  let (sigil, named) ← rest.head?.map fun c => (c, rest.tail)
  let type ← VariableType.ofSigil? sigil
  let (name, _) ← identifier? named
  return ⟨.variable type modifier name, line.length - rest.length⟩

/-- What stands between an opening parenthesis, blanks before it aside, and the next closing one;
there must be something. -/
def argument? (cs : List Char) : Option (List Char) := do
  let rest ← afterWord? ['('] (trimStart cs)
  let argument := rest.takeWhile (· != ')')
  if argument ≠ [] ∧ argument.length < rest.length then some argument else none

def callbackForm? (line : List Char) : Option Declared := do
  let rest ← afterKeyword? "on".toList line
  let (name, after) ← identifier? rest
  return ⟨.callback name (argument? after), line.length - rest.length⟩

def functionForm? (line : List Char) : Option Declared := do
  let rest ← afterKeyword? "function".toList line
  let (name, _) ← identifier? rest
  return ⟨.function name, line.length - rest.length⟩

def declared? (line : List Char) : Option Declared :=
  variableForm? line <|> callbackForm? line <|> functionForm? line

/-- The control that a callback handles: only callbacks whose name starts with `ui_` have one, and
further opening parentheses before it are skipped. -/
def control? (name : List Char) (argument : Option (List Char)) : Option String :=
  if "ui_".toList.isPrefixOf name then
    argument.map fun cs => String.ofList (trim (cs.dropWhile (· == '(')))
  else
    none

/-- The widget types of the controls declared so far, the latest first. -/
abbrev Widgets := List (String × String)

/-- The kind and name of the symbol that a form declares below `widgets`. -/
def Form.toSymbol (widgets : Widgets) (form : Form) (line column : Nat) : Symbol :=
  match form with
  | .variable type modifier name => ⟨String.ofList name, .variable type modifier, line, column⟩
  | .callback name argument =>
    match control? name argument with
    | some control =>
      ⟨String.ofList name, .controlCallback control (widgets.lookup control), line, column⟩
    | none => ⟨String.ofList name, .callback, line, column⟩
  | .function name => ⟨String.ofList name, .function, line, column⟩

/-- The controls known after `symbol`. -/
def Widgets.declare (widgets : Widgets) (symbol : Symbol) : Widgets :=
  match symbol.kind with
  | .variable _ (some (.widget type)) => (symbol.sourceName, type) :: widgets
  | _ => widgets

/-- The symbols declared by `ls`, the first of which has number `line`, below `widgets`. -/
def collectFrom (line : Nat) (widgets : Widgets) : List (List Char) → List Symbol
  | [] => []
  | l :: ls =>
    match declared? l with
    | none => collectFrom (line + 1) widgets ls
    | some d =>
      let symbol := d.form.toSymbol widgets line d.column
      symbol :: collectFrom (line + 1) (widgets.declare symbol) ls

/-- The symbols that a text declares, in the order of its lines. -/
def collect (text : String) : List Symbol :=
  collectFrom 0 [] (lines text.toList)

end KspWorkbench
