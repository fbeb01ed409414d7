import KspWorkbench.Document

/-!
# Symbols of a script

The type of a variable is the first character of its name, its sigil. A symbol is a declaration of
a variable, a callback or a function; how it may be described follows from what it declares.
-/

namespace KspWorkbench

inductive VariableType where
  | integer
  | real
  | string
  | integerArray
  | realArray
  | stringArray
  deriving DecidableEq, Repr

namespace VariableType

def ofSigil? : Char → Option VariableType
  | '$' => some .integer
  | '~' => some .real
  | '@' => some .string
  | '%' => some .integerArray
  | '?' => some .realArray
  | '!' => some .stringArray
  | _ => none

def sigil : VariableType → Char
  | .integer => '$'
  | .real => '~'
  | .string => '@'
  | .integerArray => '%'
  | .realArray => '?'
  | .stringArray => '!'

/-- The name of the type for the reader. -/
def typeName : VariableType → String
  | .integer => "Integer"
  | .real => "Real"
  | .string => "String"
  | .integerArray => "Integer Array"
  | .realArray => "Real Array"
  | .stringArray => "String Array"

/-- The name of the type in structured output. -/
def name : VariableType → String
  | .integer => "integer"
  | .real => "real"
  | .string => "string"
  | .integerArray => "integer_array"
  | .realArray => "real_array"
  | .stringArray => "string_array"

def isArray : VariableType → Bool
  | .integerArray | .realArray | .stringArray => true
  | .integer | .real | .string => false

theorem ofSigil?_sigil (t : VariableType) : ofSigil? t.sigil = some t := by
  cases t <;> rfl

theorem ofSigil?_eq_some_iff {c : Char} {t : VariableType} :
    ofSigil? c = some t ↔ c = t.sigil := by
  constructor
  · intro h
    unfold ofSigil? at h
    split at h <;> cases h <;> rfl
  · rintro rfl
    exact ofSigil?_sigil t

end VariableType

def isSigil (c : Char) : Bool :=
  (VariableType.ofSigil? c).isSome

/-- Whether `c` can stand in an identifier; sigils are not part of one. -/
def isIdentifierChar (c : Char) : Bool :=
  c.isAlphanum || c == '_'

/-- Whether a word is the name of a variable: it starts with a sigil. -/
def isVariableName (word : List Char) : Bool :=
  word.head?.any isSigil

/-- The word before the name in the declaration of a variable; a control of the user interface has a
widget type. -/
inductive Modifier where
  | constant
  | polyphonic
  | widget (type : String)
  deriving DecidableEq, Repr

inductive SymbolKind where
  | variable (type : VariableType) (modifier : Option Modifier)
  | callback
  -- the widget is that of the control, if the control was declared above.
  | controlCallback (control : String) (widget : Option String)
  | function
  deriving DecidableEq, Repr

/-- A declaration found in a script: its name without the sigil, its line counted from zero, and the
column where the name starts, at its sigil if it has one. -/
structure Symbol where
  name : String
  kind : SymbolKind
  line : Nat
  column : Nat
  deriving DecidableEq, Repr

namespace SymbolKind

def variableType? : SymbolKind → Option VariableType
  | .variable type _ => some type
  | _ => none

def name : SymbolKind → String
  | .variable .. => "variable"
  | .callback | .controlCallback .. => "callback"
  | .function => "user_function"

def isConstant (k : SymbolKind) : Bool :=
  match k with
  | .variable _ (some .constant) => true
  | _ => false

def isPolyphonic (k : SymbolKind) : Bool :=
  match k with
  | .variable _ (some .polyphonic) => true
  | _ => false

/-- The widget type of a control, or of the control that a callback handles. -/
def widget? : SymbolKind → Option String
  | .variable _ (some (.widget type)) => some type
  | .controlCallback _ widget => widget
  | _ => none

/-- The control that a callback handles. -/
def control? : SymbolKind → Option String
  | .controlCallback control _ => some control
  | _ => none

def isControl : SymbolKind → Bool
  | .variable _ (some (.widget _)) => true
  | _ => false

def handlesControl (k : SymbolKind) : Bool :=
  k.control?.isSome

/-- Whether the symbol belongs to the user interface. -/
def isInterface (k : SymbolKind) : Bool :=
  k.isControl || k.handlesControl

/-- The category of the symbol for the reader. -/
def description : SymbolKind → String
  | .variable type (some .constant) => "Constant Variable (" ++ type.typeName ++ ")"
  | .variable type (some .polyphonic) => "Polyphonic Variable (" ++ type.typeName ++ ")"
  | .variable _ (some (.widget widget)) => "UI Variable (" ++ widget ++ ")"
  | .variable type none => "Variable (" ++ type.typeName ++ ")"
  | .controlCallback control _ => "UI Callback for " ++ control
  | .callback => "Callback"
  | .function => "Function"

end SymbolKind

namespace Symbol

/-- The name as it stands in the script, with the sigil of a variable. -/
def sourceName (s : Symbol) : String :=
  match s.kind.variableType? with
  | some type => String.singleton type.sigil ++ s.name
  | none => s.name

def position (s : Symbol) : Position :=
  ⟨s.line, s.column⟩

end Symbol

end KspWorkbench
