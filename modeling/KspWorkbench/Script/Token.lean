import KspWorkbench.Script.Symbol
import KspWorkbench.Text.Scanning

/-!
# Tokens

The token under a cursor is the stretch of characters around it that holds no boundary. A double
quote next to the stretch is kept, so that a cursor inside a string literal gives a token that
reads as a literal.
-/

namespace KspWorkbench

def isBoundary (c : Char) : Bool :=
  isBlank c || ['(', ')', '{', '}', ':', '[', ']', ',', '+', '-', '/', '*', '<', '>', '^',
    '"'].contains c

/-- The double quote at the front of `cs`, if there is one. -/
def leadingQuote (cs : List Char) : List Char :=
  if cs.head? = some '"' then ['"'] else []

/-- The token of `line` around `column`; a column past the end counts as the end. -/
def tokenAt (line : List Char) (column : Nat) : List Char :=
  let before := (line.take column).reverse
  let after := line.drop column
  let left := (before.takeWhile (! isBoundary ·)).reverse
  let right := after.takeWhile (! isBoundary ·)
  let opening := leadingQuote (before.dropWhile (! isBoundary ·))
  let closing := leadingQuote (after.dropWhile (! isBoundary ·))
  trim (opening ++ left ++ right ++ closing)

def keywords : List String :=
  ["on", "end", "function", "declare", "const", "polyphonic", "if", "else", "select", "case", "to",
   "while", "mod", "and", "or", "not", ".and.", ".or.", ".not.", "call"]

def isKeyword (word : List Char) : Bool :=
  keywords.any (·.toList == word)

/-- Whether `word` is a decimal number without superfluous zeros in front. -/
def isDecimal (word : List Char) : Bool :=
  word == ['0'] || (word.head?.any (fun c => c.isDigit && c != '0') && word.all Char.isDigit)

/-- Whether `word` is a hexadecimal number: `9`, hexadecimal digits, `h`. -/
def isHexadecimal (word : List Char) : Bool :=
  word.head? == some '9' && word.getLast? == some 'h' &&
    word.dropLast.all fun c => c.isDigit || ('a' ≤ c && c ≤ 'f') || ('A' ≤ c && c ≤ 'F')

/-- Whether `word` is a real number: a decimal number, a point, any digits. -/
def isReal (word : List Char) : Bool :=
  isDecimal (word.takeWhile (· != '.')) &&
    match word.dropWhile (· != '.') with
    | [] => false
    | _ :: fraction => fraction.all Char.isDigit

/-- Whether `word` is a string literal: one double quote at each end and none between. -/
def isStringLiteral (word : List Char) : Bool :=
  match word with
  | '"' :: rest => rest.getLast? == some '"' && rest.dropLast.all (· != '"')
  | _ => false

def isLiteral (word : List Char) : Bool :=
  isDecimal word || isHexadecimal word || isReal word || isStringLiteral word

end KspWorkbench
