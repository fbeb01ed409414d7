import KspWorkbench.Data.Toml.Scalar

/-!
# Quoted TOML strings

Four ways to quote: with escapes or without, on one line or over several. Over several lines, a line
break right behind the opening quotes does not count, and up to two quotes may stand before the
closing ones.
-/

namespace KspWorkbench.Toml

/-- Whether `c` may stand for itself in a string or a comment. -/
def isPlain (c : Char) : Bool :=
  c == '\t' || (32 ≤ c.toNat && c.toNat != 127)

/-- What follows a line break at the front of `cs`. -/
def afterBreak? : List Char → Option (List Char)
  | '\n' :: rest => some rest
  | '\r' :: '\n' :: rest => some rest
  | _ => none

/-- The character with a code point, surrogates excluded. -/
def charOf? (n : Nat) : Option Char :=
  if n.isValidChar then some (Char.ofNat n) else none

/-- The character whose code point is written in `count` hexadecimal digits, and the rest. -/
def hexEscape? (count : Nat) (cs : List Char) : Option (Char × List Char) :=
  let digits := cs.take count
  if digits.length = count ∧ digits.all (digitValue · < 16) then
    (charOf? (valueOf 16 digits)).map (·, cs.drop count)
  else
    none

/-- The character that an escape behind the backslash stands for, and the rest. -/
def escape? : List Char → Option (Char × List Char)
  | 'b' :: rest => some (Char.ofNat 8, rest)
  | 't' :: rest => some ('\t', rest)
  | 'n' :: rest => some ('\n', rest)
  | 'f' :: rest => some (Char.ofNat 12, rest)
  | 'r' :: rest => some ('\r', rest)
  | 'e' :: rest => some (Char.ofNat 27, rest)
  | '"' :: rest => some ('"', rest)
  | '\\' :: rest => some ('\\', rest)
  | 'x' :: rest => hexEscape? 2 rest
  | 'u' :: rest => hexEscape? 4 rest
  | 'U' :: rest => hexEscape? 8 rest
  | _ => none

/-- What follows an escaped line break, if the rest of the line behind the backslash is blank: all
blanks and line breaks are skipped. -/
def afterEscapedBreak? (cs : List Char) : Option (List Char) :=
  let isSpace (c : Char) : Bool := c == ' ' || c == '\t'
  (afterBreak? (cs.dropWhile isSpace)).map fun rest =>
    rest.dropWhile fun c => isSpace c || c == '\n' || c == '\r'

/-- The rest of a string on one line with escapes. -/
def basicBody? (fuel : Nat) (done cs : List Char) : Option (String × List Char) :=
  match fuel, cs with
  | 0, _ | _, [] => none
  | _ + 1, '"' :: rest => some (String.ofList done.reverse, rest)
  | fuel + 1, '\\' :: rest => (escape? rest).bind fun (c, rest) => basicBody? fuel (c :: done) rest
  | fuel + 1, c :: rest => if isPlain c then basicBody? fuel (c :: done) rest else none

/-- The rest of a string on one line without escapes. -/
def literalBody? (cs : List Char) : Option (String × List Char) :=
  let body := cs.takeWhile (· != '\'')
  match cs.dropWhile (· != '\'') with
  | _ :: rest => if body.all isPlain then some (String.ofList body, rest) else none
  | [] => none

/-- The end of a string over several lines at the front of `cs`, which starts with the quotes: the
quotes that belong to the string, and the rest. -/
def closing? (quote : Char) (cs : List Char) : Option (List Char × List Char) :=
  let count := min 5 (cs.takeWhile (· == quote)).length
  if 3 ≤ count then some (List.replicate (count - 3) quote, cs.drop count) else none

/-- The rest of a string over several lines, with escapes if `escapes` is set. -/
def multilineBody? (quote : Char) (escapes : Bool) (fuel : Nat) (done cs : List Char) :
    Option (String × List Char) :=
  match fuel, cs with
  | 0, _ | _, [] => none
  | fuel + 1, c :: rest =>
    if c = quote then
      match closing? quote cs with
      | some (quotes, rest) => some (String.ofList (done.reverse ++ quotes), rest)
      | none => multilineBody? quote escapes fuel (c :: done) rest
    else if escapes ∧ c = '\\' then
      match afterEscapedBreak? rest with
      | some rest => multilineBody? quote escapes fuel done rest
      | none =>
        (escape? rest).bind fun (e, rest) => multilineBody? quote escapes fuel (e :: done) rest
    else
      match afterBreak? cs with
      | some rest =>
        multilineBody? quote escapes fuel (if c = '\n' then '\n' :: done else '\n' :: '\r' :: done)
          rest
      | none => if isPlain c then multilineBody? quote escapes fuel (c :: done) rest else none

def multiline? (quote : Char) (escapes : Bool) (cs : List Char) : Option (String × List Char) :=
  let cs := (afterBreak? cs).getD cs
  multilineBody? quote escapes (cs.length + 1) [] cs

def oneLineString? : List Char → Option (String × List Char)
  | '"' :: rest => basicBody? (rest.length + 1) [] rest
  | '\'' :: rest => literalBody? rest
  | _ => none

def string? (cs : List Char) : Option (String × List Char) :=
  match cs with
  | '"' :: '"' :: '"' :: rest => multiline? '"' true rest
  | '\'' :: '\'' :: '\'' :: rest => multiline? '\'' false rest
  | _ => oneLineString? cs

end KspWorkbench.Toml
