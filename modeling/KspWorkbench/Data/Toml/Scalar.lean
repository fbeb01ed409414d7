import KspWorkbench.Data.Datum

/-!
# Bare TOML values

Truth values, integers, floats and times: the values that are written without quotes or brackets.
Each is one word, except that a blank may part a date from a time. Integers are exact; of floats and
times only the writing is kept, after a check that it is well formed.
-/

namespace KspWorkbench.Toml

def isScalarChar (c : Char) : Bool :=
  c.isAlphanum || c == '_' || c == '+' || c == '-' || c == '.' || c == ':'

def digitValue (c : Char) : Nat :=
  if c.isDigit then c.toNat - 48
  else if 'a' ≤ c ∧ c ≤ 'f' then c.toNat - 87
  else if 'A' ≤ c ∧ c ≤ 'F' then c.toNat - 55
  else 16

/-- The digits of a run in which single underscores may stand between two digits. -/
def groupedDigits? (base : Nat) (cs : List Char) : Option (List Char) :=
  let isDigit (c : Char) : Bool := digitValue c < base
  let rec separated : List Char → Bool
    | '_' :: c :: rest => isDigit c && separated (c :: rest)
    | ['_'] => false
    | c :: rest => isDigit c && separated rest
    | [] => true
  if cs.head?.any isDigit && separated cs then some (cs.filter (· != '_')) else none

def valueOf (base : Nat) (digits : List Char) : Nat :=
  digits.foldl (fun value c => value * base + digitValue c) 0

def splitSign : List Char → Option Bool × List Char
  | '+' :: rest => (some false, rest)
  | '-' :: rest => (some true, rest)
  | cs => (none, cs)

/-- The digits of a decimal number without a superfluous zero in front. -/
def decimalDigits? (cs : List Char) : Option (List Char) := do
  let digits ← groupedDigits? 10 cs
  if digits.head? = some '0' ∧ cs ≠ ['0'] then none else some digits

def integer? (word : List Char) : Option Int :=
  match word with
  | '0' :: 'x' :: rest => (groupedDigits? 16 rest).map fun ds => (valueOf 16 ds : Int)
  | '0' :: 'o' :: rest => (groupedDigits? 8 rest).map fun ds => (valueOf 8 ds : Int)
  | '0' :: 'b' :: rest => (groupedDigits? 2 rest).map fun ds => (valueOf 2 ds : Int)
  | _ =>
    let (negative, rest) := splitSign word
    (decimalDigits? rest).map fun ds =>
      if negative = some true then -(valueOf 10 ds : Int) else valueOf 10 ds

/-- Whether the integer fits into 128 bits, signed or not. -/
def fitsInteger (i : Int) : Bool :=
  -170141183460469231731687303715884105728 ≤ i && i < 340282366920938463463374607431768211456

/-- Whether a word is a float: a decimal number with a fraction, an exponent or both, or one of the
two special values. -/
def isFloat (word : List Char) : Bool :=
  let rest := (splitSign word).2
  let isExponentMark (c : Char) : Bool := c == 'e' || c == 'E'
  let mantissa := rest.takeWhile (! isExponentMark ·)
  let exponent := rest.dropWhile (! isExponentMark ·)
  let whole := mantissa.takeWhile (· != '.')
  let fraction := mantissa.dropWhile (· != '.')
  let wholeOk := (decimalDigits? whole).isSome
  let fractionOk := fraction = [] || (groupedDigits? 10 fraction.tail).isSome
  let exponentOk := exponent = [] || (groupedDigits? 10 (splitSign exponent.tail).2).isSome
  rest = "inf".toList || rest = "nan".toList ||
    (wholeOk && fractionOk && exponentOk && (fraction ≠ [] || exponent ≠ []))

/-- A number of exactly two digits at the front, and the rest. -/
def twoDigits? : List Char → Option (Nat × List Char)
  | a :: b :: rest =>
    if a.isDigit ∧ b.isDigit then some (digitValue a * 10 + digitValue b, rest) else none
  | _ => none

def daysIn (year month : Nat) : Nat :=
  if month = 2 then
    if year % 4 = 0 ∧ (year % 100 ≠ 0 ∨ year % 400 = 0) then 29 else 28
  else if month = 4 ∨ month = 6 ∨ month = 9 ∨ month = 11 then 30
  else 31

/-- What follows a date at the front of `cs`. -/
def afterDate? (cs : List Char) : Option (List Char) := do
  let (century, cs) ← twoDigits? cs
  let (year, cs) ← twoDigits? cs
  let '-' :: cs := cs | none
  let (month, cs) ← twoDigits? cs
  let '-' :: cs := cs | none
  let (day, cs) ← twoDigits? cs
  if 1 ≤ month ∧ month ≤ 12 ∧ 1 ≤ day ∧ day ≤ daysIn (century * 100 + year) month then some cs
  else none

/-- What follows a time of day at the front of `cs`. The seconds may be left out. -/
def afterTimeOfDay? (cs : List Char) : Option (List Char) := do
  let (hour, cs) ← twoDigits? cs
  let ':' :: cs := cs | none
  let (minute, cs) ← twoDigits? cs
  if 23 < hour ∨ 59 < minute then none else
  match cs with
  | ':' :: cs => do
    let (second, cs) ← twoDigits? cs
    if 60 < second then none else
    match cs with
    | '.' :: cs => if cs.head?.any Char.isDigit then some (cs.dropWhile Char.isDigit) else none
    | _ => some cs
  | _ => some cs

/-- What follows an offset from universal time at the front of `cs`; it may be missing. -/
def afterOffset? (cs : List Char) : Option (List Char) :=
  match cs with
  | 'Z' :: rest | 'z' :: rest => some rest
  | '+' :: rest | '-' :: rest => do
    let (hour, rest) ← twoDigits? rest
    let ':' :: rest := rest | none
    let (minute, rest) ← twoDigits? rest
    if 23 < hour ∨ 59 < minute then none else some rest
  | _ => some cs

/-- Whether a word is a date, a time of day, or a date with a time behind `T` or a blank. -/
def isTime (word : List Char) : Bool :=
  match afterDate? word with
  | some [] => true
  | some (c :: rest) =>
    (c == 'T' || c == 't' || c == ' ') &&
      (((afterTimeOfDay? rest).bind afterOffset?) == some [])
  | none => afterTimeOfDay? word == some []

/-- The bare word at the front of `cs`, and the rest. A date goes on over one blank if a digit
follows it. -/
def scalarWord (cs : List Char) : List Char × List Char :=
  let word := cs.takeWhile isScalarChar
  let rest := cs.dropWhile isScalarChar
  match rest with
  | ' ' :: c :: more =>
    if afterDate? word = some [] ∧ c.isDigit then
      (word ++ ' ' :: (c :: more).takeWhile isScalarChar, (c :: more).dropWhile isScalarChar)
    else
      (word, rest)
  | _ => (word, rest)

def scalar? (word : List Char) : Option Datum :=
  if word = "true".toList then some (.bool true)
  else if word = "false".toList then some (.bool false)
  else if isTime word then some (.time (String.ofList word))
  else
    match integer? word with
    | some i => if fitsInteger i then some (.int i) else none
    | none => if isFloat word then some (.real (String.ofList word)) else none

end KspWorkbench.Toml
