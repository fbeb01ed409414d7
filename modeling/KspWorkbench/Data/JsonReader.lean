import KspWorkbench.Data.Datum

/-!
# Reading JSON

A reader for one JSON value. Containers may nest less than 128 deep, a surrogate escape must come
as a pair, and a number that no double can hold is refused. Integers from -2^63 to 2^64 - 1 are
read exactly; any other number is kept as written.
-/

namespace KspWorkbench.Json

/-- The number of levels at which nesting is refused. -/
def depthLimit : Nat :=
  128

def skipBlank (cs : List Char) : List Char :=
  cs.dropWhile fun c => c == ' ' || c == '\n' || c == '\t' || c == '\r'

def hexValue? (c : Char) : Option Nat :=
  if c.isDigit then some (c.toNat - 48)
  else if 'a' ≤ c ∧ c ≤ 'f' then some (c.toNat - 87)
  else if 'A' ≤ c ∧ c ≤ 'F' then some (c.toNat - 55)
  else none

def hexValues? (cs : List Char) : Option Nat :=
  cs.foldlM (fun value c => (hexValue? c).map (value * 16 + ·)) 0

def shortEscape? : Char → Option Char
  | '"' => some '"'
  | '\\' => some '\\'
  | '/' => some '/'
  | 'b' => some (Char.ofNat 8)
  | 'f' => some (Char.ofNat 12)
  | 'n' => some '\n'
  | 'r' => some '\r'
  | 't' => some '\t'
  | _ => none

/-- Whether `n` is the first half of a surrogate pair. -/
def isHighSurrogate (n : Nat) : Bool :=
  0xD800 ≤ n && n < 0xDC00

/-- Whether `n` is the second half of a surrogate pair. -/
def isLowSurrogate (n : Nat) : Bool :=
  0xDC00 ≤ n && n < 0xE000

/-- The rest of a string behind its opening quote; `done` holds what was read, the last character
first. -/
def stringBody? (done : List Char) : List Char → Option (String × List Char)
  | [] => none
  | '"' :: rest => some (String.ofList done.reverse, rest)
  | '\\' :: 'u' :: a :: b :: c :: d :: '\\' :: 'u' :: e :: f :: g :: h :: rest =>
    match hexValues? [a, b, c, d], hexValues? [e, f, g, h] with
    | some high, some low =>
      if isHighSurrogate high then
        if isLowSurrogate low then
          stringBody? (Char.ofNat (0x10000 + (high - 0xD800) * 0x400 + (low - 0xDC00)) :: done) rest
        else
          none
      else if isLowSurrogate high then
        none
      else
        stringBody? (Char.ofNat high :: done) ('\\' :: 'u' :: e :: f :: g :: h :: rest)
    | _, _ => none
  | '\\' :: 'u' :: a :: b :: c :: d :: rest =>
    match hexValues? [a, b, c, d] with
    | some n =>
      if isHighSurrogate n || isLowSurrogate n then none
      else stringBody? (Char.ofNat n :: done) rest
    | none => none
  | '\\' :: c :: rest =>
    match shortEscape? c with
    | some e => stringBody? (e :: done) rest
    | none => none
  | c :: rest => if c.toNat < 32 ∨ c = '\\' then none else stringBody? (c :: done) rest
termination_by cs => cs.length

/-- A number as it is written: its sign, the digits of its whole part and of its fraction, and its
exponent with a sign of its own. -/
structure NumberLiteral where
  negative : Bool
  whole : List Char
  fraction : Option (List Char)
  exponent : Option (Bool × List Char)

def digitsValue (digits : List Char) : Nat :=
  digits.foldl (fun value c => value * 10 + (c.toNat - 48)) 0

def digits? (cs : List Char) : Option (List Char × List Char) :=
  match cs.takeWhile Char.isDigit, cs.dropWhile Char.isDigit with
  | [], _ => none
  | ds, rest => some (ds, rest)

def fraction? (cs : List Char) : Option (Option (List Char) × List Char) :=
  match cs with
  | '.' :: rest => (digits? rest).map fun (ds, rest) => (some ds, rest)
  | _ => some (none, cs)

def exponent? (cs : List Char) : Option (Option (Bool × List Char) × List Char) :=
  match cs with
  | c :: rest =>
    if c = 'e' ∨ c = 'E' then
      match rest with
      | '-' :: rest => (digits? rest).map fun (ds, rest) => (some (true, ds), rest)
      | '+' :: rest => (digits? rest).map fun (ds, rest) => (some (false, ds), rest)
      | _ => (digits? rest).map fun (ds, rest) => (some (false, ds), rest)
    else
      some (none, cs)
  | [] => some (none, cs)

/-- A number at the front of `cs`. A whole part of more than one digit does not start with zero. -/
def numberLiteral? (cs : List Char) : Option (NumberLiteral × List Char) := do
  let (negative, cs) := match cs with
    | '-' :: rest => (true, rest)
    | _ => (false, cs)
  let (whole, cs) ← digits? cs
  if whole.head? = some '0' ∧ whole.length ≠ 1 then none else
  let (fraction, cs) ← fraction? cs
  let (exponent, cs) ← exponent? cs
  return (⟨negative, whole, fraction, exponent⟩, cs)

namespace NumberLiteral

/-- The least number that rounds beyond the greatest double: half a unit above it. -/
def doubleLimit : Nat :=
  Nat.pow 2 1024 - Nat.pow 2 970

/-- The value of the digits of an exponent. Of more than twenty that count only the first are taken;
it is then beyond every limit anyway. -/
def exponentValue (ds : List Char) : Nat :=
  digitsValue ((ds.dropWhile (· == '0')).take 20)

/-- Whether a double can hold the number, rounded. Exponents far outside the range are settled by
the place of the first digit that counts. -/
def fitsDouble (n : NumberLiteral) : Bool :=
  let fraction := n.fraction.getD []
  let digits := (n.whole ++ fraction).dropWhile (· == '0')
  let value := digitsValue digits
  let exponent : Int := match n.exponent with
    | none => 0
    | some (true, ds) => -(exponentValue ds : Int)
    | some (false, ds) => (exponentValue ds : Int)
  let scale : Int := exponent - (fraction.length : Int)
  let place : Int := scale + (digits.length : Int)
  if digits.isEmpty ∨ place < 300 then true
  else if 320 < place then false
  else if 0 ≤ scale then value * Nat.pow 10 scale.toNat < doubleLimit
  else value < doubleLimit * Nat.pow 10 (-scale).toNat

def render (n : NumberLiteral) : String :=
  String.ofList <|
    (if n.negative then ['-'] else []) ++ n.whole ++
    (match n.fraction with
      | none => []
      | some ds => '.' :: ds) ++
    (match n.exponent with
      | none => []
      | some (true, ds) => 'e' :: '-' :: ds
      | some (false, ds) => 'e' :: ds)

def toDatum? (n : NumberLiteral) : Option Datum :=
  let value := digitsValue n.whole
  let real := if n.fitsDouble then some (Datum.real n.render) else none
  match n.fraction, n.exponent with
  | none, none =>
    if n.negative then
      if 0 < value ∧ value ≤ 9223372036854775808 then some (.int (-(value : Int))) else real
    else
      if value < 18446744073709551616 then some (.int value) else real
  | _, _ => real

end NumberLiteral

mutual

/-- One value at the front of `cs`; `depth` levels may still be opened. -/
def value? (fuel depth : Nat) (cs : List Char) : Option (Datum × List Char) :=
  match fuel with
  | 0 => none
  | fuel + 1 =>
    match skipBlank cs with
    | 'n' :: 'u' :: 'l' :: 'l' :: rest => some (.null, rest)
    | 't' :: 'r' :: 'u' :: 'e' :: rest => some (.bool true, rest)
    | 'f' :: 'a' :: 'l' :: 's' :: 'e' :: rest => some (.bool false, rest)
    | '"' :: rest => (stringBody? [] rest).map fun (s, rest) => (.text s, rest)
    | '[' :: rest =>
      if depth ≤ 1 then none else
      match skipBlank rest with
      | ']' :: rest => some (.list [], rest)
      | rest => (items? fuel (depth - 1) [] rest).map fun (ds, rest) => (.list ds, rest)
    | '{' :: rest =>
      if depth ≤ 1 then none else
      match skipBlank rest with
      | '}' :: rest => some (.record [], rest)
      | rest => (fields? fuel (depth - 1) [] rest).map fun (fs, rest) => (.record fs, rest)
    | rest => do
      let (n, rest) ← numberLiteral? rest
      let d ← n.toDatum?
      return (d, rest)

/-- The items of a list up to its end; `done` holds those read, the last one first. -/
def items? (fuel depth : Nat) (done : List Datum) (cs : List Char) :
    Option (List Datum × List Char) :=
  match fuel with
  | 0 => none
  | fuel + 1 => do
    let (d, rest) ← value? fuel depth cs
    match skipBlank rest with
    | ',' :: rest => items? fuel depth (d :: done) rest
    | ']' :: rest => some ((d :: done).reverse, rest)
    | _ => none

/-- The fields of a record up to its end; `done` holds those read, the last one first. -/
def fields? (fuel depth : Nat) (done : List (String × Datum)) (cs : List Char) :
    Option (List (String × Datum) × List Char) :=
  match fuel with
  | 0 => none
  | fuel + 1 =>
    match skipBlank cs with
    | '"' :: rest => do
      let (name, rest) ← stringBody? [] rest
      match skipBlank rest with
      | ':' :: rest => do
        let (d, rest) ← value? fuel depth rest
        match skipBlank rest with
        | ',' :: rest => fields? fuel depth ((name, d) :: done) rest
        | '}' :: rest => some (((name, d) :: done).reverse, rest)
        | _ => none
      | _ => none
    | _ => none

end

/-- Reads a text that holds one value and nothing else. Each step of the reader takes at least one
character, so the length of the text bounds the number of steps. -/
def read? (text : String) : Option Datum := do
  let cs := text.toList
  let (d, rest) ← value? (2 * cs.length + 2) depthLimit cs
  if skipBlank rest = [] then some d else none

end KspWorkbench.Json
