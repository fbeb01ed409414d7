import KspWorkbench.Text.Utf8

/-!
# File patterns

Patterns select documents by their keys. A key is matched as bytes, so `?` and a class stand for one
byte, and `*` runs over any bytes, slashes included. Two stars stand for whole directories where
they are a component of their own. Alternatives in braces may nest; an empty alternative does not
count. Matching follows the set of all rests that a pattern can leave of a key, as a list with the
longest rest first.
-/

namespace KspWorkbench

inductive PatternToken where
  | literal (c : Char)
  | anyByte
  | anyBytes
  -- any directories at the front, everything below a directory, and a slash or any directories
  -- between slashes.
  | leadingDirs
  | trailingPath
  | innerDirs
  | oneOf (negated : Bool) (ranges : List (Char × Char))
  | alternatives (branches : List (List PatternToken))
  deriving Repr, Inhabited

abbrev Pattern := List PatternToken

namespace Pattern

/-! ## Reading patterns -/

/-- The pattern read so far inside one pair of braces, or outside of all: the finished alternatives
and the parts of the one under way, in reverse. -/
structure Level where
  finished : List Pattern := []
  current : List PatternToken := []

/-- A pattern under construction: the innermost level, the levels around it from the inside out, and
the character read last. -/
structure Draft where
  inner : Level := {}
  outer : List Level := []
  last : Option Char := none

namespace Draft

def push (d : Draft) (t : PatternToken) : Draft :=
  { d with inner := { d.inner with current := t :: d.inner.current } }

def openBrace (d : Draft) : Draft :=
  { d with inner := {}, outer := d.inner :: d.outer }

def comma (d : Draft) : Draft :=
  if d.outer.isEmpty then d.push (.literal ',')
  else { d with inner := ⟨d.inner.current.reverse :: d.inner.finished, []⟩ }

def closeBrace? (d : Draft) : Option Draft :=
  match d.outer with
  | [] => none
  | level :: outer =>
    let branches := (d.inner.current.reverse :: d.inner.finished).reverse
    some { d with
      inner := { level with current := .alternatives branches :: level.current }, outer := outer }

/-- Adds two stars that stand for whole directories in place of the part before them, which is the
slash in front unless it already stands for directories. -/
def pushDirs (d : Draft) (t : PatternToken) : Draft :=
  match d.inner.current with
  | .leadingDirs :: _ | .trailingPath :: _ => d
  | current => { d with inner := { d.inner with current := t :: current.drop 1 } }

/-- Two stars with `before` in front of them and `rest` behind: the draft with them, and what is
left of the rest. -/
def twoStars (d : Draft) (before : Option Char) (rest : List Char) : Draft × List Char :=
  let plain := ((d.push .anyBytes).push .anyBytes, rest)
  let inGroup := !d.outer.isEmpty
  if d.inner.current.isEmpty then
    match rest with
    | [] => (d.push .leadingDirs, [])
    | '/' :: rest => ({ d.push .leadingDirs with last := some '/' }, rest)
    | _ => plain
  else if before = some '/' ∨ (inGroup ∧ (before = some ',' ∨ before = some '{')) then
    match rest with
    | [] => (d.pushDirs .trailingPath, [])
    | '/' :: rest => ({ d.pushDirs .innerDirs with last := some '/' }, rest)
    | c :: _ => if inGroup ∧ (c = ',' ∨ c = '}') then (d.pushDirs .trailingPath, rest) else plain
  else
    plain

end Draft

/-- The ranges of a class up to its closing bracket, with those read so far, the last one first, and
the rest. A bracket in front stands for itself, and so does a dash in front or at the end. -/
def classRanges? (first inRange : Bool) (ranges : List (Char × Char)) :
    List Char → Option (List (Char × Char) × List Char)
  | [] => none
  | c :: rest =>
    if c = ']' ∧ !first then
      some ((if inRange then ('-', '-') :: ranges else ranges).reverse, rest)
    else if c = '-' ∧ !first ∧ !inRange then
      classRanges? false true ranges rest
    else
      match inRange, ranges with
      | true, (low, _) :: ranges =>
        if c < low then none else classRanges? false false ((low, c) :: ranges) rest
      | _, _ => classRanges? false false ((c, c) :: ranges) rest

/-- A class behind its opening bracket, and the rest. -/
def charClass? (cs : List Char) : Option (PatternToken × List Char) :=
  match cs with
  | '!' :: rest | '^' :: rest =>
    (classRanges? true false [] rest).map fun (ranges, rest) => (.oneOf true ranges, rest)
  | _ => (classRanges? true false [] cs).map fun (ranges, rest) => (.oneOf false ranges, rest)

/-- Reads the rest of a pattern. Each step takes at least one character. -/
def readFrom? (fuel : Nat) (d : Draft) (cs : List Char) : Option Pattern :=
  match fuel, cs with
  | _, [] => if d.outer.isEmpty then some d.inner.current.reverse else none
  | 0, _ => none
  | fuel + 1, c :: rest =>
    let next := { d with last := some c }
    match c, rest with
    | '?', _ => readFrom? fuel (next.push .anyByte) rest
    | '*', '*' :: rest =>
      let (draft, rest) := next.twoStars d.last rest
      readFrom? fuel draft rest
    | '*', _ => readFrom? fuel (next.push .anyBytes) rest
    | '[', _ => (charClass? rest).bind fun (t, rest) =>
        readFrom? fuel { next.push t with last := some ']' } rest
    | '{', _ => readFrom? fuel next.openBrace rest
    | '}', _ => next.closeBrace?.bind fun d => readFrom? fuel d rest
    | '\\', [] => none
    | '\\', e :: rest => readFrom? fuel { next.push (.literal e) with last := some e } rest
    | ',', _ => readFrom? fuel next.comma rest
    | c, _ => readFrom? fuel (next.push (.literal c)) rest

def ofString? (text : String) : Option Pattern :=
  let cs := text.toList
  readFrom? cs.length {} cs

/-! ## Matching -/

def slash : UInt8 :=
  47

/-- All rests of `bytes`, the whole first. -/
def rests : List UInt8 → List (List UInt8)
  | [] => [[]]
  | b :: bs => (b :: bs) :: rests bs

def behindSlashes : List UInt8 → List (List UInt8)
  | [] => []
  | b :: bs => if b = slash then bs :: behindSlashes bs else behindSlashes bs

def afterSlash? : List UInt8 → Option (List UInt8)
  | b :: bs => if b = slash then some bs else none
  | [] => none

def bytesOf (c : Char) : List UInt8 :=
  Utf8.encode (String.singleton c)

/-- The ranges of bytes of a range of characters: the range runs from the last byte of its first
character to the first byte of its last, and their other bytes stand alone. -/
def byteRanges (range : Char × Char) : List (UInt8 × UInt8) :=
  let low := bytesOf range.1
  let high := bytesOf range.2
  if range.1 = range.2 then low.map fun b => (b, b)
  else
    low.dropLast.map (fun b => (b, b)) ++ [(low.getLastD 0, high.headD 0)] ++
      high.tail.map fun b => (b, b)

def inClass (ranges : List (Char × Char)) (b : UInt8) : Bool :=
  (ranges.flatMap byteRanges).any fun (low, high) => low ≤ b && b ≤ high

def afterBytes? (word bytes : List UInt8) : Option (List UInt8) :=
  if word.isPrefixOf bytes then some (bytes.drop word.length) else none

/-- All that is in one of two lists of rests of one key, the longest first. Both lists have their
members in this order. -/
def union (a b : List (List UInt8)) : List (List UInt8) :=
  (a.merge b fun x y => y.length ≤ x.length).eraseReps

/-- The rests of the longest of `found`, which are the rests of all of them. -/
def allRests : List (List UInt8) → List (List UInt8)
  | [] => []
  | bytes :: _ => rests bytes

/-- The rests behind a slash of the longest of `found`, which are those of all of them. -/
def allBehindSlashes : List (List UInt8) → List (List UInt8)
  | [] => []
  | bytes :: _ => behindSlashes bytes

mutual

/-- Whether a part stands for nothing at all. -/
def isVoid : PatternToken → Bool
  | .alternatives branches => areVoid branches
  | _ => false

def isVoidPattern : List PatternToken → Bool
  | [] => true
  | t :: ts => isVoid t && isVoidPattern ts

def areVoid : List (List PatternToken) → Bool
  | [] => true
  | p :: ps => isVoidPattern p && areVoid ps

end

mutual

/-- The rests that a part can leave of any of `found`, the longest first. -/
def step (t : PatternToken) (found : List (List UInt8)) : List (List UInt8) :=
  match t with
  | .literal c => found.filterMap (afterBytes? (bytesOf c))
  | .anyByte => found.filterMap List.tail?
  | .anyBytes => allRests found
  | .leadingDirs => union found (allBehindSlashes found)
  | .trailingPath => allRests (found.filterMap afterSlash?)
  | .innerDirs =>
    let below := found.filterMap afterSlash?
    union below (allBehindSlashes below)
  | .oneOf negated ranges =>
    found.filterMap fun
      | b :: bs => if inClass ranges b != negated then some bs else none
      | [] => none
  | .alternatives branches =>
    if areVoid branches then found else stepAny branches found

def steps (ts : List PatternToken) (found : List (List UInt8)) : List (List UInt8) :=
  match ts with
  | [] => found
  | t :: ts => steps ts (step t found)

/-- The rests that one of several patterns can leave; empty patterns do not count. -/
def stepAny (branches : List (List PatternToken)) (found : List (List UInt8)) :
    List (List UInt8) :=
  match branches with
  | [] => []
  | p :: ps => union (if isVoidPattern p then [] else steps p found) (stepAny ps found)

end

/-- Whether a part is a character that stands for itself. -/
def isLiteral : PatternToken → Bool
  | .literal _ => true
  | _ => false

def isChar (c : Char) : PatternToken → Bool
  | .literal d => d = c
  | _ => false

/-- Whether a pattern that ends with a dot compares the end of the whole key with fixed text, and
not only the name behind the last slash or its extension. -/
def comparesWhole : Pattern → Bool
  | .leadingDirs :: .anyBytes :: rest => rest.all isLiteral && 1 < rest.length
  | .leadingDirs :: rest => rest.all isLiteral && rest.any (isChar '/')
  | .anyBytes :: rest => rest.all isLiteral && 1 < rest.length
  | p => p.all isLiteral

/-- Whether a pattern asks for an empty extension. -/
def wantsEmptyExtension (p : Pattern) : Bool :=
  p.getLast?.any (isChar '.') && !comparesWhole p

/-- Whether a key ends with a component that leads upwards, which has no name and no extension. -/
def endsUpward (key : String) : Bool :=
  key = ".." || key.endsWith "/.."

/-- Whether the pattern matches the whole of a key. Two stars alone match everything. -/
def covers (p : Pattern) (key : String) : Bool :=
  match p with
  | [.leadingDirs] => true
  | _ =>
    !(wantsEmptyExtension p && endsUpward key) && (steps p [Utf8.encode key]).any List.isEmpty

end Pattern

/-- The patterns that can be read, and those that cannot. -/
structure PatternSet where
  valid : List Pattern := []
  invalid : List String := []

namespace PatternSet

def ofStrings (texts : List String) : PatternSet where
  valid := texts.filterMap Pattern.ofString?
  invalid := texts.filter fun text => (Pattern.ofString? text).isNone

def covers (s : PatternSet) (key : String) : Bool :=
  s.valid.any (·.covers key)

end PatternSet

end KspWorkbench
