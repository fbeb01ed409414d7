import KspWorkbench.Script.Symbol

/-!
# Occurrences of a word

A line is searched from left to right, and a stretch that spells the word is never looked at twice.
Of the stretches found, those count that stand alone: no identifier character or sigil before them
and no identifier character behind them. `segments` cuts a line into these occurrences and all
other characters, and both the columns of the occurrences and the line with the word replaced are
read off it.
-/

namespace KspWorkbench

/-- A part of a line in which a word is looked up: an occurrence of the word, or a character outside
of all. -/
inductive Segment where
  | other (c : Char)
  | found
  deriving DecidableEq, Repr

/-- Whether a stretch stands alone between the character before it and the text behind it. -/
def standsAlone (before : Option Char) (behind : List Char) : Bool :=
  !before.any (fun c => isIdentifierChar c || isSigil c) && !behind.head?.any isIdentifierChar

/-- The progress of a search through a line: looking for the word, or with so many characters to go
in a stretch that spells it. The search is `inside` if the stretch stands alone and `passing` if it
does not. -/
inductive Search where
  | looking
  | passing (left : Nat)
  | inside (left : Nat)
  deriving DecidableEq, Repr

/-- Cuts the rest of a line, behind the character `before`. -/
def segmentsFrom (word : List Char) : Search → Option Char → List Char → List Segment
  | _, _, [] => []
  | .inside (k + 1), _, c :: cs => segmentsFrom word (.inside k) (some c) cs
  | .passing (k + 1), _, c :: cs => .other c :: segmentsFrom word (.passing k) (some c) cs
  | _, before, c :: cs =>
    if word.isPrefixOf (c :: cs) then
      if standsAlone before ((c :: cs).drop word.length) then
        .found :: segmentsFrom word (.inside (word.length - 1)) (some c) cs
      else
        .other c :: segmentsFrom word (.passing (word.length - 1)) (some c) cs
    else
      .other c :: segmentsFrom word .looking (some c) cs

/-- The occurrences of a non-empty word in a line, with all other characters between them. -/
def segments (word line : List Char) : List Segment :=
  segmentsFrom word .looking none line

/-- The columns of the occurrences in segments that start at `column`. -/
def columnsFrom (width column : Nat) : List Segment → List Nat
  | [] => []
  | .other _ :: rest => columnsFrom width (column + 1) rest
  | .found :: rest => column :: columnsFrom width (column + width) rest

def occurrences (word line : List Char) : List Nat :=
  columnsFrom word.length 0 (segments word line)

def Segment.render (name : List Char) : Segment → List Char
  | .other c => [c]
  | .found => name

/-- A line in which each occurrence of `word` is replaced by `name`. -/
def replaceOccurrences (word name line : List Char) : List Char :=
  (segments word line).flatMap (Segment.render name)

end KspWorkbench
