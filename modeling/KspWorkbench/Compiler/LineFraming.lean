import KspWorkbench.Text.Pieces
import KspWorkbench.Text.Utf8

/-!
# Line framing

The compiler writes lines, and reads of its pipes deliver arbitrary chunks. A line buffer puts the
lines together again. It keeps the first `maxLineBytes` bytes of a line and counts the others. A
read that fails loses the line under way.
-/

namespace KspWorkbench

def maxLineBytes : Nat :=
  65536

/-- What one read of a stream gives: bytes, or a failure with its text. A delivery of bytes is never
empty, for a read that gives no bytes is the end of the stream and not a chunk. -/
inductive Chunk where
  | bytes (content : List UInt8)
  | failure (text : String)
  deriving DecidableEq, Repr

/-- The line under way: the bytes kept of it, and the number of those that were not. -/
structure LineBuffer where
  kept : List UInt8 := []
  dropped : Nat := 0
  deriving DecidableEq, Repr

namespace LineBuffer

def absorb (b : LineBuffer) (bytes : List UInt8) : LineBuffer :=
  let room := maxLineBytes - b.kept.length
  { kept := b.kept ++ bytes.take room, dropped := b.dropped + (bytes.length - room) }

/-- The bytes of the finished line. A carriage return before the line feed is removed, unless bytes
of the line were dropped. -/
def bytes (b : LineBuffer) (terminated : Bool) : List UInt8 :=
  if b.dropped = 0 ∧ terminated ∧ b.kept.getLast? = some 13 then b.kept.dropLast else b.kept

def text (b : LineBuffer) (terminated : Bool) : String :=
  String.ofList (Utf8.decodeLossy (b.bytes terminated))

/-- The lines that `ps` finish, and the line under way behind them. -/
def feedPieces (b : LineBuffer) : List (Piece UInt8) → List String × LineBuffer
  | [] => ([], b)
  | p :: ps =>
    let b := b.absorb p.body
    if p.terminated then
      let (lines, rest) := feedPieces {} ps
      (b.text true :: lines, rest)
    else
      feedPieces b ps

/-- The lines that a delivery finishes, and the line under way behind it. -/
def feed (b : LineBuffer) (content : List UInt8) : List String × LineBuffer :=
  b.feedPieces (pieces 10 content)

end LineBuffer

/-- The results of reading lines until the end, with the line under way in `b`. -/
def frameFrom (b : LineBuffer) : List Chunk → List (Except String String)
  | [] => if b.kept = [] then [] else [.ok (b.text false)]
  | .bytes content :: rest =>
    let (lines, b) := b.feed content
    lines.map .ok ++ frameFrom b rest
  | .failure text :: rest => .error text :: frameFrom {} rest

/-- The results of reading lines until the end. No delivery of `chunks` is empty: the end of the
stream, which is what an empty read means, is the end of the list. -/
def frame (chunks : List Chunk) : List (Except String String) :=
  frameFrom {} chunks

def linesBeforeFailure : List (Except String String) → List String
  | .ok line :: rest => line :: linesBeforeFailure rest
  | _ => []

/-- The lines of a stream that is read until its end, or until a read fails. -/
def streamLines (chunks : List Chunk) : List String :=
  linesBeforeFailure (frame chunks)

end KspWorkbench
