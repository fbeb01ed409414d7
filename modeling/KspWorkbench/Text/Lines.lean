import KspWorkbench.Text.Pieces

/-!
# Lines of a text

A line ends at a line feed, at a carriage return followed by a line feed, or at the end of the
text. The end of the text closes a line only if the line is not empty, so a text that ends with a
line feed has no empty last line. `source_lines` says that lines and their ends give the text back.
-/

namespace KspWorkbench

/-- How a line ends: with a line feed, with a carriage return and a line feed, or where the text
ends. -/
inductive LineEnd where
  | feed
  | returnFeed
  | textEnd
  deriving DecidableEq, Repr

def LineEnd.source : LineEnd → List Char
  | .feed => ['\n']
  | .returnFeed => ['\r', '\n']
  | .textEnd => []

/-- One line of a text, its end apart. -/
structure Line where
  body : List Char
  ending : LineEnd
  deriving DecidableEq, Repr

/-- The stretch of text that the line was cut from. -/
def Line.source (line : Line) : List Char :=
  line.body ++ line.ending.source

/-- A piece of text as a line: one carriage return before the line feed belongs to the end. -/
def Line.ofPiece (p : Piece Char) : Line :=
  match p.terminated with
  | false => ⟨p.body, .textEnd⟩
  | true =>
    match p.body.getLast? with
    | some '\r' => ⟨p.body.dropLast, .returnFeed⟩
    | _ => ⟨p.body, .feed⟩

/-- The lines of a text with their ends. -/
def splitLines (text : List Char) : List Line :=
  (pieces '\n' text).map Line.ofPiece

/-- The lines of a text without their ends. -/
def lines (text : List Char) : List (List Char) :=
  (splitLines text).map Line.body

theorem Line.source_ofPiece (p : Piece Char) : (Line.ofPiece p).source = p.source '\n' := by
  obtain ⟨body, terminated⟩ := p
  cases terminated with
  | false => simp [Line.ofPiece, Line.source, LineEnd.source, Piece.source]
  | true =>
    simp only [Line.ofPiece, Piece.source]
    split
    · next h =>
      obtain ⟨init, rfl⟩ := List.getLast?_eq_some_iff.1 h
      simp [Line.source, LineEnd.source]
    · simp [Line.source, LineEnd.source]

/-- The lines of a text and their ends, put together, are the text. -/
theorem source_lines (text : List Char) : (splitLines text).flatMap Line.source = text := by
  have h := flatMap_source_pieces '\n' text
  rw [splitLines, List.flatMap_map]
  simpa [Line.source_ofPiece] using h

end KspWorkbench
