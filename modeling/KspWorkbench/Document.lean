/-!
# Documents and places in them

The identity of a document is, for a file, its path as the host wrote it. Two spellings of one path
are two documents. Keys are ordered by code points, which is the order of their UTF-8 bytes.

A position is a line and a column, both counted from zero; columns count code points. A range is
half open. Compiler output names lines only, so a range can also reach to the end of its line,
which is written as the column `endOfLine`.
-/

namespace KspWorkbench

/-! ## Keys -/

structure DocumentKey where
  path : String
  deriving DecidableEq, Repr

namespace DocumentKey

instance : LT DocumentKey where
  lt a b := a.path < b.path

instance (a b : DocumentKey) : Decidable (a < b) :=
  inferInstanceAs (Decidable (a.path < b.path))

def le (a b : DocumentKey) : Bool :=
  ¬ b < a

/-- The keys of a list in increasing order, each one once. -/
def sortDistinct (keys : List DocumentKey) : List DocumentKey :=
  (keys.mergeSort le).eraseReps

end DocumentKey

/-! ## Positions and ranges -/

/-- The column that stands for the end of a line. -/
def endOfLine : Nat :=
  4294967295

/-- A place in a document. Both numbers count from zero, the column in code points. -/
structure Position where
  line : Nat
  character : Nat
  deriving DecidableEq, Repr

/-- Positions are ordered by line and then by column. -/
instance : LT Position where
  lt p q := p.line < q.line ∨ (p.line = q.line ∧ p.character < q.character)

instance (p q : Position) : Decidable (p < q) :=
  inferInstanceAs (Decidable (p.line < q.line ∨ (p.line = q.line ∧ p.character < q.character)))

/-- The span from `start` up to and without `stop`. -/
structure Range where
  start : Position
  stop : Position
  deriving DecidableEq, Repr

def Range.wholeLine (line : Nat) : Range :=
  ⟨⟨line, 0⟩, ⟨line, endOfLine⟩⟩

def Range.toEndOfLine (start : Position) : Range :=
  ⟨start, ⟨start.line, endOfLine⟩⟩

def Range.contains (r : Range) (p : Position) : Bool :=
  ¬ p < r.start ∧ p < r.stop

end KspWorkbench
