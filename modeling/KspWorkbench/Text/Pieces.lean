/-!
# Pieces of a sequence

A sequence cut after every separator. Both lines of text and lines of bytes are such pieces. The
last piece may lack its separator, and a sequence that ends with a separator has no empty piece
after it.
-/

namespace KspWorkbench

/-- A stretch of a sequence up to the next separator, and whether one follows. -/
structure Piece (α : Type) where
  body : List α
  terminated : Bool
  deriving DecidableEq, Repr

/-- Puts one more element in front of a sequence that is already cut. -/
def extendPieces {α : Type} [BEq α] (separator x : α) (ps : List (Piece α)) : List (Piece α) :=
  if x == separator then
    ⟨[], true⟩ :: ps
  else
    match ps with
    | [] => [⟨[x], false⟩]
    | p :: ps => ⟨x :: p.body, p.terminated⟩ :: ps

/-- The pieces of `xs`, each with whether `separator` followed it. -/
def pieces {α : Type} [BEq α] (separator : α) (xs : List α) : List (Piece α) :=
  xs.foldr (extendPieces separator) []

/-- The stretch of the sequence that a piece was cut from. -/
def Piece.source {α : Type} (separator : α) (p : Piece α) : List α :=
  p.body ++ if p.terminated then [separator] else []

section Lemmas

variable {α : Type} [BEq α] [LawfulBEq α]

omit [LawfulBEq α] in
@[simp] theorem pieces_nil (separator : α) : pieces separator [] = [] := rfl

omit [LawfulBEq α] in
theorem pieces_cons (separator x : α) (xs : List α) :
    pieces separator (x :: xs) = extendPieces separator x (pieces separator xs) := rfl

/-- Cutting loses nothing: the pieces put together are the sequence. -/
theorem flatMap_source_pieces (separator : α) (xs : List α) :
    (pieces separator xs).flatMap (Piece.source separator) = xs := by
  induction xs with
  | nil => rfl
  | cons x xs ih =>
    rw [pieces_cons]
    unfold extendPieces
    by_cases hx : x == separator
    · simp only [hx, if_true, List.flatMap_cons, ih]
      simp [Piece.source, (eq_of_beq hx).symm]
    · cases hps : pieces separator xs with
      | nil => simp [hx, Piece.source, hps] at ih ⊢; exact ih
      | cons p ps => simp [hx, Piece.source, hps] at ih ⊢; exact ih

theorem pieces_append_separator {separator : α} {xs : List α} (h : separator ∉ xs) (rest : List α) :
    pieces separator (xs ++ separator :: rest) = ⟨xs, true⟩ :: pieces separator rest := by
  induction xs with
  | nil => simp [pieces_cons, extendPieces]
  | cons x xs ih =>
    have hx : ¬ (x == separator) = true := fun heq => h (by simp [eq_of_beq heq])
    have hxs : separator ∉ xs := fun hmem => h (List.mem_cons_of_mem x hmem)
    rw [List.cons_append, pieces_cons, ih hxs]
    simp [extendPieces, hx]

theorem pieces_of_not_mem {separator : α} {xs : List α} (h : separator ∉ xs) (hxs : xs ≠ []) :
    pieces separator xs = [⟨xs, false⟩] := by
  induction xs with
  | nil => exact absurd rfl hxs
  | cons x xs ih =>
    have hx : ¬ (x == separator) = true := fun heq => h (by simp [eq_of_beq heq])
    have hrest : separator ∉ xs := fun hmem => h (List.mem_cons_of_mem x hmem)
    rw [pieces_cons]
    cases xs with
    | nil => simp [extendPieces, hx]
    | cons y ys =>
      rw [ih hrest (List.cons_ne_nil y ys)]
      simp [extendPieces, hx]

end Lemmas

end KspWorkbench
