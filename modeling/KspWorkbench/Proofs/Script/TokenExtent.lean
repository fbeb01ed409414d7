import Mathlib.Order.Bounds.Basic
import KspWorkbench.Proofs.Script.Tokens

/-!
# The extent of a token

Where the token under a cursor begins and where it ends, told by the columns of its line alone. The
cursor lies between two columns with no boundary from one to the other, and these are as far apart
as they can be.

* **`Unbroken`** — no boundary stands between two columns.
* **`MaximalRun`** — the least column to the left and the greatest to the right of a cursor with no
  boundary in between.
* **`Stretch.maximalRun`** — a stretch of the line is the maximal run of every cursor in it.
* **`token_is_maximal_run`** — the token is the text of this run with the quotes next to it, so it
  is the same for all columns of a run and for all columns past the end.
-/

namespace KspWorkbench

/-! ## §1 — between two columns -/

/-- The characters of a line from the column `i` up to the column `j`. -/
def between (cs : List Char) (i j : Nat) : List Char :=
  (cs.take j).drop i

theorem mem_between_iff {cs : List Char} {i j : Nat} {c : Char} :
    c ∈ between cs i j ↔ ∃ k, i ≤ k ∧ k < j ∧ cs[k]? = some c := by
  rw [between, List.mem_iff_getElem?]
  simp only [List.getElem?_drop, List.getElem?_take]
  constructor
  · rintro ⟨m, hm⟩
    split at hm
    · next hlt => exact ⟨i + m, by omega, hlt, hm⟩
    · cases hm
  · rintro ⟨k, hfrom, hto, hk⟩
    refine ⟨k - i, ?_⟩
    rw [show i + (k - i) = k by omega, if_pos hto, hk]

/-- The character of a line directly before a column. -/
def charBefore? (cs : List Char) : Nat → Option Char
  | 0 => none
  | k + 1 => cs[k]?

/-- The character of a line directly behind a column. -/
def charBehind? (cs : List Char) (column : Nat) : Option Char :=
  cs[column]?

/-- Whether no boundary stands between the columns `i` and `j`. -/
def Unbroken (line : List Char) (i j : Nat) : Prop :=
  ∀ c ∈ between line i j, isBoundary c = false

instance (line : List Char) (i j : Nat) : Decidable (Unbroken line i j) :=
  List.decidableBAll (isBoundary · = false) (between line i j)

/-- Fewer columns hold no more boundaries. A start past the end of the line counts as the end, since
no character stands there. -/
theorem Unbroken.mono {line : List Char} {i j i' j' : Nat} (h : Unbroken line i j)
    (hi : min i line.length ≤ i') (hj : j' ≤ j) : Unbroken line i' j' := by
  intro c hc
  obtain ⟨k, hfrom, hto, hk⟩ := mem_between_iff.mp hc
  have hinside : k < line.length := (List.getElem?_eq_some_iff.mp hk).1
  exact h c (mem_between_iff.mpr ⟨k, by omega, by omega, hk⟩)

/-- An unbroken run ends at a boundary character behind it, at the latest. -/
theorem Unbroken.le_of_boundary_behind {line : List Char} {i j column : Nat} {c : Char}
    (h : Unbroken line i j) (hc : charBehind? line column = some c)
    (hboundary : isBoundary c = true) (hi : i ≤ column) : j ≤ column := by
  by_contra hlt
  have hno := h c (mem_between_iff.mpr ⟨column, hi, by omega, hc⟩)
  rw [hboundary] at hno
  cases hno

/-- An unbroken run begins behind a boundary character, at the earliest. -/
theorem Unbroken.le_of_boundary_before {line : List Char} {i j column : Nat} {c : Char}
    (h : Unbroken line i j) (hc : charBefore? line column = some c)
    (hboundary : isBoundary c = true) (hj : column ≤ j) : column ≤ i := by
  cases column with
  | zero => exact Nat.zero_le i
  | succ k =>
    -- the boundary stands behind the column `k`, so what begins there or before ends there.
    by_contra hlt
    have hend : j ≤ k := h.le_of_boundary_behind hc hboundary (by omega)
    omega

/-! ## §2 — the maximal run around a cursor -/

/-- **The maximal run around a cursor** begins at the least column and ends at the greatest one with
no boundary from there to the cursor. -/
structure MaximalRun (line : List Char) (cursor start stop : Nat) : Prop where
  start_least : IsLeast {s | s ≤ cursor ∧ Unbroken line s cursor} start
  stop_greatest : IsGreatest {e | cursor ≤ e ∧ e ≤ line.length ∧ Unbroken line cursor e} stop

section Stretch

variable {line front token back : List Char}

/-- The token of a stretch is what stands between its columns. -/
theorem Stretch.between_eq (h : Stretch line front token back) :
    between line front.length (front.length + token.length) = token := by
  rw [between, h.split, ← List.length_append, List.take_left, List.drop_left]

theorem Stretch.charBefore?_eq (h : Stretch line front token back) :
    charBefore? line front.length = front.getLast? := by
  rw [h.split]
  rcases List.eq_nil_or_concat' front with rfl | ⟨init, c, rfl⟩
  · rfl
  · rw [List.getLast?_concat, List.length_append]
    show (init ++ [c] ++ token ++ back)[init.length]? = some c
    simp

theorem Stretch.charBehind?_eq (h : Stretch line front token back) :
    charBehind? line (front.length + token.length) = back.head? := by
  rw [charBehind?, h.split, ← List.length_append, List.getElem?_append_right (Nat.le_refl _),
    Nat.sub_self, List.head?_eq_getElem?]

theorem Stretch.length_eq (h : Stretch line front token back) :
    line.length = front.length + token.length + back.length := by
  rw [h.split, List.length_append, List.length_append]

theorem Stretch.unbroken (h : Stretch line front token back) :
    Unbroken line front.length (front.length + token.length) := by
  intro c hc
  rw [h.between_eq] at hc
  exact h.inner c hc

/-- An unbroken run up to the cursor does not begin before the stretch around it. -/
theorem Stretch.start_le (h : Stretch line front token back) {s cursor : Nat}
    (hfrom : front.length ≤ cursor) (hs : Unbroken line s cursor) : front.length ≤ s := by
  -- a stretch begins where the line begins or behind a boundary.
  cases hlast : front.getLast? with
  | none =>
    rw [List.getLast?_eq_none_iff.mp hlast]
    exact Nat.zero_le s
  | some c =>
    exact hs.le_of_boundary_before (h.charBefore?_eq.trans hlast) (h.front_boundary c hlast) hfrom

/-- An unbroken run from the cursor on does not end behind the stretch around it. -/
theorem Stretch.le_stop (h : Stretch line front token back) {e cursor : Nat}
    (hto : cursor ≤ front.length + token.length) (hend : e ≤ line.length)
    (he : Unbroken line cursor e) : e ≤ front.length + token.length := by
  -- a stretch ends where the line ends or at a boundary.
  cases hhead : back.head? with
  | none =>
    have hlength := h.length_eq
    rw [List.head?_eq_none_iff.mp hhead, List.length_nil] at hlength
    omega
  | some c =>
    exact he.le_of_boundary_behind (h.charBehind?_eq.trans hhead) (h.back_boundary c hhead) hto

/-- **A stretch is the maximal run** of every cursor in it. -/
theorem Stretch.maximalRun (h : Stretch line front token back) {cursor : Nat}
    (hfrom : front.length ≤ cursor) (hto : cursor ≤ front.length + token.length) :
    MaximalRun line cursor front.length (front.length + token.length) := by
  have hlength := h.length_eq
  refine ⟨⟨⟨hfrom, ?_⟩, ?_⟩, ⟨⟨hto, by omega, ?_⟩, ?_⟩⟩
  · exact h.unbroken.mono (Nat.min_le_left _ _) hto
  · rintro s ⟨-, hs⟩
    exact h.start_le hfrom hs
  · exact h.unbroken.mono (by omega) (Nat.le_refl _)
  · rintro e ⟨-, hend, he⟩
    exact h.le_stop hto hend he

end Stretch

/-! ## §3 — the token of a run -/

/-- Two cursors with no boundary character between them lie in the same stretch, so their tokens
are the same. -/
theorem tokenAt_eq_of_unbroken {line : List Char} {column other : Nat} (hle : column ≤ other)
    (h : Unbroken line column other) : tokenAt line column = tokenAt line other := by
  obtain ⟨front, token, back, hstretch, hfrom, hto⟩ := exists_stretch line column
  -- the stretch of the first column goes on at least to the second.
  have hother : min other line.length ≤ front.length + token.length :=
    hstretch.le_stop hto (Nat.min_le_right _ _) (h.mono (Nat.le_refl _) (Nat.min_le_left _ _))
  rw [← tokenAt_min line column, ← tokenAt_min line other, tokenAt_of_stretch hstretch hfrom hto,
    tokenAt_of_stretch hstretch (by omega) hother]

/-- **The token under a cursor is the maximal run around it**, with a double quote in front exactly
if one stands directly before the run and with one behind exactly if one stands directly after it.
Trimming the result of the scans removes nothing. Columns with no boundary between them give the
same token, and so do all columns from the end of the line on. -/
theorem token_is_maximal_run (line : List Char) (column : Nat) :
    (∃ start stop, MaximalRun line (min column line.length) start stop ∧
      tokenAt line column =
        (if charBefore? line start = some '"' then ['"'] else []) ++ between line start stop ++
          (if charBehind? line stop = some '"' then ['"'] else [])) ∧
    tokenAt line column = trim (untrimmedToken line column) ∧
    trim (untrimmedToken line column) = untrimmedToken line column ∧
    (∀ other, Unbroken line (min column other) (max column other) →
      tokenAt line other = tokenAt line column) ∧
    (line.length ≤ column → tokenAt line column = tokenAt line line.length) := by
  -- all is read off the one stretch that the cursor lies in.
  obtain ⟨front, token, back, hstretch, hfrom, hto⟩ := exists_stretch line column
  have huntrimmed : untrimmedToken line column =
      leadingQuote front.reverse ++ token ++ leadingQuote back := by
    rw [← untrimmedToken_min, untrimmedToken_of_stretch hstretch hfrom hto]
  have htrim : trim (untrimmedToken line column) = untrimmedToken line column := by
    rw [huntrimmed, hstretch.trim_eq]
  refine ⟨⟨front.length, front.length + token.length, hstretch.maximalRun hfrom hto, ?_⟩,
    tokenAt_eq_trim line column, htrim, ?_, ?_⟩
  · rw [tokenAt_eq_trim, htrim, huntrimmed, hstretch.charBefore?_eq, hstretch.charBehind?_eq,
      hstretch.between_eq, leadingQuote, leadingQuote, List.head?_reverse]
  · intro other hunbroken
    rcases Nat.le_total column other with hle | hle
    · rw [Nat.min_eq_left hle, Nat.max_eq_right hle] at hunbroken
      exact (tokenAt_eq_of_unbroken hle hunbroken).symm
    · rw [Nat.min_eq_right hle, Nat.max_eq_left hle] at hunbroken
      exact tokenAt_eq_of_unbroken hle hunbroken
  · intro hpast
    rw [← tokenAt_min line column, Nat.min_eq_right hpast]

/-- Between two adjacent quotes the run is empty and the token is the empty literal. Behind them the
columns 4 and 5 share a run. -/
theorem token_between_adjacent_quotes :
    let line := "(\"\"\"a)".toList
    MaximalRun line 2 2 2 ∧ tokenAt line 2 = ['"', '"'] ∧
      Unbroken line 4 5 ∧ tokenAt line 5 = tokenAt line 4 ∧
      line.length ≤ 9 ∧ tokenAt line 9 = tokenAt line line.length := by
  intro line
  have hshared : Unbroken line 4 5 := by decide +kernel
  have hpast : line.length ≤ 9 := by decide +kernel
  obtain ⟨-, -, -, hsame, -⟩ := token_is_maximal_run line 4
  obtain ⟨-, -, -, -, hend⟩ := token_is_maximal_run line 9
  obtain ⟨⟨start, stop, hrun, htoken⟩, -⟩ := token_is_maximal_run line 2
  rw [show min 2 line.length = 2 by decide +kernel] at hrun
  -- the quotes at the columns 1 and 2 close the run in on both sides.
  obtain ⟨hle, hleft⟩ := hrun.start_least.1
  obtain ⟨hge, -, hright⟩ := hrun.stop_greatest.1
  have hstart : start = 2 := Nat.le_antisymm hle
    (hleft.le_of_boundary_before (c := '"') (by decide +kernel) (by decide) (Nat.le_refl _))
  have hstop : stop = 2 := Nat.le_antisymm
    (hright.le_of_boundary_behind (c := '"') (by decide +kernel) (by decide) (Nat.le_refl _)) hge
  subst hstart hstop
  exact ⟨hrun, htoken.trans (by decide +kernel), hshared, hsame 5 hshared, hpast, hend hpast⟩

end KspWorkbench
