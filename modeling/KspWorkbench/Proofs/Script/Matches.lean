import KspWorkbench.Proofs.Script.References

/-!
# The matches of a search

The search for a word meets stretches that spell it, from left to right and without overlaps, and
keeps those that stand alone. This holds of any word that is not empty, also of one that overlaps
itself; what the search meets is then not all that spells the word.

* **`matchColumns`** — where the search meets the word. By `mem_matchColumns_iff` it meets what
  spells the word, unless a match before reaches into it.
* **`occurrences_eq_filter`** — the occurrences are the matches that stand alone.
* **`Replaced`** — a line, and the line with a word replaced at some columns: the same gaps between
  them. `replaced_occurrences` says that the search replaces at the columns it finds.
-/

namespace KspWorkbench

/-! ## §1 — what the search meets -/

/-- Where the search meets the word in the rest of a line that begins at the column `start`; its
first `skip` characters belong to the match before. -/
def matchesFrom (word : List Char) : Nat → Nat → List Char → List Nat
  | _, _, [] => []
  | skip + 1, start, _ :: cs => matchesFrom word skip (start + 1) cs
  | 0, start, c :: cs =>
    if word.isPrefixOf (c :: cs) then start :: matchesFrom word (word.length - 1) (start + 1) cs
    else matchesFrom word 0 (start + 1) cs

/-- Where a search from left to right meets the word, without overlaps. -/
def matchColumns (word line : List Char) : List Nat :=
  matchesFrom word 0 0 line

theorem add_length_cons (start : Nat) (c : Char) (front : List Char) :
    start + (c :: front).length = start + 1 + front.length := by
  rw [List.length_cons]
  omega

section Matches

variable {word : List Char}

/-- What is met spells the word. -/
theorem split_of_mem_matchesFrom {skip start column : Nat} {line : List Char}
    (h : column ∈ matchesFrom word skip start line) :
    ∃ front back, line = front ++ word ++ back ∧ start + front.length = column ∧
      skip ≤ front.length := by
  fun_induction matchesFrom word skip start line with
  | case1 => cases h
  | case2 skip start c cs ih =>
    obtain ⟨front, back, rfl, rfl, hskip⟩ := ih h
    exact ⟨c :: front, back, rfl, add_length_cons start c front, Nat.succ_le_succ hskip⟩
  -- a match begins here, and the rest of it is skipped.
  | case3 start c cs hspells ih =>
    rcases List.mem_cons.mp h with rfl | hmem
    · obtain ⟨back, hback⟩ := List.isPrefixOf_iff_prefix.mp hspells
      exact ⟨[], back, hback.symm, rfl, Nat.le_refl 0⟩
    · obtain ⟨front, back, rfl, rfl, -⟩ := ih hmem
      exact ⟨c :: front, back, rfl, add_length_cons start c front, Nat.zero_le _⟩
  | case4 start c cs hspells ih =>
    obtain ⟨front, back, rfl, rfl, -⟩ := ih h
    exact ⟨c :: front, back, rfl, add_length_cons start c front, Nat.zero_le _⟩

/-- No match begins in the stretch that is skipped. -/
theorem le_of_mem_matchesFrom {skip start column : Nat} {line : List Char}
    (h : column ∈ matchesFrom word skip start line) : start + skip ≤ column := by
  obtain ⟨front, -, -, rfl, hskip⟩ := split_of_mem_matchesFrom h
  omega

/-- Matches do not overlap. -/
theorem pairwise_matchesFrom (hword : word ≠ []) (skip start : Nat) (line : List Char) :
    (matchesFrom word skip start line).Pairwise (fun a b => a + word.length ≤ b) := by
  have hpos := List.length_pos_iff.mpr hword
  fun_induction matchesFrom word skip start line with
  | case1 => exact .nil
  | case2 skip start c cs ih => exact ih
  | case3 start c cs hspells ih =>
    refine List.pairwise_cons.mpr ⟨fun column hcolumn => ?_, ih⟩
    have hle := le_of_mem_matchesFrom hcolumn
    omega
  | case4 start c cs hspells ih => exact ih

/-- Of two columns that are `width` apart, the larger one is so far behind the smaller one. -/
theorem apart_of_pairwise {width a b : Nat} {columns : List Nat}
    (h : columns.Pairwise (fun a b => a + width ≤ b)) (ha : a ∈ columns) (hb : b ∈ columns)
    (hlt : a < b) : a + width ≤ b := by
  induction h with
  | nil => cases ha
  | @cons c columns hfirst _ ih =>
    rcases List.mem_cons.mp ha with rfl | ha' <;> rcases List.mem_cons.mp hb with rfl | hb'
    · omega
    · exact hfirst b hb'
    · have hle := hfirst a ha'
      omega
    · exact ih ha' hb'

/-- What spells the word is met, unless a match before it reaches into it. -/
theorem mem_matchesFrom_of_split (hword : word ≠ []) {skip start : Nat}
    {line front back : List Char} (hsplit : line = front ++ word ++ back)
    (hskip : skip ≤ front.length)
    (hapart : ∀ column ∈ matchesFrom word skip start line, column < start + front.length →
      column + word.length ≤ start + front.length) :
    start + front.length ∈ matchesFrom word skip start line := by
  fun_induction matchesFrom word skip start line generalizing front with
  | case1 => simp [hword] at hsplit
  | case2 skip start c cs ih =>
    cases front with
    | nil => simp at hskip
    | cons d front =>
      obtain ⟨rfl, rfl⟩ := List.cons.inj hsplit
      rw [add_length_cons] at hapart ⊢
      exact ih rfl (by simpa using hskip) hapart
  | case3 start c cs hspells ih =>
    cases front with
    | nil => simp
    | cons d front =>
      obtain ⟨rfl, rfl⟩ := List.cons.inj hsplit
      rw [add_length_cons] at hapart ⊢
      -- the match here ends before the stretch begins.
      have hends := hapart start (by simp) (by omega)
      refine List.mem_cons_of_mem start (ih rfl (by omega) fun column hmem => ?_)
      exact hapart column (List.mem_cons_of_mem start hmem)
  | case4 start c cs hspells ih =>
    cases front with
    | nil => exact absurd (List.isPrefixOf_iff_prefix.mpr ⟨back, hsplit.symm⟩) hspells
    | cons d front =>
      obtain ⟨rfl, rfl⟩ := List.cons.inj hsplit
      rw [add_length_cons] at hapart ⊢
      exact ih rfl (Nat.zero_le _) hapart

/-- **What the search meets**: a stretch that spells the word and into which no match before it
reaches. -/
theorem mem_matchColumns_iff (hword : word ≠ []) {line : List Char} {column : Nat} :
    column ∈ matchColumns word line ↔
      (∃ front back, line = front ++ word ++ back ∧ front.length = column) ∧
        ∀ c ∈ matchColumns word line, c < column → c + word.length ≤ column := by
  constructor
  · intro h
    obtain ⟨front, back, hsplit, hcolumn, -⟩ := split_of_mem_matchesFrom h
    refine ⟨⟨front, back, hsplit, by omega⟩, fun c hc hlt => ?_⟩
    exact apart_of_pairwise (pairwise_matchesFrom hword 0 0 line) hc h hlt
  · rintro ⟨⟨front, back, hsplit, rfl⟩, hapart⟩
    rw [← Nat.zero_add front.length] at hapart ⊢
    exact mem_matchesFrom_of_split hword hsplit (Nat.zero_le _) hapart

end Matches

/-! ## §2 — the occurrences among the matches -/

/-- Whether the stretch of `width` characters at a column stands alone in its line. -/
def standsAloneAt (line : List Char) (width column : Nat) : Bool :=
  standsAlone (line.take column).getLast? (line.drop (column + width))

/-- How many characters a search has yet to pass before it looks for the word again. -/
def Search.skip : Search → Nat
  | .looking => 0
  | .passing left => left
  | .inside left => left

/-- How many characters of the rest of a line are part of an occurrence that was found. -/
def Search.owed : Search → Nat
  | .looking => 0
  | .passing _ => 0
  | .inside left => left

theorem Search.owed_skip_eq_zero {search : Search} (hinside : ∀ k, search = .inside (k + 1) → False)
    (hpassing : ∀ k, search = .passing (k + 1) → False) : search.owed = 0 ∧ search.skip = 0 := by
  cases search with
  | looking => exact ⟨rfl, rfl⟩
  | passing left =>
    cases left with
    | zero => exact ⟨rfl, rfl⟩
    | succ k => exact (hpassing k rfl).elim
  | inside left =>
    cases left with
    | zero => exact ⟨rfl, rfl⟩
    | succ k => exact (hinside k rfl).elim

/-- Whether the stretch of `width` characters at `column` stands alone in the rest of a line, which
begins at the column `start` behind the character `before`. -/
def aloneFrom (before : Option Char) (start : Nat) (line : List Char) (width column : Nat) : Bool :=
  standsAlone ((line.take (column - start)).getLast?.or before)
    (line.drop (column - start + width))

theorem aloneFrom_cons {before : Option Char} {start width column : Nat} {c : Char}
    {line : List Char} (h : start < column) :
    aloneFrom before start (c :: line) width column =
      aloneFrom (some c) (start + 1) line width column := by
  have hoffset : column - start = column - (start + 1) + 1 := by omega
  rw [aloneFrom, aloneFrom, hoffset, List.take_succ_cons, getLast?_cons_or, Nat.add_right_comm,
    List.drop_succ_cons]

/-- The matches in the rest of a line can be filtered from there. -/
theorem filter_matchesFrom_cons {word line : List Char} {before : Option Char} {c : Char}
    {skip start : Nat} :
    (matchesFrom word skip (start + 1) line).filter
        (aloneFrom before start (c :: line) word.length) =
      (matchesFrom word skip (start + 1) line).filter
        (aloneFrom (some c) (start + 1) line word.length) := by
  refine List.filter_congr fun column hcolumn => aloneFrom_cons ?_
  have hle := le_of_mem_matchesFrom hcolumn
  omega

/-- **The columns of a search**, whatever its progress: the matches that stand alone. -/
theorem columnsFrom_segmentsFrom {word : List Char} (hword : word ≠ []) (search : Search)
    (before : Option Char) (start : Nat) (line : List Char) :
    columnsFrom word.length (start + search.owed) (segmentsFrom word search before line) =
      (matchesFrom word search.skip start line).filter
        (aloneFrom before start line word.length) := by
  have hpos := List.length_pos_iff.mpr hword
  have hhere : ∀ before c cs start, aloneFrom before start (c :: cs) word.length start =
      standsAlone before ((c :: cs).drop word.length) := by
    intro before c cs start
    simp [aloneFrom]
  fun_induction segmentsFrom word search before line generalizing start with
  | case1 => simp [columnsFrom, matchesFrom]
  | case2 k before c cs ih =>
    have hcolumn : start + (k + 1) = start + 1 + k := by omega
    simp only [Search.owed, Search.skip, matchesFrom] at ih ⊢
    rw [filter_matchesFrom_cons, hcolumn, ih]
  | case3 k before c cs ih =>
    simp only [Search.owed, Search.skip, matchesFrom, columnsFrom, Nat.add_zero] at ih ⊢
    rw [filter_matchesFrom_cons, ih]
  -- from here on the search is at a character where it looks for the word.
  | case4 search before c cs hinside hpassing hstart halone ih =>
    obtain ⟨howed, hskip⟩ := Search.owed_skip_eq_zero hinside hpassing
    have hcolumn : start + word.length = start + 1 + (word.length - 1) := by omega
    rw [howed, hskip, matchesFrom, if_pos hstart, List.filter_cons_of_pos (by rw [hhere, halone]),
      filter_matchesFrom_cons, Nat.add_zero, columnsFrom, hcolumn]
    exact congrArg _ (ih (start + 1))
  | case5 search before c cs hinside hpassing hstart halone ih =>
    obtain ⟨howed, hskip⟩ := Search.owed_skip_eq_zero hinside hpassing
    rw [howed, hskip, matchesFrom, if_pos hstart,
      List.filter_cons_of_neg (by rw [hhere]; exact halone), filter_matchesFrom_cons, Nat.add_zero,
      columnsFrom]
    exact ih (start + 1)
  | case6 search before c cs hinside hpassing hstart ih =>
    obtain ⟨howed, hskip⟩ := Search.owed_skip_eq_zero hinside hpassing
    rw [howed, hskip, matchesFrom, if_neg hstart, filter_matchesFrom_cons, Nat.add_zero,
      columnsFrom]
    exact ih (start + 1)

/-- **The occurrences are the matches that stand alone.** -/
theorem occurrences_eq_filter {word : List Char} (hword : word ≠ []) (line : List Char) :
    occurrences word line = (matchColumns word line).filter (standsAloneAt line word.length) := by
  have hcolumns := columnsFrom_segmentsFrom hword .looking none 0 line
  have halone : aloneFrom none 0 line word.length = standsAloneAt line word.length := by
    funext column
    rw [aloneFrom, standsAloneAt, Nat.sub_zero, Option.or_none]
  rwa [halone] at hcolumns

/-- A match stands alone just when it is an occurrence. -/
theorem standsAloneAt_iff {word line front back : List Char}
    (hsplit : line = front ++ word ++ back) :
    standsAloneAt line word.length front.length = true ↔ OccursIn word line front back := by
  have htake : line.take front.length = front := by simp [hsplit]
  have hdrop : line.drop (front.length + word.length) = back := by
    rw [hsplit, ← List.length_append, List.drop_left]
  rw [standsAloneAt, htake, hdrop, occursIn_iff]
  exact ⟨fun halone => ⟨hsplit, halone⟩, fun h => h.2⟩

/-- **Which occurrences are found**: those into which no match before them reaches. -/
theorem OccursIn.mem_occurrences_iff {word line front back : List Char} (hword : word ≠ [])
    (h : OccursIn word line front back) :
    front.length ∈ occurrences word line ↔
      ∀ c ∈ matchColumns word line, c < front.length → c + word.length ≤ front.length := by
  rw [occurrences_eq_filter hword, List.mem_filter, standsAloneAt_iff h.split,
    mem_matchColumns_iff hword]
  exact ⟨fun hmem => hmem.1.2, fun hapart => ⟨⟨⟨front, back, h.split, rfl⟩, hapart⟩, h⟩⟩

/-- Every column that the search keeps is that of a match, and of an occurrence. -/
theorem exists_occursIn {word line : List Char} (hword : word ≠ []) {column : Nat}
    (h : column ∈ occurrences word line) :
    column ∈ matchColumns word line ∧
      ∃ front back, OccursIn word line front back ∧ front.length = column := by
  rw [occurrences_eq_filter hword, List.mem_filter] at h
  obtain ⟨⟨front, back, hsplit, rfl⟩, -⟩ := (mem_matchColumns_iff hword).mp h.1
  exact ⟨h.1, front, back, (standsAloneAt_iff hsplit).mp h.2, rfl⟩

/-- Occurrences that the search keeps do not overlap. -/
theorem pairwise_occurrences {word : List Char} (hword : word ≠ []) (line : List Char) :
    (occurrences word line).Pairwise (fun a b => a + word.length ≤ b) := by
  rw [occurrences_eq_filter hword]
  exact (pairwise_matchesFrom hword 0 0 line).filter _

/-! ## §3 — replacing at columns -/

/-- **A line with a word replaced at some columns.** Both lines have the same gaps; at each of the
columns, counted from `start`, the word stands in the first line and the name in the second. -/
inductive Replaced (word name : List Char) : Nat → List Nat → List Char → List Char → Prop where
  | rest {start : Nat} (gap : List Char) : Replaced word name start [] gap gap
  | cut {start : Nat} {columns : List Nat} {line line' : List Char} (gap : List Char)
      (hrest : Replaced word name (start + gap.length + word.length) columns line line') :
      Replaced word name start ((start + gap.length) :: columns) (gap ++ word ++ line)
        (gap ++ name ++ line')

theorem Replaced.cons {word name line line' : List Char} {start : Nat} {columns : List Nat}
    (c : Char) (h : Replaced word name (start + 1) columns line line') :
    Replaced word name start columns (c :: line) (c :: line') := by
  cases h with
  | rest => exact .rest (c :: line)
  | @cut _ columns line line' gap hrest =>
    -- the character goes to the front of the first gap, and no column moves.
    rw [← add_length_cons start c] at hrest ⊢
    exact .cut (c :: gap) hrest

/-- Writing the new name for each occurrence of a cut replaces the word at its columns. -/
theorem replaced_columnsFrom (word name : List Char) (start : Nat) (segs : List Segment) :
    Replaced word name start (columnsFrom word.length start segs)
      (segs.flatMap (Segment.render word)) (segs.flatMap (Segment.render name)) := by
  induction segs generalizing start with
  | nil => exact .rest []
  | cons seg segs ih =>
    cases seg with
    | other c => exact (ih (start + 1)).cons c
    | found => exact .cut [] (ih (start + word.length))

/-- The segments of a search, whatever its progress, give back what it has yet to tell of the
line. -/
theorem flatMap_render_segmentsFrom {word : List Char} (hword : word ≠ []) (search : Search)
    (before : Option Char) (line : List Char) :
    (segmentsFrom word search before line).flatMap (Segment.render word) =
      line.drop search.owed := by
  -- characters that an occurrence still owes are dropped here, since its segment has them
  -- already.
  fun_induction segmentsFrom word search before line with
  | case1 => simp
  | case2 k before c cs ih => exact ih
  | case3 k before c cs ih => exact congrArg (c :: ·) ih
  | case4 search before c cs hinside hpassing hstart halone ih =>
    obtain ⟨behind, hbehind⟩ := List.isPrefixOf_iff_prefix.mp hstart
    rw [(Search.owed_skip_eq_zero hinside hpassing).1, List.flatMap_cons, ih]
    cases word with
    | nil => exact absurd rfl hword
    | cons d rest =>
      obtain ⟨rfl, rfl⟩ := List.cons.inj hbehind
      simp [Segment.render, Search.owed]
  | case5 search before c cs hinside hpassing hstart halone ih =>
    rw [(Search.owed_skip_eq_zero hinside hpassing).1]
    exact congrArg (c :: ·) ih
  | case6 search before c cs hinside hpassing hstart ih =>
    rw [(Search.owed_skip_eq_zero hinside hpassing).1]
    exact congrArg (c :: ·) ih

/-- **The search replaces at the columns it finds**, and leaves all else as it is. -/
theorem replaced_occurrences {word : List Char} (hword : word ≠ []) (name line : List Char) :
    Replaced word name 0 (occurrences word line) line (replaceOccurrences word name line) := by
  have hreplaced := replaced_columnsFrom word name 0 (segments word line)
  have hline : (segments word line).flatMap (Segment.render word) = line :=
    flatMap_render_segmentsFrom hword .looking none line
  rwa [hline] at hreplaced

end KspWorkbench
