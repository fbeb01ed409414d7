import KspWorkbench.Proofs.Script.Occurrences
import KspWorkbench.Script.Navigation

/-!
# Edits of a text

The edits of a renaming replace whole lines. Applying them changes the bodies of lines and leaves
how they end, and the text that comes out falls apart into just these lines again.

* **`WellCut`** — lines as a text falls apart into them. `splitLines_flatMap_source` puts them
  together and takes them apart again.
* **`applyEdits`** — a text after edits.
* **`splitLines_applyEdits`** — the lines of a text after the edits of a renaming are its lines, each
  with the occurrences of the word replaced.
-/

namespace KspWorkbench

/-! ## §1 — a text and its lines -/

/-- **Lines as a text falls apart into them**: no line holds a line feed, a carriage return at the
end of a line belongs to its ending, and only the last line, if it is not empty, ends with the
text. -/
inductive WellCut : List Line → Prop where
  | nil : WellCut []
  | last {body : List Char} (hfeed : '\n' ∉ body) (hbody : body ≠ []) : WellCut [⟨body, .textEnd⟩]
  | feed {body : List Char} {ls : List Line} (hfeed : '\n' ∉ body)
      (hreturn : body.getLast? ≠ some '\r') (hrest : WellCut ls) : WellCut (⟨body, .feed⟩ :: ls)
  | returnFeed {body : List Char} {ls : List Line} (hfeed : '\n' ∉ body) (hrest : WellCut ls) :
      WellCut (⟨body, .returnFeed⟩ :: ls)

/-- A piece that a line feed ends is a line, whose end takes in a carriage return before the feed.
-/
theorem ofPiece_terminated (body : List Char) :
    (body.getLast? ≠ some '\r' ∧ Line.ofPiece ⟨body, true⟩ = ⟨body, .feed⟩) ∨
    ∃ init, body = init ++ ['\r'] ∧ Line.ofPiece ⟨body, true⟩ = ⟨init, .returnFeed⟩ := by
  by_cases hlast : body.getLast? = some '\r'
  · obtain ⟨init, rfl⟩ := List.getLast?_eq_some_iff.mp hlast
    exact Or.inr ⟨init, rfl, by simp [Line.ofPiece]⟩
  · refine Or.inl ⟨hlast, ?_⟩
    dsimp only [Line.ofPiece]
    split
    · next h => exact absurd h hlast
    · rfl

/-- A piece that a line feed ends makes a line that can be put in front of well cut ones. -/
theorem wellCut_cons_ofPiece {body : List Char} {ls : List Line} (hfeed : '\n' ∉ body)
    (h : WellCut ls) : WellCut (Line.ofPiece ⟨body, true⟩ :: ls) := by
  rcases ofPiece_terminated body with ⟨hlast, hpiece⟩ | ⟨init, rfl, hpiece⟩
  · rw [hpiece]
    exact .feed hfeed hlast h
  · rw [hpiece]
    exact .returnFeed (fun hmem => hfeed (by simp [hmem])) h

/-- A text falls apart into such lines. -/
theorem wellCut_splitLines (text : List Char) : WellCut (splitLines text) := by
  induction text using separator_induction '\n' with
  | last tail hfeed =>
    by_cases htail : tail = []
    · subst htail
      exact .nil
    · rw [splitLines, pieces_of_not_mem hfeed htail]
      exact .last hfeed htail
  | cut body rest hbody ih =>
    rw [splitLines, pieces_append_separator hbody, List.map_cons]
    exact wellCut_cons_ofPiece hbody ih

/-- **Lines are found again** in the text that is made of them. -/
theorem splitLines_flatMap_source {ls : List Line} (h : WellCut ls) :
    splitLines (ls.flatMap Line.source) = ls := by
  -- by induction on the lines; the three cases are the ways in which a line can end.
  induction h with
  | nil => rfl
  | last hfeed hbody =>
    simp [splitLines, Line.source, LineEnd.source, pieces_of_not_mem hfeed hbody, Line.ofPiece]
  | @feed body ls hfeed hreturn _ ih =>
    have hsource : (Line.mk body .feed :: ls).flatMap Line.source =
        body ++ '\n' :: ls.flatMap Line.source := by
      simp [Line.source, LineEnd.source]
    rw [splitLines] at ih
    rw [hsource, splitLines, pieces_append_separator hfeed, List.map_cons, ih]
    rcases ofPiece_terminated body with ⟨-, hpiece⟩ | ⟨init, rfl, -⟩
    · rw [hpiece]
    · simp at hreturn
  | @returnFeed body ls hfeed _ ih =>
    have hsource : (Line.mk body .returnFeed :: ls).flatMap Line.source =
        (body ++ ['\r']) ++ '\n' :: ls.flatMap Line.source := by
      simp [Line.source, LineEnd.source]
    have hfeed' : '\n' ∉ body ++ ['\r'] := by simp [hfeed]
    rw [splitLines] at ih
    rw [hsource, splitLines, pieces_append_separator hfeed', List.map_cons, ih]
    simp [Line.ofPiece]

/-- A line with another body. -/
def Line.mapBody (change : List Char → List Char) (line : Line) : Line :=
  { line with body := change line.body }

/-- A change of the bodies keeps lines well cut, if it makes no line feed, empties no body, and
brings no carriage return to the end of one. -/
theorem WellCut.map {change : List Char → List Char} {ls : List Line} (h : WellCut ls)
    (hfeed : ∀ body, '\n' ∉ body → '\n' ∉ change body) (hempty : ∀ body, body ≠ [] → change body ≠ [])
    (hreturn : ∀ body, body.getLast? ≠ some '\r' → (change body).getLast? ≠ some '\r') :
    WellCut (ls.map (Line.mapBody change)) := by
  induction h with
  | nil => exact .nil
  | last hbody hne => exact .last (hfeed _ hbody) (hempty _ hne)
  | feed hbody hlast _ ih => exact .feed (hfeed _ hbody) (hreturn _ hlast) ih
  | returnFeed hbody _ ih => exact .returnFeed (hfeed _ hbody) ih

/-! ## §2 — edits -/

/-- A line after an edit: the text of the edit stands in place of its range. -/
def Line.edit (line : Line) (e : LineEdit) : Line :=
  line.mapBody fun body =>
    body.take e.range.start.character ++ e.newText.toList ++ body.drop e.range.stop.character

/-- A text after edits, of which each line has one at most. -/
def applyEdits (edits : List LineEdit) (text : String) : String :=
  String.ofList ((splitLines text.toList).zipIdx.flatMap fun (line, number) =>
    ((edits.find? (·.range.start.line = number)).elim line line.edit).source)

/-- The edits that rename a word in lines, the first of which has the number `start`. -/
def renameLines (word name : List Char) (start : Nat) (ls : List (List Char)) : List LineEdit :=
  (ls.zipIdx start).filterMap fun (line, number) => lineEdit? word name line number

/-- A renaming is accepted on account of its word and its name, and then edits every line. -/
theorem rename_eq_map (text : String) (p : Position) (newName : String) :
    rename text p newName =
      (renameTarget text p newName).map fun word =>
        renameLines word newName.toList 0 (lines text.toList) := by
  rw [rename]
  cases renameTarget text p newName <;> rfl

theorem line_of_lineEdit? {word name line : List Char} {number : Nat} {e : LineEdit}
    (h : lineEdit? word name line number = some e) : e.range.start.line = number := by
  unfold lineEdit? at h
  split at h <;> cases h
  rfl

theorem start_le_of_mem_renameLines {word name : List Char} {start : Nat} {ls : List (List Char)}
    {e : LineEdit} (h : e ∈ renameLines word name start ls) : start ≤ e.range.start.line := by
  obtain ⟨⟨line, number⟩, hmem, hedit⟩ := List.mem_filterMap.mp h
  rw [line_of_lineEdit? hedit]
  exact List.le_snd_of_mem_zipIdx hmem

/-- The edit of a line is found by its number. -/
theorem find?_renameLines {word name : List Char} {start number : Nat} {ls : List (List Char)}
    {line : List Char} (hmem : (line, number) ∈ ls.zipIdx start) :
    (renameLines word name start ls).find? (·.range.start.line = number) =
      lineEdit? word name line number := by
  induction ls generalizing start with
  | nil => cases hmem
  | cons l ls ih =>
    have hcons : renameLines word name start (l :: ls) =
        (lineEdit? word name l start).toList ++ renameLines word name (start + 1) ls := by
      rw [renameLines, List.zipIdx_cons, List.filterMap_cons]
      dsimp only
      cases lineEdit? word name l start <;> rfl
    rw [hcons, List.find?_append]
    rw [List.zipIdx_cons, List.mem_cons] at hmem
    rcases hmem with heq | hmem
    · -- the edits of all later lines have larger numbers.
      obtain ⟨rfl, rfl⟩ := Prod.mk.inj heq
      have hlater : (renameLines word name (number + 1) ls).find? (·.range.start.line = number) =
          none := by
        rw [List.find?_eq_none]
        intro e he
        have hle := start_le_of_mem_renameLines he
        simp only [decide_eq_true_eq]
        omega
      rw [hlater]
      cases hedit : lineEdit? word name line number with
      | none => rfl
      | some e => simp [line_of_lineEdit? hedit]
    · have hlt := List.le_snd_of_mem_zipIdx hmem
      have hne : start ≠ number := by
        simp only at hlt
        omega
      rw [ih hmem]
      cases hedit : lineEdit? word name l start with
      | none => rfl
      | some e => simp [line_of_lineEdit? hedit, hne]

/-- A line with the occurrences of a word replaced. -/
def Line.rename (word name : List Char) (line : Line) : Line :=
  line.mapBody (replaceOccurrences word name)

/-- A line with its edit applied is the renamed line, also when there is no edit. -/
theorem elim_lineEdit? {word name : List Char} (hword : isName word = true) (line : Line)
    (number : Nat) :
    (lineEdit? word name line.body number).elim line line.edit = line.rename word name := by
  unfold lineEdit?
  split
  · next hnone =>
    simp [Line.rename, Line.mapBody, replaceOccurrences_of_not_occurs hword hnone]
  · simp [Line.rename, Line.edit, Line.mapBody]

/-- **A renaming, applied**: the text with every line renamed, each with the end that it had. -/
theorem toList_applyEdits {word name : List Char} (hword : isName word = true) (text : String) :
    (applyEdits (renameLines word name 0 (lines text.toList)) text).toList =
      ((splitLines text.toList).map (Line.rename word name)).flatMap Line.source := by
  -- a line has at most one edit, its own, which is found by its number.
  have hline : ∀ entry ∈ (splitLines text.toList).zipIdx,
      (((renameLines word name 0 (lines text.toList)).find?
        (·.range.start.line = entry.2)).elim entry.1 entry.1.edit).source =
      (entry.1.rename word name).source := by
    rintro ⟨line, number⟩ hmem
    have hbody : (line.body, number) ∈ (lines text.toList).zipIdx := by
      rw [lines, List.zipIdx_map]
      exact List.mem_map.mpr ⟨_, hmem, rfl⟩
    rw [find?_renameLines hbody, elim_lineEdit? hword]
  rw [applyEdits, String.toList_ofList]
  calc (splitLines text.toList).zipIdx.flatMap _
      = (splitLines text.toList).zipIdx.flatMap fun entry =>
          (entry.1.rename word name).source := List.flatMap_congr hline
    _ = ((splitLines text.toList).map (Line.rename word name)).flatMap Line.source := by
        rw [List.flatMap_map, ← List.zipIdx_map_fst 0 (splitLines text.toList), List.flatMap_map,
          List.zipIdx_map_fst]

/-- **The lines of a renamed text** are its lines with the occurrences replaced. -/
theorem splitLines_applyEdits {word name : List Char} (hword : isName word = true)
    (hname : isName name = true) (text : String) :
    splitLines (applyEdits (renameLines word name 0 (lines text.toList)) text).toList =
      (splitLines text.toList).map (Line.rename word name) := by
  rw [toList_applyEdits hword]
  refine splitLines_flatMap_source ((wellCut_splitLines text.toList).map ?_ ?_ ?_)
  · intro body hfeed hmem
    rcases mem_of_mem_replaceOccurrences hword hmem with hline | hnew
    · exact hfeed hline
    · exact absurd (isNameChar_of_mem hname hnew) (by decide)
  · intro body hbody
    exact replaceOccurrences_ne_nil hword hname hbody
  · intro body hreturn hlast
    rcases getLast?_replaceOccurrences hword hname body with hsame | hnew
    · exact hreturn (hsame ▸ hlast)
    · rw [hlast] at hnew
      exact absurd hnew (by decide)

/-- The lines of the renamed text are the renamed lines. Names have no line feeds and no carriage
returns, so the text is cut where it was. -/
theorem lines_applyEdits {word name : List Char} (hword : isName word = true)
    (hname : isName name = true) (text : String) :
    lines (applyEdits (renameLines word name 0 (lines text.toList)) text).toList =
      (lines text.toList).map (replaceOccurrences word name) := by
  rw [lines, splitLines_applyEdits hword hname, lines, List.map_map, List.map_map]
  rfl

/-- A line of a text stands in the text. -/
theorem infix_of_mem_lines {text body : List Char} (h : body ∈ lines text) : body <:+: text := by
  obtain ⟨line, hline, rfl⟩ := List.mem_map.mp h
  obtain ⟨before, after, hsplit⟩ := List.append_of_mem hline
  refine ⟨before.flatMap Line.source, line.ending.source ++ after.flatMap Line.source, ?_⟩
  rw [← source_lines text, hsplit]
  simp [Line.source]

end KspWorkbench
