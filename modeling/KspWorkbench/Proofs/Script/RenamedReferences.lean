import KspWorkbench.Proofs.Script.Matches
import Mathlib.Data.List.Sort

/-!
# References and what a renaming replaces

The references of a declared name are all places where it stands alone, in the order of the text.
A renaming of the name edits the lines of these references and no others, and each edit replaces the
name just there.

* **`references_exact`** — which positions the references are, and their order.
* **`EditsAt`** — edits that replace a word at given positions and leave all else as it is.
* **`rename_replaces_references`** — the edits of a renaming are such edits for the references, and
  the name under the cursor is one of them.
-/

namespace KspWorkbench

/-! ## §1 — the order of the references -/

theorem Position.lt_iff {p q : Position} :
    p < q ↔ p.line < q.line ∨ (p.line = q.line ∧ p.character < q.character) :=
  Iff.rfl

theorem pairwise_zipIdx {α : Type} (xs : List α) (start : Nat) :
    (xs.zipIdx start).Pairwise (fun a b => a.2 < b.2) := by
  rw [← List.pairwise_map, List.zipIdx_map_snd]
  exact List.pairwise_lt_range'

/-- The occurrences of a line are found from left to right. -/
theorem pairwise_lt_occurrences {word : List Char} (hword : word ≠ []) (line : List Char) :
    (occurrences word line).Pairwise (· < ·) := by
  have hpos := List.length_pos_iff.mpr hword
  exact (pairwise_occurrences hword line).imp fun happart => by omega

/-- The positions of a word are found in the order of the text. -/
theorem pairwise_positionsIn {word : List Char} (hword : word ≠ []) (ls : List (List Char)) :
    (positionsIn word ls.zipIdx).Pairwise (· < ·) := by
  rw [positionsIn, List.pairwise_flatMap]
  refine ⟨fun entry _ => ?_, (pairwise_zipIdx ls 0).imp fun hlt p hp q hq => ?_⟩
  · rw [List.pairwise_map]
    exact (pairwise_lt_occurrences hword entry.1).imp fun hlt => Or.inr ⟨rfl, hlt⟩
  · obtain ⟨_, -, rfl⟩ := List.mem_map.mp hp
    obtain ⟨_, -, rfl⟩ := List.mem_map.mp hq
    exact Or.inl hlt

/-- The references of a declared name are its occurrences in all lines. -/
theorem references_of_declared {text : String} {p : Position} {word : List Char}
    (hword : wordAt? text p = some word)
    (hdeclared : declares (collect text) (String.ofList word) = true) :
    references text p = positionsIn word (lines text.toList).zipIdx := by
  rw [references_of_wordAt? hword, if_pos hdeclared]

/-- **The references of a declared name** are the places where it stands alone, each listed once and
in the order of the text. The search that looks at no stretch twice meets all of them. -/
theorem references_exact {text : String} {p : Position} {word : List Char}
    (hword : wordAt? text p = some word)
    (hdeclared : declares (collect text) (String.ofList word) = true) :
    (references text p).Pairwise (· < ·) ∧ (references text p).Nodup ∧
      (∀ q, q ∈ references text p ↔
        ∃ line front back, (lines text.toList)[q.line]? = some line ∧
          OccursIn word line front back ∧ front.length = q.character) ∧
      ∀ line front back, OccursIn word line front back →
        front.length ∈ matchColumns word line := by
  have hname := isName_of_declares hdeclared
  have hne := ne_nil_of_isName hname
  have hsorted : (references text p).Pairwise (· < ·) := by
    rw [references_of_declared hword hdeclared]
    exact pairwise_positionsIn hne _
  refine ⟨hsorted, hsorted.imp fun hlt => ?_, fun q => ?_, fun line front back hoccurs => ?_⟩
  · rintro rfl
    rw [Position.lt_iff] at hlt
    omega
  -- the word is a name, and no occurrence of a name hides another one from the search.
  · rw [references_of_declared hword hdeclared, mem_positionsIn_iff]
    simp only [mem_occurrences_iff hname, ← exists_and_left]
  · exact (exists_occursIn hne ((mem_occurrences_iff hname).mpr ⟨front, back, hoccurs, rfl⟩)).1

/-- Two uses of a variable on one line, behind a letter of two bytes and beside a longer name. -/
theorem references_exact_behind_accent :
    (references "declare $x\né, $x + $xx - $x" ⟨0, 8⟩).Pairwise (· < ·) ∧
      ⟨1, 3⟩ ∈ references "declare $x\né, $x + $xx - $x" ⟨0, 8⟩ ∧
      ⟨1, 14⟩ ∈ references "declare $x\né, $x + $xx - $x" ⟨0, 8⟩ := by
  have hword : wordAt? "declare $x\né, $x + $xx - $x" ⟨0, 8⟩ = some ['$', 'x'] := by decide +kernel
  have hdeclared : declares (collect "declare $x\né, $x + $xx - $x") (String.ofList ['$', 'x']) =
      true := by
    decide +kernel
  obtain ⟨hsorted, -, hmem, -⟩ := references_exact hword hdeclared
  have hline : (lines "declare $x\né, $x + $xx - $x".toList)[1]? =
      some "é, $x + $xx - $x".toList := by
    decide +kernel
  refine ⟨hsorted,
    (hmem _).mpr ⟨_, "é, ".toList, " + $xx - $x".toList, hline, ?_, by decide +kernel⟩,
    (hmem _).mpr ⟨_, "é, $x + $xx - ".toList, [], hline, ?_, by decide +kernel⟩⟩
  · exact ⟨by decide +kernel, by decide +kernel, by decide +kernel⟩
  · exact ⟨by decide +kernel, by decide +kernel, by decide +kernel⟩

/-! ## §2 — edits at positions -/

/-- The columns of those positions that are on one line. -/
def columnsOn (number : Nat) (positions : List Position) : List Nat :=
  (positions.filter (·.line = number)).map (·.character)

/-- **Edits that replace a word at positions** of a text and leave all else as it is. -/
structure EditsAt (word name : List Char) (positions : List Position) (text : String)
    (edits : List LineEdit) : Prop where
  increasing : (edits.map (·.range.start.line)).Pairwise (· < ·)
  -- the lines that are edited are those with a position.
  edited : ∀ number, number ∈ edits.map (·.range.start.line) ↔ number ∈ positions.map (·.line)
  -- an edit replaces a line as a whole, without its end.
  whole : ∀ e ∈ edits, ∃ line, (lines text.toList)[e.range.start.line]? = some line ∧
    e.range = ⟨⟨e.range.start.line, 0⟩, ⟨e.range.start.line, line.length⟩⟩
  -- line by line, the word is replaced at the positions, and the end of the line stays.
  applied : ∃ ls : List Line, (applyEdits edits text).toList = ls.flatMap Line.source ∧
    ls.length = (splitLines text.toList).length ∧
    ∀ number line line', (splitLines text.toList)[number]? = some line →
      ls[number]? = some line' → line'.ending = line.ending ∧
        Replaced word name 0 (columnsOn number positions) line.body line'.body

theorem mem_columnsOn {number column : Nat} {positions : List Position} :
    column ∈ columnsOn number positions ↔ ⟨number, column⟩ ∈ positions := by
  simp only [columnsOn, List.mem_map, List.mem_filter, decide_eq_true_eq]
  constructor
  · rintro ⟨q, ⟨hq, rfl⟩, rfl⟩
    exact hq
  · intro hmem
    exact ⟨_, ⟨hmem, rfl⟩, rfl⟩

/-- On each line the positions of a word are its occurrences. -/
theorem columnsOn_positionsIn {word : List Char} (hword : word ≠ []) {ls : List (List Char)}
    {number : Nat} {line : List Char} (hline : ls[number]? = some line) :
    columnsOn number (positionsIn word ls.zipIdx) = occurrences word line := by
  -- both are increasing, so it is enough that they have the same members.
  have hsorted : (columnsOn number (positionsIn word ls.zipIdx)).Pairwise (· < ·) := by
    rw [columnsOn, List.pairwise_map]
    refine ((pairwise_positionsIn hword ls).filter _).imp_of_mem fun hp hq hlt => ?_
    have hsame := (decide_eq_true_eq.mp (List.mem_filter.mp hp).2).trans
      (decide_eq_true_eq.mp (List.mem_filter.mp hq).2).symm
    rw [Position.lt_iff] at hlt
    omega
  refine hsorted.eq_of_mem_iff (pairwise_lt_occurrences hword line) fun column => ?_
  rw [mem_columnsOn, mem_positionsIn_iff]
  simp [hline]

/-- A line is edited when the word occurs in it, and then as a whole. -/
theorem lineEdit?_eq_some_iff {word name line : List Char} {number : Nat} {e : LineEdit} :
    lineEdit? word name line number = some e ↔
      occurrences word line ≠ [] ∧
        e = ⟨⟨⟨number, 0⟩, ⟨number, line.length⟩⟩,
          String.ofList (replaceOccurrences word name line)⟩ := by
  rw [lineEdit?]
  split
  · next hnone => simp [hnone]
  · next hsome => simp [hsome, eq_comm]

/-- **What a renaming edits**: the lines in which the word was found, each as a whole. -/
theorem mem_renameLines_iff {word name : List Char} {ls : List (List Char)} {e : LineEdit} :
    e ∈ renameLines word name 0 ls ↔
      ∃ number line, ls[number]? = some line ∧ occurrences word line ≠ [] ∧
        e = ⟨⟨⟨number, 0⟩, ⟨number, line.length⟩⟩,
          String.ofList (replaceOccurrences word name line)⟩ := by
  simp only [renameLines, List.mem_filterMap, Prod.exists, List.mk_mem_zipIdx_iff_getElem?,
    lineEdit?_eq_some_iff]
  exact exists_comm

/-- The edits of a renaming come in the order of their lines, with one at most for each. -/
theorem pairwise_renameLines (word name : List Char) (ls : List (List Char)) :
    ((renameLines word name 0 ls).map (·.range.start.line)).Pairwise (· < ·) := by
  rw [renameLines, List.pairwise_map, List.pairwise_filterMap]
  refine (pairwise_zipIdx ls 0).imp fun hlt e he e' he' => ?_
  rw [line_of_lineEdit? he, line_of_lineEdit? he']
  exact hlt

/-- **The edits of a renaming** replace the word at its positions. -/
theorem editsAt_renameLines {word : List Char} (hword : isName word = true) (name : List Char)
    (text : String) :
    EditsAt word name (positionsIn word (lines text.toList).zipIdx) text
      (renameLines word name 0 (lines text.toList)) := by
  have hne := ne_nil_of_isName hword
  refine ⟨pairwise_renameLines word name _, fun number => ?_, fun e he => ?_, ?_⟩
  · simp only [List.mem_map, mem_renameLines_iff, mem_positionsIn_iff]
    constructor
    · rintro ⟨_, ⟨number, line, hline, hsome, rfl⟩, rfl⟩
      obtain ⟨column, hcolumn⟩ := List.exists_mem_of_ne_nil _ hsome
      exact ⟨⟨number, column⟩, ⟨line, hline, hcolumn⟩, rfl⟩
    · rintro ⟨q, ⟨line, hline, hcolumn⟩, rfl⟩
      exact ⟨_, ⟨q.line, line, hline, List.ne_nil_of_mem hcolumn, rfl⟩, rfl⟩
  · obtain ⟨number, line, hline, -, rfl⟩ := mem_renameLines_iff.mp he
    exact ⟨line, hline, rfl⟩
  -- the lines of the edited text are the renamed ones, whose columns are those of the positions.
  · refine ⟨(splitLines text.toList).map (Line.rename word name), toList_applyEdits hword text,
      List.length_map _, fun number line line' hline hline' => ?_⟩
    have hbody : (lines text.toList)[number]? = some line.body := by
      rw [lines, List.getElem?_map, hline]
      rfl
    rw [List.getElem?_map, hline] at hline'
    obtain rfl : line.rename word name = line' := Option.some.inj hline'
    rw [columnsOn_positionsIn hne hbody]
    exact ⟨rfl, replaced_occurrences hne name line.body⟩

/-- The word under the cursor is itself one of its references: it stands alone there, since tokens
end at boundary characters. -/
theorem exists_reference_under_cursor {text : String} {p : Position} {word : List Char}
    (hword : wordAt? text p = some word)
    (hdeclared : declares (collect text) (String.ofList word) = true) :
    ∃ line q, (lines text.toList)[p.line]? = some line ∧ q ∈ references text p ∧
      q.line = p.line ∧ q.character ≤ min p.character line.length ∧
      min p.character line.length ≤ q.character + word.length := by
  obtain ⟨-, line, hline, htoken⟩ := wordAt?_eq_some_iff.mp hword
  obtain ⟨front, back, hstretch, hfrom, hto, -, -⟩ :=
    stretch_under_cursor (isName_of_declares hdeclared) htoken
  have hoccurs : OccursIn word line front back :=
    ⟨hstretch.split, hstretch.before, hstretch.behind⟩
  refine ⟨line, ⟨p.line, front.length⟩, hline, ?_, rfl, hfrom, hto⟩
  exact mem_references_iff.mpr ⟨word, line, front, back, hword, hdeclared, hline, hoccurs, rfl⟩

/-- **A renaming replaces the references and nothing else.** A declared name that is neither a
keyword nor a literal, or that begins with a sigil, is renamed by edits that replace it at its
references, one of which is under the cursor. -/
theorem rename_replaces_references {text newName : String} {p : Position} {word : List Char}
    (hword : wordAt? text p = some word)
    (hdeclared : declares (collect text) (String.ofList word) = true)
    (haccepted : isVariableName word = true ∨ (isKeyword word = false ∧ isLiteral word = false))
    (hname : newName ≠ "") :
    ∃ edits, rename text p newName = .ok edits ∧
      EditsAt word newName.toList (references text p) text edits ∧
      ∃ line q, (lines text.toList)[p.line]? = some line ∧ q ∈ references text p ∧
        q.line = p.line ∧ q.character ≤ min p.character line.length ∧
        min p.character line.length ≤ q.character + word.length := by
  have htarget := renameTarget_eq_ok_iff.mpr ⟨hname, hword, haccepted⟩
  refine ⟨_, rename_eq_ok_iff.mpr ⟨word, htarget, rfl⟩, ?_,
    exists_reference_under_cursor hword hdeclared⟩
  rw [references_of_declared hword hdeclared]
  exact editsAt_renameLines (isName_of_declares hdeclared) newName.toList text

/-- A text with both ways to end a line and with none at its end, and a cursor past the end of its
line. -/
theorem rename_replaces_references_of_loop :
    ∃ edits, rename "declare $i\r\n$i := $i + $ii\ninc($i)" ⟨0, 99⟩ "$step" = .ok edits ∧
      EditsAt "$i".toList "$step".toList
        (references "declare $i\r\n$i := $i + $ii\ninc($i)" ⟨0, 99⟩)
        "declare $i\r\n$i := $i + $ii\ninc($i)" edits := by
  have hword : wordAt? "declare $i\r\n$i := $i + $ii\ninc($i)" ⟨0, 99⟩ = some "$i".toList := by
    decide +kernel
  have hdeclared : declares (collect "declare $i\r\n$i := $i + $ii\ninc($i)")
      (String.ofList "$i".toList) = true := by
    decide +kernel
  obtain ⟨edits, hedits, hat, -⟩ := rename_replaces_references hword hdeclared
    (Or.inl (by decide +kernel)) (by decide : "$step" ≠ "")
  exact ⟨edits, hedits, hat⟩

end KspWorkbench
