import KspWorkbench.Proofs.Script.Declarations
import KspWorkbench.Proofs.Script.Editing
import KspWorkbench.Proofs.Script.Tokens

/-!
# Renaming can be undone

A declared name is renamed to one that occurs nowhere in the text. The new name then stands on the
cursor's line, and renaming it back gives the text as it was.

* **`renameTarget_eq_ok_iff`** — when a renaming is accepted, and for which word.
* **`applyEdits_cancel`** — the edits of a renaming and those of the renaming back cancel out.
* **`exists_wordAt?_renamed`** — the new name stands on the line of the cursor.
* **`rename_undone`** — the whole: renaming, finding the new name and renaming back.
-/

namespace KspWorkbench

/-- **When a renaming is accepted**: a new name is given, and the word under the cursor is that of a
variable or neither a keyword nor a literal. -/
theorem renameTarget_eq_ok_iff {text newName : String} {p : Position} {word : List Char} :
    renameTarget text p newName = .ok word ↔
      newName ≠ "" ∧ wordAt? text p = some word ∧
        (isVariableName word = true ∨ (isKeyword word = false ∧ isLiteral word = false)) := by
  unfold renameTarget
  by_cases hempty : newName = ""
  · simp [hempty]
  · cases hword : wordAt? text p with
    | none => simp [hempty]
    | some found =>
      -- a variable is accepted before keywords and literals are looked at.
      constructor
      · intro h
        rw [if_neg hempty] at h
        dsimp only at h
        split at h
        · next hvariable =>
          cases h
          exact ⟨hempty, rfl, Or.inl hvariable⟩
        split at h
        · cases h
        · next hkeyword =>
          split at h
          · cases h
          · next hliteral =>
            cases h
            exact ⟨hempty, rfl, Or.inr ⟨by simpa using hkeyword, by simpa using hliteral⟩⟩
      · rintro ⟨-, hfound, haccepted⟩
        cases hfound
        rcases haccepted with hvariable | ⟨hkeyword, hliteral⟩
        · simp [hempty, hvariable]
        · simp [hempty, hkeyword, hliteral]

/-- The word at a position is the token of its line, if that is not empty. -/
theorem wordAt?_eq_some_iff {text : String} {p : Position} {word : List Char} :
    wordAt? text p = some word ↔
      word ≠ [] ∧ ∃ line, (lines text.toList)[p.line]? = some line ∧
        tokenAt line p.character = word := by
  simp only [wordAt?, Option.bind_eq_bind, Option.bind_eq_some_iff]
  constructor
  · rintro ⟨line, hline, h⟩
    split at h
    · cases h
    · next hne =>
      cases h
      exact ⟨hne, line, hline, rfl⟩
  · rintro ⟨hne, line, hline, rfl⟩
    exact ⟨line, hline, if_neg hne⟩

/-- What a renaming asks of the text is its word, and what it gives are the edits of all lines. -/
theorem rename_eq_ok_iff {text newName : String} {p : Position} {edits : List LineEdit} :
    rename text p newName = .ok edits ↔
      ∃ word, renameTarget text p newName = .ok word ∧
        edits = renameLines word newName.toList 0 (lines text.toList) := by
  rw [rename_eq_map]
  cases renameTarget text p newName with
  | error e => simp [Except.map]
  | ok word => simp [Except.map, eq_comm]

section Undo

variable {word name : List Char}

/-- **The edits cancel out**: those that put a fresh name in the place of a word, and those that put
the word in the place of the name. -/
theorem applyEdits_cancel (hword : isName word = true) (hname : isName name = true) (text : String)
    (hfresh : ¬ name <:+: text.toList) :
    let renamed := applyEdits (renameLines word name 0 (lines text.toList)) text
    applyEdits (renameLines name word 0 (lines renamed.toList)) renamed = text := by
  intro renamed
  -- line by line, the occurrences are replaced and replaced again.
  have hline : ∀ line ∈ splitLines text.toList, (line.rename word name).rename name word = line := by
    intro line hline
    have hin : line.body <:+: text.toList := infix_of_mem_lines (List.mem_map_of_mem hline)
    have hbody : replaceOccurrences name word (replaceOccurrences word name line.body) = line.body :=
      replaceOccurrences_cancel hword hname fun h => hfresh (h.trans hin)
    simp [Line.rename, Line.mapBody, hbody]
  rw [← String.toList_inj, toList_applyEdits hname, splitLines_applyEdits hword hname, List.map_map]
  calc ((splitLines text.toList).map (Line.rename name word ∘ Line.rename word name)).flatMap
        Line.source
      = ((splitLines text.toList).map id).flatMap Line.source :=
        congrArg (List.flatMap Line.source) (List.map_congr_left hline)
    _ = text.toList := by rw [List.map_id, source_lines]

/-- The word under the cursor, if it is a name, is replaced where it stands. -/
theorem exists_tokenAt_replaceOccurrences (hword : isName word = true) (hname : isName name = true)
    {line : List Char} {column : Nat} (h : tokenAt line column = word) :
    ∃ column', tokenAt (replaceOccurrences word name line) column' = name := by
  obtain ⟨front, back, hstretch, hfront_quote, hback_quote⟩ := stretch_of_tokenAt hword h
  have hbefore := hstretch.before
  have hbehind := hstretch.behind
  obtain ⟨rfl, -, hfront, hback⟩ := hstretch
  obtain ⟨front', back', hsplit, hlast, hhead⟩ :=
    replaceOccurrences_around hword hbefore hbehind
  -- between the same boundaries the new name is a stretch of its own.
  have hstretch' : Stretch (replaceOccurrences word name (front ++ word ++ back)) front' name
      back' :=
    { split := hsplit
      inner := fun c hc => isBoundary_of_isNameChar (isNameChar_of_mem hname hc)
      front_boundary := by rwa [hlast]
      back_boundary := by rwa [hhead] }
  refine ⟨front'.length, ?_⟩
  rw [tokenAt_of_stretch hstretch' (Nat.le_refl _) (Nat.le_add_right _ _),
    leadingQuote_eq_nil (by simpa [hlast] using hfront_quote),
    leadingQuote_eq_nil (by simpa [hhead] using hback_quote)]
  simp

/-- **The new name stands on the line of the cursor.** -/
theorem exists_wordAt?_renamed (hword : isName word = true) (hname : isName name = true)
    {text : String} {p : Position} (h : wordAt? text p = some word) :
    ∃ p', p'.line = p.line ∧
      wordAt? (applyEdits (renameLines word name 0 (lines text.toList)) text) p' = some name := by
  obtain ⟨-, line, hline, htoken⟩ := wordAt?_eq_some_iff.mp h
  obtain ⟨column, hcolumn⟩ := exists_tokenAt_replaceOccurrences hword hname htoken
  refine ⟨⟨p.line, column⟩, rfl, wordAt?_eq_some_iff.mpr ⟨ne_nil_of_isName hname, _, ?_, hcolumn⟩⟩
  rw [lines_applyEdits hword hname, List.getElem?_map, hline]
  rfl

end Undo

/-- **Renaming can be undone.** A declared name is renamed to one that occurs nowhere in the text;
then a position on the cursor's line has the new name, and from every position that has it, renaming
back is accepted and its edits restore the text. -/
theorem rename_undone {text newName : String} {p : Position} {word : List Char}
    {edits : List LineEdit} (hword : wordAt? text p = some word)
    (hdeclared : declares (collect text) (String.ofList word) = true)
    (hedits : rename text p newName = .ok edits) (hname : isName newName.toList = true)
    (hkeyword : isKeyword newName.toList = false) (hliteral : isLiteral newName.toList = false)
    (hfresh : ¬ newName.toList <:+: text.toList) :
    (∃ p', p'.line = p.line ∧ wordAt? (applyEdits edits text) p' = some newName.toList) ∧
      ∀ p', wordAt? (applyEdits edits text) p' = some newName.toList →
        ∃ back, rename (applyEdits edits text) p' (String.ofList word) = .ok back ∧
          applyEdits back (applyEdits edits text) = text := by
  have hisName : isName word = true := isName_of_declares hdeclared
  obtain ⟨target, htarget, rfl⟩ := rename_eq_ok_iff.mp hedits
  obtain ⟨-, hfound, -⟩ := renameTarget_eq_ok_iff.mp htarget
  obtain rfl : word = target := Option.some.inj (hword.symm.trans hfound)
  refine ⟨exists_wordAt?_renamed hisName hname hword, fun p' hp' => ?_⟩
  have hnonempty : String.ofList word ≠ "" := by
    rw [Ne, ← String.toList_inj, String.toList_ofList]
    exact ne_nil_of_isName hisName
  -- the new name is no keyword and no literal, so it can be renamed back at every place where it
  -- is found.
  have haccepted := renameTarget_eq_ok_iff.mpr ⟨hnonempty, hp', Or.inr ⟨hkeyword, hliteral⟩⟩
  refine ⟨_, rename_eq_ok_iff.mpr ⟨_, haccepted, rfl⟩, ?_⟩
  rw [String.toList_ofList]
  exact applyEdits_cancel hisName hname text hfresh

/-- A text with two ways to end a line, and the edits of a renaming on its second line. -/
theorem rename_undone_counter :
    ∃ edits, rename "declare $n\r\n$n := $n + 1\n$nn := 0" ⟨1, 1⟩ "$count" = .ok edits ∧
      ∃ p' back, wordAt? (applyEdits edits "declare $n\r\n$n := $n + 1\n$nn := 0") p' =
          some "$count".toList ∧
        rename (applyEdits edits "declare $n\r\n$n := $n + 1\n$nn := 0") p' "$n" = .ok back ∧
        applyEdits back (applyEdits edits "declare $n\r\n$n := $n + 1\n$nn := 0") =
          "declare $n\r\n$n := $n + 1\n$nn := 0" := by
  have hword : wordAt? "declare $n\r\n$n := $n + 1\n$nn := 0" ⟨1, 1⟩ = some ['$', 'n'] := by decide +kernel
  have hdeclared : declares (collect "declare $n\r\n$n := $n + 1\n$nn := 0")
      (String.ofList ['$', 'n']) = true := by
    decide +kernel
  have htarget : renameTarget "declare $n\r\n$n := $n + 1\n$nn := 0" ⟨1, 1⟩ "$count" =
      .ok ['$', 'n'] := by
    decide +kernel
  have hfresh : ¬ "$count".toList <:+: "declare $n\r\n$n := $n + 1\n$nn := 0".toList := by
    simp only [String.reduceToList]
    decide
  have hedits := rename_eq_ok_iff.mpr ⟨_, htarget, rfl⟩
  obtain ⟨⟨p', -, hp'⟩, hback⟩ :=
    rename_undone hword hdeclared hedits (by decide +kernel) (by decide +kernel) (by decide +kernel) hfresh
  obtain ⟨back, hrename, happly⟩ := hback p' hp'
  exact ⟨_, hedits, p', back, hp', hrename, happly⟩

end KspWorkbench
