import KspWorkbench.Proofs.Script.Undo

/-!
# References

The references of a name are its occurrences in all lines. The search that finds them is said by
what stands around an occurrence (`OccursIn`), and the token under a cursor by what stands around a
stretch (`Stretch`). The two do not ask for the same characters around a name: an occurrence can
stand next to a double quote, and the token there keeps the quote.

* **`mem_occurrences_iff`**, **`mem_references_iff`** — what is found, with nothing said of the
  search.
* **`wordAt?_of_occursIn`** — the token at an occurrence between boundaries.
* **`references_closed`** — from which references the same references are found again.
-/

namespace KspWorkbench

/-! ## §1 — occurrences -/

/-- `word` stands alone in `line`, between `front` and `back`. -/
structure OccursIn (word line front back : List Char) : Prop where
  split : line = front ++ word ++ back
  before : front.getLast?.any isNameChar = false
  behind : back.head?.any isIdentifierChar = false

/-- An occurrence is a stretch that spells the word and stands alone. -/
theorem occursIn_iff {word line front back : List Char} :
    OccursIn word line front back ↔
      line = front ++ word ++ back ∧ standsAlone front.getLast? back = true := by
  rw [standsAlone_eq, Bool.and_eq_true, Bool.not_eq_true', Bool.not_eq_true']
  exact ⟨fun h => ⟨h.split, h.before, h.behind⟩, fun h => ⟨h.1, h.2.1, h.2.2⟩⟩

/-- Behind a name that occurs at the front, the next occurrence begins behind all of it. -/
theorem split_of_occurs_twice {word rest front back : List Char} (hword : isName word = true)
    {before : Option Char} (hsplit : word ++ rest = front ++ word ++ back)
    (halone : standsAlone (front.getLast?.or before) back = true) :
    front = [] ∨ ∃ more, front = word ++ more ∧ rest = more ++ word ++ back := by
  rw [List.append_assoc] at hsplit
  rcases List.append_eq_append_iff.mp hsplit with ⟨more, hfront, hrest⟩ | ⟨more, hinside, -⟩
  · exact Or.inr ⟨more, hfront, by rw [hrest, List.append_assoc]⟩
  · left
    -- inside the name a name character stands before everything.
    rcases List.eq_nil_or_concat front with hnil | ⟨init, c, rfl⟩
    · exact hnil
    · have hc : isNameChar c = true := isNameChar_of_mem hword (by rw [hinside]; simp)
      simp [standsAlone_eq, hc] at halone

theorem getLast?_append_or {word : List Char} (hword : word ≠ []) (front : List Char)
    (before : Option Char) :
    (word ++ front).getLast?.or before = front.getLast?.or word.getLast? := by
  rw [List.getLast?_append, Option.or_assoc, List.getLast?_eq_some_getLast hword, Option.some_or]

/-- **The columns of a cut line** are those at which the word stands alone. -/
theorem Cut.mem_columnsFrom_iff {word line : List Char} {before : Option Char}
    {segs : List Segment} (hword : isName word = true) (h : Cut word before line segs)
    {start column : Nat} :
    column ∈ columnsFrom word.length start segs ↔
      ∃ front back, line = front ++ word ++ back ∧
        standsAlone (front.getLast?.or before) back = true ∧ column = start + front.length := by
  -- by induction on the cut; inside an occurrence no other one can begin, which is where the
  -- word has to be a name.
  induction h generalizing start with
  | nil =>
    simp only [columnsFrom, List.not_mem_nil, false_iff]
    rintro ⟨front, back, hsplit, -, -⟩
    simp [ne_nil_of_isName hword] at hsplit
  | @found before rest segs halone hrest ih =>
    rw [columnsFrom, List.mem_cons, ih]
    constructor
    · rintro (rfl | ⟨front, back, rfl, hstands, rfl⟩)
      · exact ⟨[], rest, rfl, halone, rfl⟩
      · refine ⟨word ++ front, back, by simp, ?_, by rw [List.length_append]; omega⟩
        rwa [getLast?_append_or (ne_nil_of_isName hword)]
    · rintro ⟨front, back, hsplit, hstands, rfl⟩
      rcases split_of_occurs_twice hword hsplit hstands with rfl | ⟨more, rfl, rfl⟩
      · exact Or.inl rfl
      · rw [getLast?_append_or (ne_nil_of_isName hword)] at hstands
        exact Or.inr ⟨more, back, rfl, hstands, by rw [List.length_append]; omega⟩
  | @other before c rest segs hother hrest ih =>
    rw [columnsFrom, ih]
    constructor
    · rintro ⟨front, back, rfl, hstands, rfl⟩
      refine ⟨c :: front, back, rfl, ?_, by rw [List.length_cons]; omega⟩
      rwa [getLast?_cons_or]
    · rintro ⟨front, back, hsplit, hstands, rfl⟩
      cases front with
      | nil =>
        have hnot : standsAlone before back = false := hother back hsplit
        exact absurd hstands (by simp [hnot])
      | cons d front =>
        obtain ⟨rfl, rfl⟩ := List.cons.inj hsplit
        rw [getLast?_cons_or] at hstands
        exact ⟨front, back, rfl, hstands, by rw [List.length_cons]; omega⟩

/-- **The search finds every occurrence of a name**, and nothing else. -/
theorem mem_occurrences_iff {word line : List Char} (hword : isName word = true) {column : Nat} :
    column ∈ occurrences word line ↔
      ∃ front back, OccursIn word line front back ∧ front.length = column := by
  rw [occurrences, (cut_segments hword line).mem_columnsFrom_iff hword]
  simp only [occursIn_iff, Option.or_none, Nat.zero_add, and_assoc, eq_comm]

/-- A position is listed when its line has an occurrence at its column. -/
theorem mem_positionsIn_iff {word : List Char} {ls : List (List Char)} {p : Position} :
    p ∈ positionsIn word ls.zipIdx ↔
      ∃ line, ls[p.line]? = some line ∧ p.character ∈ occurrences word line := by
  simp only [positionsIn, List.mem_flatMap, List.mem_map, Prod.exists,
    List.mk_mem_zipIdx_iff_getElem?]
  constructor
  · rintro ⟨line, number, hline, column, hcolumn, rfl⟩
    exact ⟨line, hline, hcolumn⟩
  · rintro ⟨line, hline, hcolumn⟩
    exact ⟨line, p.line, hline, p.character, hcolumn, rfl⟩

/-- The references from a cursor depend on the word under it alone. -/
theorem references_of_wordAt? {text : String} {p : Position} {word : List Char}
    (hword : wordAt? text p = some word) :
    references text p =
      if declares (collect text) (String.ofList word) then
        positionsIn word (lines text.toList).zipIdx
      else [] := by
  rw [references, hword]

/-- **What the references are**: the places where the word under the cursor, a declared name, stands
alone. -/
theorem mem_references_iff {text : String} {p₀ p : Position} :
    p ∈ references text p₀ ↔
      ∃ word line front back, wordAt? text p₀ = some word ∧
        declares (collect text) (String.ofList word) = true ∧
        (lines text.toList)[p.line]? = some line ∧ OccursIn word line front back ∧
        front.length = p.character := by
  constructor
  · intro hp
    cases hword : wordAt? text p₀ with
    | none => rw [references, hword] at hp; cases hp
    | some word =>
      rw [references_of_wordAt? hword] at hp
      split at hp
      · next hdeclared =>
        obtain ⟨line, hline, hcolumn⟩ := mem_positionsIn_iff.mp hp
        obtain ⟨front, back, hoccurs, hlength⟩ :=
          (mem_occurrences_iff (isName_of_declares hdeclared)).mp hcolumn
        exact ⟨word, line, front, back, rfl, hdeclared, hline, hoccurs, hlength⟩
      · cases hp
  · rintro ⟨word, line, front, back, hword, hdeclared, hline, hoccurs, hlength⟩
    rw [references_of_wordAt? hword, if_pos hdeclared]
    have hcolumn := (mem_occurrences_iff (isName_of_declares hdeclared)).mpr
      ⟨front, back, hoccurs, hlength⟩
    exact mem_positionsIn_iff.mpr ⟨line, hline, hcolumn⟩

/-- At a place where the line spells the word, being a reference is standing alone. -/
theorem mem_references_at_iff {text : String} {p₀ p : Position} {word line front back : List Char}
    (hword : wordAt? text p₀ = some word)
    (hdeclared : declares (collect text) (String.ofList word) = true)
    (hline : (lines text.toList)[p.line]? = some line) (hsplit : line = front ++ word ++ back)
    (hcolumn : front.length = p.character) :
    p ∈ references text p₀ ↔ OccursIn word line front back := by
  constructor
  · intro hp
    obtain ⟨word', line', front', back', hword', -, hline', hoccurs, hlength⟩ :=
      mem_references_iff.mp hp
    obtain rfl : word' = word := Option.some.inj (hword'.symm.trans hword)
    obtain rfl : line' = line := Option.some.inj (hline'.symm.trans hline)
    -- line and column fix what stands before the word and behind it.
    have hsame := hoccurs.split.symm.trans hsplit
    rw [List.append_assoc, List.append_assoc] at hsame
    obtain ⟨rfl, hrest⟩ := List.append_inj hsame (hlength.trans hcolumn.symm)
    obtain rfl : back' = back := List.append_cancel_left hrest
    exact hoccurs
  · intro hoccurs
    exact mem_references_iff.mpr
      ⟨word, line, front, back, hword, hdeclared, hline, hoccurs, hcolumn⟩

/-! ## §2 — the token at an occurrence -/

/-- **The token at an occurrence between boundaries** is the word, with the double quotes next to
it. -/
theorem wordAt?_of_occursIn {text : String} {p : Position} {word line front back : List Char}
    (hword : isName word = true) (hline : (lines text.toList)[p.line]? = some line)
    (hoccurs : OccursIn word line front back) (hcolumn : front.length = p.character)
    (hfront : front.getLast?.all isBoundary = true) (hback : back.head?.all isBoundary = true) :
    wordAt? text p = some (leadingQuote front.reverse ++ word ++ leadingQuote back) := by
  have hstretch : Stretch line front word back :=
    { split := hoccurs.split
      inner := fun c hc => isBoundary_of_isNameChar (isNameChar_of_mem hword hc)
      front_boundary := (Option.all_eq_true _ _).mp hfront
      back_boundary := (Option.all_eq_true _ _).mp hback }
  refine wordAt?_eq_some_iff.mpr ⟨by simp [ne_nil_of_isName hword], line, hline, ?_⟩
  exact tokenAt_of_stretch hstretch (by omega) (by omega)

/-- A token with a double quote is no declared name. -/
theorem references_of_quoted {text : String} {p : Position} {word : List Char}
    (hword : wordAt? text p = some word) (hquote : '"' ∈ word) : references text p = [] := by
  rw [references_of_wordAt? hword, if_neg]
  intro hdeclared
  exact quote_not_mem_of_isName (isName_of_declares hdeclared) hquote

/-- **References from references.** Where an occurrence of a name stands between boundaries or ends
of its line, the token there is the name with the double quotes next to it. From an occurrence
without quotes next to it the same references are found again; from one next to a quote none, since
the token is no name. -/
theorem references_closed {text : String} {p₀ p : Position} (hp : p ∈ references text p₀) :
    ∃ word line front back, wordAt? text p₀ = some word ∧
      (lines text.toList)[p.line]? = some line ∧ line = front ++ word ++ back ∧
      front.length = p.character ∧
      (front.getLast?.all isBoundary = true → back.head?.all isBoundary = true →
        wordAt? text p = some (leadingQuote front.reverse ++ word ++ leadingQuote back) ∧
        (front.getLast? ≠ some '"' → back.head? ≠ some '"' →
          references text p = references text p₀) ∧
        (front.getLast? = some '"' ∨ back.head? = some '"' → references text p = [])) := by
  obtain ⟨word, line, front, back, hword, hdeclared, hline, hoccurs, hcolumn⟩ :=
    mem_references_iff.mp hp
  refine ⟨word, line, front, back, hword, hline, hoccurs.split, hcolumn, ?_⟩
  intro hfront hback
  have htoken := wordAt?_of_occursIn (isName_of_declares hdeclared) hline hoccurs hcolumn hfront
    hback
  refine ⟨htoken, fun hopening hclosing => ?_, fun hquote => ?_⟩
  · rw [leadingQuote_eq_nil (by simpa using hopening), leadingQuote_eq_nil hclosing,
      List.nil_append, List.append_nil] at htoken
    rw [references_of_wordAt? htoken, references_of_wordAt? hword]
  -- a quote that is kept makes the token a word that no text declares.
  · refine references_of_quoted htoken ?_
    rcases hquote with hopening | hclosing
    · have hkept : leadingQuote front.reverse = ['"'] := if_pos (by simpa using hopening)
      simp [hkept]
    · have hkept : leadingQuote back = ['"'] := if_pos hclosing
      simp [hkept]

/-- A use of a variable between parentheses. -/
theorem references_closed_between_parentheses :
    ⟨1, 5⟩ ∈ references "declare $x\nplay($x)" ⟨0, 8⟩ ∧
      references "declare $x\nplay($x)" ⟨1, 5⟩ = references "declare $x\nplay($x)" ⟨0, 8⟩ := by
  have hp : ⟨1, 5⟩ ∈ references "declare $x\nplay($x)" ⟨0, 8⟩ := by decide +kernel
  refine ⟨hp, ?_⟩
  obtain ⟨word, line, front, back, hword, hline, hsplit, hcolumn, hclosed⟩ := references_closed hp
  have hword' : wordAt? "declare $x\nplay($x)" ⟨0, 8⟩ = some ['$', 'x'] := by decide +kernel
  have hline' : (lines "declare $x\nplay($x)".toList)[1]? = some "play($x)".toList := by
    decide +kernel
  obtain rfl : word = ['$', 'x'] := Option.some.inj (hword.symm.trans hword')
  obtain rfl : line = "play($x)".toList := Option.some.inj (hline.symm.trans hline')
  have hparts : front = "play(".toList ∧ ['$', 'x'] ++ back = "$x)".toList :=
    List.append_inj (by rw [← List.append_assoc, ← hsplit]; decide +kernel) hcolumn
  obtain rfl : back = [')'] := List.append_cancel_left (hparts.2.trans (by decide +kernel))
  rw [hparts.1] at hclosed
  exact (hclosed (by decide +kernel) (by decide)).2.1 (by decide +kernel) (by decide)

/-- From a name in a string literal its references are not found. -/
theorem references_not_closed_at_quotes :
    ¬ ∀ (text : String) (p₀ p : Position), p ∈ references text p₀ →
      references text p = references text p₀ := by
  intro h
  have hclosed := h "declare $x\nmessage(\"$x\")" ⟨0, 8⟩ ⟨1, 9⟩ (by decide +kernel)
  revert hclosed
  decide +kernel

end KspWorkbench
