import KspWorkbench.Proofs.Script.RenamedReferences

/-!
# Occurrences that a renaming misses

A word under the cursor need not be a name: it can hold points and other signs, and then overlap
itself. The search looks at no stretch twice, so a match that does not stand alone hides an
occurrence that begins inside it.

* **`covered_occurrences_iff`** — which occurrences in a line are neither replaced nor overlapped by
  a replaced one.
* **`HidesItself`** — the words that this can happen to. `hidesItself_of_reached` finds the overlap
  in such a line, and `HidesItself.exists_line` a line for every such word.
* **`rename_rewrites_iff`** — what a renaming does to each line, and the words of which it rewrites
  every occurrence.
-/

namespace KspWorkbench

/-! ## §1 — occurrences in a line -/

/-- The stretch of `width` characters at `column` shares a character with the one at one of the
columns. -/
def Covered (width : Nat) (columns : List Nat) (column : Nat) : Prop :=
  ∃ c ∈ columns, c < column + width ∧ column < c + width

section Line

variable {word line front back : List Char}

/-- **Which occurrences are missed**: those that a match which does not stand alone reaches into,
unless one that is found begins inside them. -/
theorem covered_occurrences_iff (hword : word ≠ []) (h : OccursIn word line front back) :
    ¬ Covered word.length (occurrences word line) front.length ↔
      (∃ c ∈ matchColumns word line, c ∉ occurrences word line ∧ c < front.length ∧
        front.length < c + word.length) ∧
      ∀ c ∈ occurrences word line, front.length < c → front.length + word.length ≤ c := by
  have hpos := List.length_pos_iff.mpr hword
  constructor
  · intro hmissed
    have hlater : ∀ c ∈ occurrences word line, c < front.length + word.length →
        c + word.length ≤ front.length := by
      intro c hc hlt
      by_contra hreach
      exact hmissed ⟨c, hc, hlt, by omega⟩
    have hnot : front.length ∉ occurrences word line := fun hmem => by
      have hle := hlater _ hmem (by omega)
      omega
    rw [h.mem_occurrences_iff hword] at hnot
    simp only [not_forall, Nat.not_le] at hnot
    obtain ⟨c, hc, hlt, hreach⟩ := hnot
    refine ⟨⟨c, hc, fun hfound => ?_, hlt, hreach⟩, fun c hc hlt => ?_⟩
    · have hle := hlater c hfound (by omega)
      omega
    · by_contra hnear
      have hle := hlater c hc (by omega)
      omega
  · -- a replaced `d` that overlaps the occurrence begins before it, and so overlaps the match `c`.
    rintro ⟨⟨c, hc, hnot, hlt, hreach⟩, hlater⟩ ⟨d, hd, hnear, hover⟩
    have hmatch := (exists_occursIn hword hd).1
    have happart := pairwise_matchesFrom hword 0 0 line
    rcases Nat.lt_trichotomy c d with hcd | rfl | hdc
    · have hle := apart_of_pairwise happart hc hmatch hcd
      have hle' := hlater d hd (by omega)
      omega
    · exact hnot hd
    · have hle := apart_of_pairwise happart hmatch hc hdc
      omega

/-- **A word that hides its own occurrences**: a tail of it stands at its front as well, behind a
character that cannot stand in a name. -/
def HidesItself (word : List Char) : Prop :=
  ∃ lead tail, lead ≠ [] ∧ tail ≠ [] ∧ word = lead ++ tail ∧ tail <+: word ∧
    lead.getLast?.any isNameChar = false

/-- A match that reaches into an occurrence shows where the word overlaps itself. -/
theorem hidesItself_of_reached (hword : word ≠ []) (h : OccursIn word line front back) {c : Nat}
    (hmatch : c ∈ matchColumns word line) (hlt : c < front.length)
    (hreach : front.length < c + word.length) : HidesItself word := by
  obtain ⟨⟨front', back', hsplit, rfl⟩, -⟩ := (mem_matchColumns_iff hword).mp hmatch
  have hprefix : front' <+: line := ⟨word ++ back', by rw [hsplit, List.append_assoc]⟩
  have hprefix' : front <+: line := ⟨word ++ back, by rw [h.split, List.append_assoc]⟩
  obtain ⟨lead, rfl⟩ := List.prefix_of_prefix_length_le hprefix hprefix' hlt.le
  rw [List.length_append] at hlt hreach
  have hlead : lead ≠ [] := List.length_pos_iff.mp (by omega)
  have hrest : word ++ back' = lead ++ (word ++ back) := by
    have hsame := hsplit.symm.trans h.split
    simpa only [List.append_assoc, List.append_cancel_left_eq] using hsame
  -- the occurrence begins inside the word, so the word begins with what leads up to it.
  obtain ⟨tail, rfl⟩ : lead <+: word :=
    List.prefix_of_prefix_length_le ⟨word ++ back, hrest.symm⟩ ⟨back', rfl⟩ (by omega)
  rw [List.append_assoc, List.append_cancel_left_eq] at hrest
  refine ⟨lead, tail, hlead, ?_, rfl, ?_, ?_⟩
  · rintro rfl
    simp at hreach
  · exact List.prefix_of_prefix_length_le ⟨back', hrest⟩ ⟨back, rfl⟩ (by simp)
  · have hbefore := h.before
    rwa [List.getLast?_append_of_ne_nil _ hlead] at hbefore

/-- **Every word that hides itself is missed in some line**: there an occurrence of it stands, and
none is found. -/
theorem HidesItself.exists_line (h : HidesItself word) :
    ∃ d lead, isIdentifierChar d = true ∧ lead <+: word ∧
      OccursIn word (d :: lead ++ word) (d :: lead) [] ∧
      occurrences word (d :: lead ++ word) = [] := by
  obtain ⟨lead, tail, hlead, htail, hsplit, ⟨more, hmore⟩, hbefore⟩ := h
  have hword : word ≠ [] := by simp [hsplit, hlead]
  obtain ⟨d, hd, hhead⟩ : ∃ d, isIdentifierChar d = true ∧ word.head? ≠ some d := by
    by_cases hx : word.head? = some 'x'
    · exact ⟨'y', by decide, by simp [hx]⟩
    · exact ⟨'x', by decide, hx⟩
  have hstart : ∀ rest, word ++ rest ≠ d :: lead ++ word := by
    intro rest heq
    have hfirst := congrArg List.head? heq
    rw [List.head?_append_of_ne_nil _ hword] at hfirst
    exact hhead hfirst
  have hoccurs : OccursIn word (d :: lead ++ word) (d :: lead) [] :=
    ⟨by simp, by rwa [List.getLast?_cons_of_ne_nil hlead], rfl⟩
  refine ⟨d, lead, hd, ⟨tail, hsplit.symm⟩, hoccurs, ?_⟩
  -- the search meets the word right behind `d`, where it does not stand alone.
  have hfirst : 1 ∈ matchColumns word (d :: lead ++ word) := by
    refine (mem_matchColumns_iff hword).mpr ⟨⟨[d], more, ?_, rfl⟩, fun c hc hlt => ?_⟩
    · conv_lhs => rw [← hmore]
      rw [List.cons_append, ← List.append_assoc, ← hsplit]
      rfl
    · obtain ⟨⟨front, back, heq, rfl⟩, -⟩ := (mem_matchColumns_iff hword).mp hc
      obtain rfl : front = [] := List.length_eq_zero_iff.mp (by omega)
      exact absurd heq.symm (hstart back)
  refine List.eq_nil_iff_forall_not_mem.mpr fun column hcolumn => ?_
  obtain ⟨hmatch, front, back, hfound, rfl⟩ := exists_occursIn hword hcolumn
  match front, hfound with
  | [], hfound => exact hstart back hfound.split.symm
  | [e], hfound =>
    obtain rfl : d = e := (List.cons.inj hfound.split).1
    have hnot := hfound.before
    simp [isNameChar_of_isIdentifierChar hd] at hnot
  | e :: f :: front, hfound =>
    -- the next match would begin behind all of the first one, but the line ends before.
    have hapart := ((mem_matchColumns_iff hword).mp hmatch).2 1 hfirst (by simp)
    have hlength := congrArg List.length hfound.split
    have hword_length := congrArg List.length hsplit
    have htail_pos := List.length_pos_iff.mpr htail
    simp only [List.length_cons, List.length_append] at hapart hlength hword_length
    omega

end Line

/-! ## §2 — a renaming, text by text -/

/-- **Every occurrence is rewritten**: its line is edited, and there the word was replaced at it or
at an occurrence that overlaps it. -/
def Rewritten (word name : List Char) (text : String) (edits : List LineEdit) : Prop :=
  ∀ number line front back, (lines text.toList)[number]? = some line →
    OccursIn word line front back → ∃ e ∈ edits, e.range.start.line = number ∧
      ∃ columns, Replaced word name 0 columns line e.newText.toList ∧
        Covered word.length columns front.length

/-- A word that does not hide itself is rewritten in every text. -/
theorem rewritten_of_not_hidesItself {word : List Char} (hword : word ≠ [])
    (h : ¬ HidesItself word) (name : List Char) (text : String) :
    Rewritten word name text (renameLines word name 0 (lines text.toList)) := by
  intro number line front back hline hoccurs
  have hcovered : Covered word.length (occurrences word line) front.length := by
    by_contra hmissed
    obtain ⟨⟨c, hc, -, hlt, hreach⟩, -⟩ := (covered_occurrences_iff hword hoccurs).mp hmissed
    exact h (hidesItself_of_reached hword hoccurs hc hlt hreach)
  have hsome : occurrences word line ≠ [] := by
    obtain ⟨column, hcolumn, -⟩ := hcovered
    exact List.ne_nil_of_mem hcolumn
  refine ⟨_, mem_renameLines_iff.mpr ⟨number, line, hline, hsome, rfl⟩, rfl,
    occurrences word line, ?_, hcovered⟩
  rw [String.toList_ofList]
  exact replaced_occurrences hword name line

theorem feed_not_mem_of_wellCut {ls : List Line} (h : WellCut ls) :
    ∀ line ∈ ls, '\n' ∉ line.body := by
  induction h with
  | nil => simp
  | last hfeed => simpa using hfeed
  | feed hfeed _ _ ih => exact List.forall_mem_cons.mpr ⟨hfeed, ih⟩
  | returnFeed hfeed _ ih => exact List.forall_mem_cons.mpr ⟨hfeed, ih⟩

/-- No line of a text holds a line feed, and so no word under a cursor does. -/
theorem feed_not_mem_of_wordAt? {text : String} {p : Position} {word line : List Char}
    (hline : (lines text.toList)[p.line]? = some line) (htoken : tokenAt line p.character = word) :
    '\n' ∉ line ∧ '\n' ∉ word := by
  have hfeed : '\n' ∉ line := by
    obtain ⟨whole, hwhole, rfl⟩ := List.mem_map.mp (List.mem_of_getElem? hline)
    exact feed_not_mem_of_wellCut (wellCut_splitLines _) whole hwhole
  refine ⟨hfeed, fun hmem => ?_⟩
  obtain ⟨front, token, back, hstretch, hfrom, hto⟩ := exists_stretch line p.character
  rw [← htoken, ← tokenAt_min, tokenAt_of_stretch hstretch hfrom hto, List.mem_append,
    List.mem_append] at hmem
  rcases hmem with (hquote | hinner) | hquote
  · exact absurd (mem_leadingQuote hquote).1 (by decide)
  · exact hfeed (by rw [hstretch.split]; simp [hinner])
  · exact absurd (mem_leadingQuote hquote).1 (by decide)

/-- A word that hides itself is missed in some text in which it stands under the cursor. -/
theorem exists_missed_of_hidesItself {text newName : String} {p : Position} {word : List Char}
    (htarget : renameTarget text p newName = .ok word) (h : HidesItself word) :
    ∃ text' p' edits, rename text' p' newName = .ok edits ∧ wordAt? text' p' = some word ∧
      ¬ Rewritten word newName.toList text' edits := by
  obtain ⟨hname, hword, haccepted⟩ := renameTarget_eq_ok_iff.mp htarget
  obtain ⟨hne, cursorLine, hline, htoken⟩ := wordAt?_eq_some_iff.mp hword
  obtain ⟨hfeed, hfeed_word⟩ := feed_not_mem_of_wordAt? hline htoken
  obtain ⟨d, lead, hd, hlead, hoccurs, hnone⟩ := h.exists_line
  -- the text has the line of the cursor and below it the line in which the word is missed.
  have hcut : WellCut [⟨cursorLine, .returnFeed⟩, ⟨d :: lead ++ word, .textEnd⟩] := by
    refine .returnFeed hfeed (.last ?_ (by simp))
    have hd_feed : '\n' ≠ d := by
      rintro rfl
      cases hd
    have hlead_feed : '\n' ∉ lead := fun hmem => hfeed_word (hlead.subset hmem)
    simp [hd_feed, hlead_feed, hfeed_word]
  let text' := String.ofList ([⟨cursorLine, .returnFeed⟩,
    ⟨d :: lead ++ word, .textEnd⟩].flatMap Line.source)
  have hlines : lines text'.toList = [cursorLine, d :: lead ++ word] := by
    rw [String.toList_ofList, lines, splitLines_flatMap_source hcut]
    rfl
  have hword' : wordAt? text' ⟨0, p.character⟩ = some word :=
    wordAt?_eq_some_iff.mpr ⟨hne, cursorLine, by rw [hlines]; rfl, htoken⟩
  have htarget' := renameTarget_eq_ok_iff.mpr ⟨hname, hword', haccepted⟩
  refine ⟨text', _, _, rename_eq_ok_iff.mpr ⟨word, htarget', rfl⟩, hword', fun hrewritten => ?_⟩
  obtain ⟨e, he, hnumber, -⟩ :=
    hrewritten 1 (d :: lead ++ word) (d :: lead) [] (by rw [hlines]; rfl) hoccurs
  obtain ⟨number, line, hedited, hsome, rfl⟩ := mem_renameLines_iff.mp he
  obtain rfl : number = 1 := hnumber
  rw [hlines] at hedited
  obtain rfl : d :: lead ++ word = line := Option.some.inj hedited
  exact hsome hnone

/-- **What a renaming rewrites, whatever the word.** A line is edited if the word was found in it,
and then the word is replaced where it was found. An occurrence is missed, neither replaced nor
overlapped by a replaced one, if a match that does not stand alone reaches into it and no occurrence
that is found begins inside it. There are such texts for the words that hide themselves, and for no
others. -/
theorem rename_rewrites_iff {text newName : String} {p : Position} {edits : List LineEdit}
    (hedits : rename text p newName = .ok edits) :
    ∃ word, wordAt? text p = some word ∧
      (∀ number line, (lines text.toList)[number]? = some line → ∃ columns,
        (number ∈ edits.map (·.range.start.line) ↔ columns ≠ []) ∧
        (∀ e ∈ edits, e.range.start.line = number →
          e.range = ⟨⟨number, 0⟩, ⟨number, line.length⟩⟩ ∧
          Replaced word newName.toList 0 columns line e.newText.toList) ∧
        ∀ front back, OccursIn word line front back →
          (¬ Covered word.length columns front.length ↔
            (∃ c ∈ matchColumns word line, c ∉ columns ∧ c < front.length ∧
              front.length < c + word.length) ∧
            ∀ c ∈ columns, front.length < c → front.length + word.length ≤ c)) ∧
      ((∀ text' p' edits', rename text' p' newName = .ok edits' → wordAt? text' p' = some word →
          Rewritten word newName.toList text' edits') ↔ ¬ HidesItself word) := by
  obtain ⟨word, htarget, rfl⟩ := rename_eq_ok_iff.mp hedits
  obtain ⟨-, hword, -⟩ := renameTarget_eq_ok_iff.mp htarget
  have hne := (wordAt?_eq_some_iff.mp hword).1
  refine ⟨word, hword, fun number line hline => ⟨occurrences word line, ?_, ?_, ?_⟩, ?_⟩
  · simp only [List.mem_map, mem_renameLines_iff]
    constructor
    · rintro ⟨_, ⟨_, line', hline', hsome, rfl⟩, rfl⟩
      obtain rfl : line = line' := Option.some.inj (hline.symm.trans hline')
      exact hsome
    · intro hsome
      exact ⟨_, ⟨number, line, hline, hsome, rfl⟩, rfl⟩
  · intro e he hnumber
    obtain ⟨_, line', hline', -, rfl⟩ := mem_renameLines_iff.mp he
    obtain rfl : _ = number := hnumber
    obtain rfl : line = line' := Option.some.inj (hline.symm.trans hline')
    rw [String.toList_ofList]
    exact ⟨rfl, replaced_occurrences hne newName.toList line⟩
  · intro front back hoccurs
    exact covered_occurrences_iff hne hoccurs
  -- a word that hides itself is missed in a text made for it; the others are never missed.
  · constructor
    · intro hall h
      obtain ⟨text', p', edits', hedits', hword', hmissed⟩ := exists_missed_of_hidesItself htarget h
      exact hmissed (hall text' p' edits' hedits' hword')
    · intro h text' p' edits' hedits' hword'
      obtain ⟨word', htarget', rfl⟩ := rename_eq_ok_iff.mp hedits'
      obtain ⟨-, hfound, -⟩ := renameTarget_eq_ok_iff.mp htarget'
      obtain rfl : word = word' := Option.some.inj (hword'.symm.trans hfound)
      exact rewritten_of_not_hidesItself hne h newName.toList text'

/-- A word with a point in it is accepted, and it is not rewritten in every text. -/
theorem dotted_word_not_always_rewritten :
    (∃ edits, rename "p.p := 1" ⟨0, 0⟩ "q" = .ok edits) ∧ HidesItself "p.p".toList ∧
      ¬ ∀ text p edits, rename text p "q" = .ok edits → wordAt? text p = some "p.p".toList →
        Rewritten "p.p".toList "q".toList text edits := by
  have htarget : renameTarget "p.p := 1" ⟨0, 0⟩ "q" = .ok "p.p".toList := by decide +kernel
  have hedits := rename_eq_ok_iff.mpr ⟨_, htarget, rfl⟩
  have hhides : HidesItself "p.p".toList :=
    ⟨['p', '.'], ['p'], by simp, by simp, by decide +kernel, ⟨['.', 'p'], by decide +kernel⟩, rfl⟩
  obtain ⟨word, hword, -, hall⟩ := rename_rewrites_iff hedits
  have hword' : wordAt? "p.p := 1" ⟨0, 0⟩ = some "p.p".toList := by decide +kernel
  obtain rfl : word = "p.p".toList := Option.some.inj (hword.symm.trans hword')
  exact ⟨⟨_, hedits⟩, hhides, fun hrewritten => hall.mp hrewritten hhides⟩

/-- An occurrence that begins inside a match with a sigil before it is missed. -/
theorem occurrence_hidden_by_match :
    ¬ ∀ (text newName : String) (p : Position) (word : List Char) (edits : List LineEdit),
      rename text p newName = .ok edits → wordAt? text p = some word →
        Rewritten word newName.toList text edits := by
  intro h
  have htarget : renameTarget "p.p := 1\n$p.p.p := 2" ⟨0, 0⟩ "q" = .ok "p.p".toList := by
    decide +kernel
  have hline : (lines "p.p := 1\n$p.p.p := 2".toList)[1]? = some "$p.p.p := 2".toList := by
    decide +kernel
  have hoccurs : OccursIn "p.p".toList "$p.p.p := 2".toList "$p.".toList " := 2".toList :=
    ⟨by decide +kernel, by decide +kernel, by decide +kernel⟩
  obtain ⟨e, he, hnumber, -⟩ := h _ "q" ⟨0, 0⟩ _ _ (rename_eq_ok_iff.mpr ⟨_, htarget, rfl⟩)
    (by decide +kernel) 1 _ _ _ hline hoccurs
  have hedited : (renameLines "p.p".toList "q".toList 0
      (lines "p.p := 1\n$p.p.p := 2".toList)).map (·.range.start.line) = [0] := by
    decide +kernel
  have hmem := List.mem_map_of_mem (f := fun e : LineEdit => e.range.start.line) he
  rw [hedited, hnumber] at hmem
  simp at hmem

end KspWorkbench
