import KspWorkbench.Proofs.Script.Occurrences
import KspWorkbench.Script.Token

/-!
# The token under a cursor

The token around a column is the stretch without boundary characters that the column lies in, with
the double quotes next to it. `exists_stretch` finds the stretch in the line, and
`tokenAt_of_stretch` says that the token does not depend on where in the stretch the cursor is.
Names hold no boundary characters, so a name under the cursor is a stretch without quotes.
-/

namespace KspWorkbench

/-! ## §1 — blanks and boundaries -/

theorem isBlank_of_isIdentifierChar {c : Char} (h : isIdentifierChar c = true) :
    isBlank c = false := by
  have hrange : (48 ≤ c.toNat ∧ c.toNat ≤ 57) ∨ (65 ≤ c.toNat ∧ c.toNat ≤ 90) ∨
      c.toNat = 95 ∨ (97 ≤ c.toNat ∧ c.toNat ≤ 122) := by
    have hclasses : (((decide (c.val ≥ 'A'.val ∧ c.val ≤ 'Z'.val) ||
        decide (c.val ≥ 'a'.val) && decide (c.val ≤ 'z'.val)) ||
        decide (c.val ≥ '0'.val) && decide (c.val ≤ '9'.val)) || c == '_') = true := h
    simp only [Bool.or_eq_true, Bool.and_eq_true, decide_eq_true_eq, beq_iff_eq, ge_iff_le,
      UInt32.le_iff_toNat_le] at hclasses
    rcases hclasses with ((h | h) | h) | rfl
    · exact Or.inr (Or.inl h)
    · exact Or.inr (Or.inr (Or.inr h))
    · exact Or.inl h
    · decide
  simp only [isBlank, Bool.or_eq_false_iff, Bool.and_eq_false_iff, decide_eq_false_iff_not,
    beq_eq_false_iff_ne]
  omega

theorem isBoundary_of_isNameChar {c : Char} (h : isNameChar c = true) : isBoundary c = false := by
  have hblank : isBlank c = false := by
    simp only [isNameChar, Bool.or_eq_true] at h
    rcases h with hident | hsigil
    · exact isBlank_of_isIdentifierChar hident
    · obtain ⟨type, htype⟩ := Option.isSome_iff_exists.mp hsigil
      rw [VariableType.ofSigil?_eq_some_iff.mp htype]
      cases type <;> decide
  simp only [isBoundary, hblank, Bool.false_or, List.contains_eq_mem, decide_eq_false_iff_not]
  intro hmem
  -- none of the separators can stand in a name.
  have hnone : ['(', ')', '{', '}', ':', '[', ']', ',', '+', '-', '/', '*', '<', '>', '^',
      '"'].all (fun d => !isNameChar d) = true := by
    decide
  have hnot := List.all_eq_true.mp hnone c hmem
  rw [h] at hnot
  cases hnot

theorem isNameChar_of_isBoundary {c : Char} (h : isBoundary c = true) : isNameChar c = false := by
  cases hname : isNameChar c with
  | false => rfl
  | true => rw [isBoundary_of_isNameChar hname] at h; cases h

theorem trimStart_of_head {cs : List Char} (h : ∀ c ∈ cs.head?, isBlank c = false) :
    trimStart cs = cs := by
  cases cs with
  | nil => rfl
  | cons c rest => simp [trimStart, h c (by simp)]

theorem trim_of_no_blank {cs : List Char} (h : ∀ c ∈ cs, isBlank c = false) : trim cs = cs := by
  have hstart : trimStart cs = cs :=
    trimStart_of_head fun c hc => h c (List.mem_of_head? hc)
  have hend : trimStart cs.reverse = cs.reverse :=
    trimStart_of_head fun c hc => h c (List.mem_reverse.mp (List.mem_of_head? hc))
  rw [trim, trimEnd, hstart]
  rw [trimStart] at hend
  rw [hend, List.reverse_reverse]

/-! ## §2 — the stretch around a column -/

theorem mem_leadingQuote {cs : List Char} {c : Char} (h : c ∈ leadingQuote cs) :
    c = '"' ∧ cs.head? = some '"' := by
  unfold leadingQuote at h
  split at h
  · next hquote => exact ⟨List.mem_singleton.mp h, hquote⟩
  · cases h

theorem leadingQuote_eq_nil {cs : List Char} (h : cs.head? ≠ some '"') : leadingQuote cs = [] := by
  rw [leadingQuote, if_neg h]

/-- A stretch of a line without boundaries, which ends where the line ends or at a boundary. -/
structure Stretch (line front token back : List Char) : Prop where
  split : line = front ++ token ++ back
  inner : ∀ c ∈ token, isBoundary c = false
  front_boundary : ∀ c ∈ front.getLast?, isBoundary c = true
  back_boundary : ∀ c ∈ back.head?, isBoundary c = true

/-- In front of a token stands nothing that continues a name. -/
theorem Stretch.before {line front token back : List Char} (h : Stretch line front token back) :
    front.getLast?.any isNameChar = false :=
  (Option.any_eq_false _ _).mpr fun c hc => isNameChar_of_isBoundary (h.front_boundary c hc)

/-- Behind a token stands nothing that continues a name. -/
theorem Stretch.behind {line front token back : List Char} (h : Stretch line front token back) :
    back.head?.any isIdentifierChar = false :=
  (Option.any_eq_false _ _).mpr fun c hc =>
    isIdentifierChar_of_not_isNameChar (isNameChar_of_isBoundary (h.back_boundary c hc))

/-- The stretch that the two scans from a column find, with the quotes next to it, before it is
trimmed. -/
def untrimmedToken (line : List Char) (column : Nat) : List Char :=
  let before := (line.take column).reverse
  let after := line.drop column
  leadingQuote (before.dropWhile (! isBoundary ·)) ++
    (before.takeWhile (! isBoundary ·)).reverse ++ after.takeWhile (! isBoundary ·) ++
    leadingQuote (after.dropWhile (! isBoundary ·))

theorem tokenAt_eq_trim (line : List Char) (column : Nat) :
    tokenAt line column = trim (untrimmedToken line column) :=
  rfl

/-- Every column of a stretch, its end included, gives the token of the stretch with the quotes
next to it. -/
theorem untrimmedToken_of_stretch {line front token back : List Char}
    (h : Stretch line front token back) {column : Nat} (hfrom : front.length ≤ column)
    (hto : column ≤ front.length + token.length) :
    untrimmedToken line column = leadingQuote front.reverse ++ token ++ leadingQuote back := by
  obtain ⟨rfl, hinner, hfront, hback⟩ := h
  -- the cursor parts the stretch into what is left of it and what is right of it.
  obtain ⟨left, right, rfl, rfl⟩ : ∃ left right, token = left ++ right ∧
      column = (front ++ left).length := by
    refine ⟨token.take (column - front.length), token.drop (column - front.length), by simp, ?_⟩
    simp only [List.length_append, List.length_take]
    omega
  have hleft : (left.reverse ++ front.reverse).takeWhile (! isBoundary ·) = left.reverse ∧
      (left.reverse ++ front.reverse).dropWhile (! isBoundary ·) = front.reverse :=
    span_append _ _ (fun c hc => by simp [hinner c (by simp [List.mem_reverse.mp hc])])
      (by simpa using hfront)
  have hright : (right ++ back).takeWhile (! isBoundary ·) = right ∧
      (right ++ back).dropWhile (! isBoundary ·) = back :=
    span_append _ _ (fun c hc => by simp [hinner c (by simp [hc])]) (by simpa using hback)
  have hline : front ++ (left ++ right) ++ back = (front ++ left) ++ (right ++ back) := by simp
  rw [hline]
  simp only [untrimmedToken, List.take_left, List.drop_left, List.reverse_append]
  rw [hleft.1, hleft.2, hright.1, hright.2, List.reverse_reverse]
  simp

/-- Neither a stretch nor a quote holds white space, so trimming removes nothing. -/
theorem Stretch.trim_eq {line front token back : List Char} (h : Stretch line front token back) :
    trim (leadingQuote front.reverse ++ token ++ leadingQuote back) =
      leadingQuote front.reverse ++ token ++ leadingQuote back := by
  apply trim_of_no_blank
  intro c hc
  rw [List.mem_append, List.mem_append] at hc
  rcases hc with (hquote | htoken) | hquote
  · rw [(mem_leadingQuote hquote).1]
    decide
  · have hno := h.inner c htoken
    rw [isBoundary, Bool.or_eq_false_iff] at hno
    exact hno.1
  · rw [(mem_leadingQuote hquote).1]
    decide

/-- **The token is that of its stretch**, wherever in the stretch the cursor is. -/
theorem tokenAt_of_stretch {line front token back : List Char} (h : Stretch line front token back)
    {column : Nat} (hfrom : front.length ≤ column) (hto : column ≤ front.length + token.length) :
    tokenAt line column = leadingQuote front.reverse ++ token ++ leadingQuote back := by
  rw [tokenAt_eq_trim, untrimmedToken_of_stretch h hfrom hto, h.trim_eq]

/-- **Every column lies in a stretch**, if only an empty one. -/
theorem exists_stretch (line : List Char) (column : Nat) :
    ∃ front token back, Stretch line front token back ∧
      front.length ≤ min column line.length ∧
      min column line.length ≤ front.length + token.length := by
  -- the stretch goes from the column to the left and to the right, up to the first boundary
  -- characters.
  let before := (line.take column).reverse
  let after := line.drop column
  have hbefore : (before.dropWhile (! isBoundary ·)).reverse ++
      (before.takeWhile (! isBoundary ·)).reverse = line.take column := by
    rw [← List.reverse_append, List.takeWhile_append_dropWhile, List.reverse_reverse]
  have hafter : after.takeWhile (! isBoundary ·) ++ after.dropWhile (! isBoundary ·) =
      line.drop column :=
    List.takeWhile_append_dropWhile
  have hlength := congrArg List.length hbefore
  simp only [List.length_append, List.length_reverse, List.length_take] at hlength
  refine ⟨(before.dropWhile (! isBoundary ·)).reverse,
    (before.takeWhile (! isBoundary ·)).reverse ++ after.takeWhile (! isBoundary ·),
    after.dropWhile (! isBoundary ·), ⟨?_, ?_, ?_, ?_⟩, ?_, ?_⟩
  · rw [← List.append_assoc, hbefore, List.append_assoc, hafter, List.take_append_drop]
  · intro c hc
    rcases List.mem_append.mp hc with hleft | hright
    · simpa using List.mem_takeWhile_imp (List.mem_reverse.mp hleft)
    · simpa using List.mem_takeWhile_imp hright
  · intro c hc
    rw [List.getLast?_reverse] at hc
    simpa using stops_dropWhile hc
  · intro c hc
    simpa using stops_dropWhile hc
  · simp; omega
  · simp; omega

/-- A column behind the end of the line counts as the end. -/
theorem untrimmedToken_min (line : List Char) (column : Nat) :
    untrimmedToken line (min column line.length) = untrimmedToken line column := by
  rcases Nat.le_total column line.length with hle | hle
  · rw [Nat.min_eq_left hle]
  · rw [Nat.min_eq_right hle]
    simp only [untrimmedToken, List.take_of_length_le hle, List.drop_of_length_le hle,
      List.take_length, List.drop_length]

/-- A column past the end of a line counts as its end. -/
theorem tokenAt_min (line : List Char) (column : Nat) :
    tokenAt line (min column line.length) = tokenAt line column := by
  rw [tokenAt_eq_trim, untrimmedToken_min, ← tokenAt_eq_trim]

theorem quote_not_mem_of_isName {word : List Char} (h : isName word = true) : '"' ∉ word :=
  fun hmem => absurd (isNameChar_of_mem h hmem) (by decide)

/-- **A name under the cursor** is a stretch of the line that the cursor lies in, and no quotes are
next to it. -/
theorem stretch_under_cursor {line word : List Char} {column : Nat} (hword : isName word = true)
    (h : tokenAt line column = word) :
    ∃ front back, Stretch line front word back ∧ front.length ≤ min column line.length ∧
      min column line.length ≤ front.length + word.length ∧ front.getLast? ≠ some '"' ∧
      back.head? ≠ some '"' := by
  obtain ⟨front, token, back, hstretch, hfrom, hto⟩ := exists_stretch line column
  have htoken := tokenAt_of_stretch hstretch hfrom hto
  rw [tokenAt_min, h] at htoken
  -- a quote next to the stretch would be part of the name.
  have hquote := quote_not_mem_of_isName hword
  have hfront : front.getLast? ≠ some '"' := by
    intro hlast
    refine hquote ?_
    rw [htoken, leadingQuote, if_pos (by simpa using hlast)]
    simp
  have hback : back.head? ≠ some '"' := by
    intro hhead
    refine hquote ?_
    rw [htoken, leadingQuote, leadingQuote, if_pos hhead]
    simp
  rw [leadingQuote_eq_nil (by simpa using hfront), leadingQuote_eq_nil hback] at htoken
  rw [List.nil_append, List.append_nil] at htoken
  subst htoken
  exact ⟨front, back, hstretch, hfrom, hto, hfront, hback⟩

/-- A token that is a name has no quote next to it, or it would have kept it. -/
theorem stretch_of_tokenAt {line word : List Char} {column : Nat} (hword : isName word = true)
    (h : tokenAt line column = word) :
    ∃ front back, Stretch line front word back ∧ front.getLast? ≠ some '"' ∧
      back.head? ≠ some '"' := by
  obtain ⟨front, back, hstretch, -, -, hfront, hback⟩ := stretch_under_cursor hword h
  exact ⟨front, back, hstretch, hfront, hback⟩

end KspWorkbench
