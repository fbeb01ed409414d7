import KspWorkbench.Proofs.Script.RenamedLine
import KspWorkbench.Proofs.Script.Undo

/-!
# Words in string literals

The token under a cursor keeps the double quotes next to it, so that a cursor inside a string
literal gives a token that reads as a literal. It does so if the literal is one word. In a literal
with blanks or other boundaries the token is a word of it, with at most one of the quotes, and such
a word can be renamed.

* **`rename_eq_literal_iff`** — a renaming is refused for each literal, a number or a string, since
  none is a variable or a keyword (`refused_of_isLiteral`).
* **`literalAround`** — the text between the quotes around a cursor.
* **`tokenAt_inside_literal`** — the token there.
* **`rename_inside_literal_iff`** — where a cursor inside a string literal is refused.
-/

namespace KspWorkbench

/-! ## §1 — literals -/

/-- Whether a word is a number, that is, a literal without quotes. -/
def isNumber (word : List Char) : Bool :=
  isDecimal word || isHexadecimal word || isReal word

theorem isLiteral_eq (word : List Char) :
    isLiteral word = (isNumber word || isStringLiteral word) :=
  rfl

theorem digit_of_isDecimal {word : List Char} (h : isDecimal word = true) :
    word.head?.any Char.isDigit = true := by
  simp only [isDecimal, Bool.or_eq_true, beq_iff_eq, Bool.and_eq_true, List.all_eq_true] at h
  rcases h with rfl | ⟨hhead, hall⟩
  · rfl
  · cases word with
    | nil => cases hhead
    | cons c rest => exact hall c (by simp)

theorem digit_of_isReal {word : List Char} (h : isReal word = true) :
    word.head?.any Char.isDigit = true := by
  rw [isReal, Bool.and_eq_true] at h
  have hhead := digit_of_isDecimal h.1
  cases word with
  | nil => cases hhead
  | cons c rest =>
    -- a point at the front would leave no digits before it.
    by_cases hpoint : c = '.'
    · simp [hpoint] at hhead
    · simpa [hpoint] using hhead

/-- Every number begins with a digit, which no variable and no keyword does. -/
theorem digit_of_isNumber {word : List Char} (h : isNumber word = true) :
    word.head?.any Char.isDigit = true := by
  simp only [isNumber, Bool.or_eq_true] at h
  rcases h with (hdecimal | hhexadecimal) | hreal
  · exact digit_of_isDecimal hdecimal
  · simp only [isHexadecimal, Bool.and_eq_true, beq_iff_eq] at hhexadecimal
    rw [hhexadecimal.1.1]
    rfl
  · exact digit_of_isReal hreal

/-- A string literal is anything without quotes between two quotes. -/
theorem isStringLiteral_iff {word : List Char} :
    isStringLiteral word = true ↔ ∃ inner, word = '"' :: (inner ++ ['"']) ∧ '"' ∉ inner := by
  unfold isStringLiteral
  split
  · next rest =>
    simp only [Bool.and_eq_true, beq_iff_eq, List.all_eq_true, bne_iff_ne, List.cons.injEq,
      true_and]
    -- the closing quote is the last character, and the text between is all the rest.
    constructor
    · rintro ⟨hlast, hinner⟩
      obtain ⟨inner, rfl⟩ := List.getLast?_eq_some_iff.mp hlast
      rw [List.dropLast_concat] at hinner
      exact ⟨inner, rfl, fun hquote => hinner _ hquote rfl⟩
    · rintro ⟨inner, rfl, hinner⟩
      rw [List.dropLast_concat]
      exact ⟨by simp, fun c hc heq => hinner (heq ▸ hc)⟩
  · next hother =>
    simp only [Bool.false_eq_true, false_iff]
    rintro ⟨inner, rfl, -⟩
    exact hother _ rfl

/-- A literal is not empty, and neither a variable nor a keyword. -/
theorem refused_of_isLiteral {word : List Char} (h : isLiteral word = true) :
    word ≠ [] ∧ isVariableName word = false ∧ isKeyword word = false := by
  have hhead : word.head?.any (fun c => c.isDigit || c == '"') = true := by
    rw [isLiteral_eq, Bool.or_eq_true] at h
    rcases h with hnumber | hstring
    · obtain ⟨c, hc, hdigit⟩ := (Option.any_eq_true _ _).mp (digit_of_isNumber hnumber)
      exact (Option.any_eq_true _ _).mpr ⟨c, hc, by simp [hdigit]⟩
    · obtain ⟨inner, rfl, -⟩ := isStringLiteral_iff.mp hstring
      rfl
  obtain ⟨c, hc, hfirst⟩ := (Option.any_eq_true _ _).mp hhead
  refine ⟨?_, ?_, ?_⟩
  · rintro rfl
    cases hc
  · rw [isVariableName, hc, Option.any_some, Bool.eq_false_iff]
    intro hsigil
    have hident := isIdentifierChar_of_isSigil hsigil
    rcases Bool.or_eq_true _ _ ▸ hfirst with hdigit | hquote
    · simp [isIdentifierChar, Char.isAlphanum, hdigit] at hident
    · rw [eq_of_beq hquote] at hsigil
      cases hsigil
  · -- no keyword is a literal.
    have hnone : keywords.all (fun k => !isLiteral k.toList) = true := by decide +kernel
    rw [Bool.eq_false_iff]
    intro hkeyword
    obtain ⟨k, hk, hsame⟩ := List.any_eq_true.mp hkeyword
    have hnot := List.all_eq_true.mp hnone k hk
    rw [eq_of_beq hsame, h] at hnot
    cases hnot

/-- **When a renaming is refused on account of a literal**: a new name is given, and the word under
the cursor is a literal. -/
theorem rename_eq_literal_iff {text newName : String} {p : Position} {word : List Char} :
    rename text p newName = .error (.literal (String.ofList word)) ↔
      newName ≠ "" ∧ wordAt? text p = some word ∧ isLiteral word = true := by
  have htarget : rename text p newName = .error (.literal (String.ofList word)) ↔
      renameTarget text p newName = .error (.literal (String.ofList word)) := by
    rw [rename_eq_map]
    cases renameTarget text p newName <;> simp [Except.map]
  rw [htarget, renameTarget]
  by_cases hempty : newName = ""
  · simp [hempty]
  · rw [if_neg hempty]
    cases hword : wordAt? text p with
    | none => simp
    | some found =>
      -- a literal is no variable and no keyword, so it comes to the check for literals and is
      -- refused there.
      by_cases hliteral : isLiteral found = true
      · obtain ⟨-, hvariable, hkeyword⟩ := refused_of_isLiteral hliteral
        simp only [hvariable, hkeyword, hliteral, Bool.false_eq_true, if_false, if_true,
          Except.error.injEq, RenameError.literal.injEq, String.ofList_inj, Option.some.injEq]
        constructor
        · rintro rfl
          exact ⟨hempty, rfl, hliteral⟩
        · exact fun h => h.2.1
      · constructor
        · intro h
          dsimp only at h
          rw [if_neg hliteral] at h
          split at h
          · cases h
          · split at h <;> cases h
        · rintro ⟨-, hfound, hliteral'⟩
          cases hfound
          exact absurd hliteral' hliteral

/-! ## §2 — the literal around a cursor -/

/-- The text between the double quotes around a column. -/
def literalAround (line : List Char) (column : Nat) : List Char :=
  ((line.take column).reverse.takeWhile (· != '"')).reverse ++
    (line.drop column).takeWhile (· != '"')

/-- **A cursor inside a string literal** of its line: between two double quotes with none between
them, the first of which opens the literal. -/
structure InsideLiteral (line : List Char) (column : Nat) (front back : List Char) : Prop where
  split : line = front ++ '"' :: (literalAround line column ++ '"' :: back)
  plain : '"' ∉ literalAround line column
  opens : front.count '"' % 2 = 0
  behind_opening : front.length < column
  before_closing : column ≤ front.length + 1 + (literalAround line column).length

/-- What stands before the first quote has none. -/
theorem exists_quote_behind_run {cs : List Char} (h : '"' ∈ cs) :
    '"' ∉ cs.takeWhile (· != '"') ∧ ∃ rest, cs = cs.takeWhile (· != '"') ++ '"' :: rest := by
  obtain ⟨run, rest, rfl, hrun⟩ := List.eq_append_cons_of_mem h
  have hspan := span_append (p := (· != '"')) run ('"' :: rest)
    (fun c hc => by simpa using fun heq : c = '"' => hrun (heq ▸ hc)) (by simp)
  rw [hspan.1]
  exact ⟨hrun, rest, rfl⟩

/-- Behind an odd number of double quotes, with one to come, a cursor is inside a literal. -/
theorem exists_insideLiteral {line : List Char} {column : Nat}
    (hopen : (line.take column).count '"' % 2 = 1) (hclose : '"' ∈ line.drop column) :
    ∃ front back, InsideLiteral line column front back := by
  have hmem : '"' ∈ (line.take column).reverse :=
    List.mem_reverse.mpr (List.count_pos_iff.mp (by omega))
  obtain ⟨hleft, rest, hrest⟩ := exists_quote_behind_run hmem
  obtain ⟨hright, back, hback⟩ := exists_quote_behind_run hclose
  have hline := List.take_append_drop column line
  have hcolumn : (line.take column).length = column := by
    have hlt := List.length_pos_iff.mpr (List.ne_nil_of_mem hclose)
    rw [List.length_drop] at hlt
    rw [List.length_take]
    omega
  have haround : literalAround line column =
      ((line.take column).reverse.takeWhile (· != '"')).reverse ++
        (line.drop column).takeWhile (· != '"') := rfl
  generalize (line.take column).reverse.takeWhile (· != '"') = left at *
  generalize (line.drop column).takeWhile (· != '"') = right at *
  -- from the cursor to the left, `left` comes first, then the quote that opens the literal.
  rw [List.reverse_eq_iff] at hrest
  rw [hrest] at hopen hcolumn hline
  rw [hback] at hline
  simp only [List.reverse_append, List.reverse_cons, List.append_assoc, List.singleton_append,
    List.count_append, List.count_cons_self, List.length_append, List.length_cons,
    List.length_reverse] at hopen hcolumn hline
  have hnone : left.reverse.count '"' = 0 := List.count_eq_zero.mpr (by simpa using hleft)
  refine ⟨rest.reverse, back, ⟨?_, ?_, by omega, ?_, ?_⟩⟩
  · rw [haround, ← hline]
    simp
  · rw [haround]
    simp [hleft, hright]
  · rw [List.length_reverse]
    omega
  · rw [haround, List.length_append, List.length_reverse, List.length_reverse]
    omega

/-! ## §3 — the token inside a literal -/

/-- A quote is kept only when nothing stands between it and the token. -/
theorem leadingQuote_append {run : List Char} (h : '"' ∉ run) (rest : List Char) :
    leadingQuote (run ++ '"' :: rest) = if run = [] then ['"'] else [] := by
  cases run with
  | nil => rfl
  | cons c run =>
    have hc : c ≠ '"' := fun heq => h (by simp [heq])
    simp [leadingQuote, hc]

/-- **The token inside a literal** is the stretch of its text that the cursor lies in, with the
quotes that are next to the stretch. -/
theorem tokenAt_inside_literal {line front back : List Char} {column : Nat}
    (h : InsideLiteral line column front back) :
    ∃ before token after, Stretch (literalAround line column) before token after ∧
      tokenAt line column = (if before = [] then ['"'] else []) ++ token ++
        (if after = [] then ['"'] else []) := by
  obtain ⟨hsplit, hplain, -, hfrom, hto⟩ := h
  generalize literalAround line column = inner at *
  obtain ⟨before, token, after, hstretch, hlower, hupper⟩ :=
    exists_stretch inner (column - (front.length + 1))
  have hquotes : '"' ∉ before ∧ '"' ∉ after := by
    rw [hstretch.split] at hplain
    simp only [List.mem_append, not_or] at hplain
    exact ⟨hplain.1.1, hplain.2⟩
  -- in the line the quotes are boundaries too.
  have hquote : isBoundary '"' = true := by decide
  have hstretch' : Stretch line (front ++ '"' :: before) token (after ++ '"' :: back) := by
    refine ⟨by rw [hsplit, hstretch.split]; simp, hstretch.inner, fun c hc => ?_, fun c hc => ?_⟩
    · rw [List.append_cons, List.getLast?_append, Option.mem_def, Option.or_eq_some_iff] at hc
      rcases hc with hlast | ⟨-, hlast⟩
      · exact hstretch.front_boundary c hlast
      · rw [List.getLast?_concat] at hlast
        cases hlast
        exact hquote
    · rw [List.head?_append, Option.mem_def, Option.or_eq_some_iff] at hc
      rcases hc with hhead | ⟨-, hhead⟩
      · exact hstretch.back_boundary c hhead
      · cases hhead
        exact hquote
  refine ⟨before, token, after, hstretch, ?_⟩
  have hreverse : (front ++ '"' :: before).reverse = before.reverse ++ '"' :: front.reverse := by
    simp
  rw [tokenAt_of_stretch hstretch' (by simp; omega) (by simp; omega), hreverse,
    leadingQuote_append (by simpa using hquotes.1), leadingQuote_append hquotes.2]
  simp only [List.reverse_eq_nil_iff]

theorem count_quote_of_isStringLiteral {word : List Char} (h : isStringLiteral word = true) :
    word.count '"' = 2 := by
  obtain ⟨inner, rfl, hinner⟩ := isStringLiteral_iff.mp h
  simp [List.count_eq_zero.mpr hinner]

/-- A stretch with quotes next to it is a string literal if there is one on each side. -/
theorem isStringLiteral_quoted_iff {token : List Char} (h : '"' ∉ token) (opening closing : Prop)
    [Decidable opening] [Decidable closing] :
    isStringLiteral ((if opening then ['"'] else []) ++ token ++ (if closing then ['"'] else [])) =
      true ↔ opening ∧ closing := by
  constructor
  · intro hliteral
    have hcount := count_quote_of_isStringLiteral hliteral
    rw [List.count_append, List.count_append, List.count_eq_zero.mpr h] at hcount
    by_cases hopening : opening <;> by_cases hclosing : closing <;>
      simp [hopening, hclosing] at hcount ⊢
  · rintro ⟨hopening, hclosing⟩
    rw [if_pos hopening, if_pos hclosing]
    exact isStringLiteral_iff.mpr ⟨token, rfl, h⟩

/-- A stretch is all of its line if the line holds no boundary. -/
theorem Stretch.whole_iff {line front token back : List Char} (h : Stretch line front token back) :
    (front = [] ∧ back = []) ↔ ∀ c ∈ line, isBoundary c = false := by
  constructor
  · rintro ⟨rfl, rfl⟩ c hc
    rw [h.split, List.nil_append, List.append_nil] at hc
    exact h.inner c hc
  -- a boundary character would stand on either side of the token, if anything did.
  · intro hnone
    rw [h.split] at hnone
    constructor
    · rcases List.eq_nil_or_concat' front with hnil | ⟨init, c, rfl⟩
      · exact hnil
      · have hboundary := h.front_boundary c (by simp)
        rw [hnone c (by simp)] at hboundary
        cases hboundary
    · cases back with
      | nil => rfl
      | cons c rest =>
        have hboundary := h.back_boundary c rfl
        rw [hnone c (by simp)] at hboundary
        cases hboundary

/-- **The token inside a literal is the literal** if the text of the literal holds no boundary, and
only then. -/
theorem isStringLiteral_tokenAt_iff {line front back : List Char} {column : Nat}
    (h : InsideLiteral line column front back) :
    (isStringLiteral (tokenAt line column) = true ↔
      ∀ c ∈ literalAround line column, isBoundary c = false) ∧
    ((∀ c ∈ literalAround line column, isBoundary c = false) →
      tokenAt line column = '"' :: (literalAround line column ++ ['"'])) := by
  obtain ⟨before, token, after, hstretch, htoken⟩ := tokenAt_inside_literal h
  have hplain : '"' ∉ token := fun hmem =>
    h.plain (by rw [hstretch.split]; simp [hmem])
  rw [htoken, isStringLiteral_quoted_iff hplain, hstretch.whole_iff]
  refine ⟨Iff.rfl, fun hnone => ?_⟩
  obtain ⟨rfl, rfl⟩ := hstretch.whole_iff.mpr hnone
  rw [hstretch.split]
  simp

/-- **Where a cursor inside a string literal is refused.** The token there is the string literal if
the text of the literal holds no boundary, and it can be another literal only as a number in that
text. For just these tokens a renaming is refused as one of a literal. -/
theorem rename_inside_literal_iff {text newName : String} {p : Position} {line : List Char}
    (hline : (lines text.toList)[p.line]? = some line)
    (hopen : (line.take p.character).count '"' % 2 = 1) (hclose : '"' ∈ line.drop p.character)
    (hname : newName ≠ "") :
    (∃ front back, InsideLiteral line p.character front back) ∧
      (isStringLiteral (tokenAt line p.character) = true ↔
        ∀ c ∈ literalAround line p.character, isBoundary c = false) ∧
      ((∀ c ∈ literalAround line p.character, isBoundary c = false) →
        tokenAt line p.character = '"' :: (literalAround line p.character ++ ['"'])) ∧
      (isLiteral (tokenAt line p.character) = true ↔
        isNumber (tokenAt line p.character) = true ∨
          ∀ c ∈ literalAround line p.character, isBoundary c = false) ∧
      (rename text p newName = .error (.literal (String.ofList (tokenAt line p.character))) ↔
        isNumber (tokenAt line p.character) = true ∨
          ∀ c ∈ literalAround line p.character, isBoundary c = false) := by
  obtain ⟨front, back, hinside⟩ := exists_insideLiteral hopen hclose
  obtain ⟨hstring, hwhole⟩ := isStringLiteral_tokenAt_iff hinside
  have hliteral : isLiteral (tokenAt line p.character) = true ↔
      isNumber (tokenAt line p.character) = true ∨
        ∀ c ∈ literalAround line p.character, isBoundary c = false := by
    rw [isLiteral_eq, Bool.or_eq_true, hstring]
  refine ⟨⟨front, back, hinside⟩, hstring, hwhole, hliteral, ?_⟩
  rw [rename_eq_literal_iff, ← hliteral]
  -- the refusal is due to the token being a literal, which is all that is left to decide.
  constructor
  · exact fun h => h.2.2
  · intro h
    have hne := (refused_of_isLiteral h).1
    exact ⟨hname, wordAt?_eq_some_iff.mpr ⟨hne, line, hline, rfl⟩, h⟩

/-- A cursor in a literal of one word, behind a literal of two. -/
theorem rename_inside_literal_of_one_word :
    isLiteral (tokenAt "message(\"a b\" & \"hello\")".toList 19) = true ∧
      rename "message(\"a b\" & \"hello\")" ⟨0, 19⟩ "x" =
        .error (.literal (String.ofList (tokenAt "message(\"a b\" & \"hello\")".toList 19))) := by
  have hline : (lines "message(\"a b\" & \"hello\")".toList)[0]? =
      some "message(\"a b\" & \"hello\")".toList := by
    decide +kernel
  have hall : (literalAround "message(\"a b\" & \"hello\")".toList 19).all (! isBoundary ·) =
      true := by
    decide +kernel
  have hnone : ∀ c ∈ literalAround "message(\"a b\" & \"hello\")".toList 19,
      isBoundary c = false := fun c hc => by
    simpa using List.all_eq_true.mp hall c hc
  obtain ⟨-, -, -, hliteral, hrename⟩ := rename_inside_literal_iff (p := ⟨0, 19⟩) hline
    (by decide +kernel) (by decide +kernel) (by decide : "x" ≠ "")
  exact ⟨hliteral.mpr (Or.inr hnone), hrename.mpr (Or.inr hnone)⟩

/-- A word in a literal of several words is renamed from there. -/
theorem word_in_literal_renamed :
    (¬ ∀ (text newName : String) (p : Position) (line : List Char),
      (lines text.toList)[p.line]? = some line → (line.take p.character).count '"' % 2 = 1 →
      '"' ∈ line.drop p.character → newName ≠ "" →
        isLiteral (tokenAt line p.character) = true ∧
          ∃ word, rename text p newName = .error (.literal word)) ∧
    ∃ edits, rename "declare $x\nmessage(\"set $x now\")" ⟨1, 14⟩ "$y" = .ok edits ∧
      applyEdits edits "declare $x\nmessage(\"set $x now\")" =
        "declare $y\nmessage(\"set $y now\")" := by
  have htarget : renameTarget "declare $x\nmessage(\"set $x now\")" ⟨1, 14⟩ "$y" =
      .ok ['$', 'x'] := by
    decide +kernel
  have hedits := rename_eq_ok_iff.mpr ⟨_, htarget, rfl⟩
  refine ⟨fun h => ?_, _, hedits, by decide +kernel⟩
  have hline : (lines "declare $x\nmessage(\"set $x now\")".toList)[1]? =
      some "message(\"set $x now\")".toList := by
    decide +kernel
  obtain ⟨-, word, hrefused⟩ := h _ "$y" ⟨1, 14⟩ _ hline (by decide +kernel) (by decide +kernel)
    (by decide)
  rw [hedits] at hrefused
  cases hrefused

end KspWorkbench
