import KspWorkbench.Proofs.Script.Occurrences
import KspWorkbench.Script.Navigation

/-!
# The declarations of a text

A line declares a variable, a callback or a function, each with a name that is not empty
(`declared?_cases`), and every symbol of a text comes from one of its lines (`mem_collect`). So what
a text declares are names: `isName_of_declares`.
-/

namespace KspWorkbench

/-! ## §1 — what a line declares -/

/-- The declared name as it stands in the script, with the sigil of a variable. -/
def Form.word : Form → List Char
  | .variable type _ name => type.sigil :: name
  | .callback name _ => name
  | .function name => name

/-- The source name of a symbol is the word of its declaration, sigil included. -/
theorem sourceName_toSymbol (widgets : Widgets) (form : Form) (line column : Nat) :
    (form.toSymbol widgets line column).sourceName = String.ofList form.word := by
  match form with
  | .variable type modifier name =>
    rw [← String.toList_inj]
    simp [Form.toSymbol, Symbol.sourceName, SymbolKind.variableType?, Form.word]
  | .callback name argument =>
    simp only [Form.toSymbol, Form.word]
    cases control? name argument <;> rfl
  | .function name => rfl

theorem line_toSymbol (widgets : Widgets) (form : Form) (line column : Nat) :
    (form.toSymbol widgets line column).line = line ∧
      (form.toSymbol widgets line column).column = column := by
  match form with
  | .variable type modifier name => exact ⟨rfl, rfl⟩
  | .callback name argument =>
    simp only [Form.toSymbol]
    cases control? name argument <;> exact ⟨rfl, rfl⟩
  | .function name => exact ⟨rfl, rfl⟩

/-- An identifier is not empty, and it is read to its end. -/
theorem identifier?_eq_some {cs name rest : List Char} (h : identifier? cs = some (name, rest)) :
    name ≠ [] ∧ name = cs.takeWhile isIdentifierChar ∧ rest = cs.dropWhile isIdentifierChar := by
  rw [identifier?, spanIdentifier] at h
  cases hrun : cs.takeWhile isIdentifierChar with
  | nil => simp [hrun] at h
  | cons c run =>
    rw [hrun] at h
    cases h
    exact ⟨List.cons_ne_nil c run, rfl, rfl⟩

theorem isIdentifierChar_of_mem_takeWhile {cs : List Char} {c : Char}
    (h : c ∈ cs.takeWhile isIdentifierChar) : isIdentifierChar c = true :=
  List.all_eq_true.mp List.all_takeWhile c h

/-- A word of identifier characters, not empty, is a name. -/
theorem isName_of_identifier? {cs name rest : List Char} (h : identifier? cs = some (name, rest)) :
    isName name = true := by
  obtain ⟨hne, hname, -⟩ := identifier?_eq_some h
  have hident : ∀ c ∈ name, isIdentifierChar c = true := fun c hc =>
    isIdentifierChar_of_mem_takeWhile (hname ▸ hc)
  cases name with
  | nil => exact absurd rfl hne
  | cons c name =>
    exact isName_cons.mpr ⟨isNameChar_of_isIdentifierChar (hident c (by simp)),
      fun d hd => hident d (by simp [hd])⟩

/-- **What a line declares**: a variable, a callback or a function, with the scan that found it. -/
theorem declared?_cases {line : List Char} {d : Declared} (h : declared? line = some d) :
    variableForm? line = some d ∨ callbackForm? line = some d ∨ functionForm? line = some d := by
  simp only [declared?, Option.orElse_eq_orElse, Option.orElse_eq_or, Option.or_eq_some_iff] at h
  rcases h with h | ⟨-, h | ⟨-, h⟩⟩
  · exact Or.inl h
  · exact Or.inr (Or.inl h)
  · exact Or.inr (Or.inr h)

/-- The parts of a line that declares a variable: what stands before the name, and the name. -/
theorem variableForm?_eq_some {line : List Char} {d : Declared} (h : variableForm? line = some d) :
    ∃ rest modifier type named name behind, afterKeyword? "declare".toList line = some rest ∧
      modifier? rest = some (modifier, type.sigil :: named) ∧
      identifier? named = some (name, behind) ∧
      d = ⟨.variable type modifier name, line.length - (named.length + 1)⟩ := by
  simp only [variableForm?, Option.bind_eq_bind, Option.bind_eq_some_iff,
    Option.map_eq_some_iff] at h
  obtain ⟨rest, hrest, ⟨modifier, after⟩, hmodifier, ⟨sigil, named⟩, ⟨c, hc, hsplit⟩, type, htype,
    ⟨name, behind⟩, hname, hd⟩ := h
  cases hd
  cases hsplit
  rw [VariableType.ofSigil?_eq_some_iff] at htype
  subst htype
  -- the sigil is the first character behind the modifier.
  cases after with
  | nil => cases hc
  | cons c named =>
    cases hc
    exact ⟨rest, modifier, type, named, name, behind, hrest, hmodifier, hname, rfl⟩

theorem callbackForm?_eq_some {line : List Char} {d : Declared} (h : callbackForm? line = some d) :
    ∃ rest name behind, afterKeyword? "on".toList line = some rest ∧
      identifier? rest = some (name, behind) ∧
      d = ⟨.callback name (argument? behind), line.length - rest.length⟩ := by
  simp only [callbackForm?, Option.bind_eq_bind, Option.bind_eq_some_iff] at h
  obtain ⟨rest, hrest, ⟨name, behind⟩, hname, hd⟩ := h
  cases hd
  exact ⟨rest, name, behind, hrest, hname, rfl⟩

theorem functionForm?_eq_some {line : List Char} {d : Declared} (h : functionForm? line = some d) :
    ∃ rest name behind, afterKeyword? "function".toList line = some rest ∧
      identifier? rest = some (name, behind) ∧
      d = ⟨.function name, line.length - rest.length⟩ := by
  simp only [functionForm?, Option.bind_eq_bind, Option.bind_eq_some_iff] at h
  obtain ⟨rest, hrest, ⟨name, behind⟩, hname, hd⟩ := h
  cases hd
  exact ⟨rest, name, behind, hrest, hname, rfl⟩

theorem isSigil_sigil (type : VariableType) : isSigil type.sigil = true := by
  rw [isSigil, VariableType.ofSigil?_sigil]
  rfl

/-- **What a line declares is a name.** -/
theorem isName_of_declared? {line : List Char} {d : Declared} (h : declared? line = some d) :
    isName d.form.word = true := by
  rcases declared?_cases h with h | h | h
  · obtain ⟨_, _, type, _, name, _, -, -, hname, rfl⟩ := variableForm?_eq_some h
    obtain ⟨-, hrun, -⟩ := identifier?_eq_some hname
    refine isName_cons.mpr ⟨?_, fun c hc => isIdentifierChar_of_mem_takeWhile (hrun ▸ hc)⟩
    simp [isNameChar, isSigil_sigil]
  · obtain ⟨_, _, _, -, hname, rfl⟩ := callbackForm?_eq_some h
    exact isName_of_identifier? hname
  · obtain ⟨_, _, _, -, hname, rfl⟩ := functionForm?_eq_some h
    exact isName_of_identifier? hname

/-- A form whose name starts with a sigil is that of a variable. -/
theorem form_of_declared? {line : List Char} {d : Declared} (h : declared? line = some d)
    {c : Char} (hhead : d.form.word.head? = some c) (hc : isIdentifierChar c = false) :
    ∃ type modifier name, d.form = .variable type modifier name := by
  -- callbacks and functions have identifiers for names.
  have hident : ∀ {cs name behind : List Char}, identifier? cs = some (name, behind) →
      name.head? ≠ some c := by
    intro cs name behind hname hfirst
    obtain ⟨-, hrun, -⟩ := identifier?_eq_some hname
    have hmem : c ∈ cs.takeWhile isIdentifierChar := hrun ▸ List.mem_of_head? hfirst
    rw [isIdentifierChar_of_mem_takeWhile hmem] at hc
    cases hc
  rcases declared?_cases h with h | h | h
  · obtain ⟨_, modifier, type, _, name, _, -, -, -, rfl⟩ := variableForm?_eq_some h
    exact ⟨type, modifier, name, rfl⟩
  · obtain ⟨_, _, _, -, hname, rfl⟩ := callbackForm?_eq_some h
    exact absurd hhead (hident hname)
  · obtain ⟨_, _, _, -, hname, rfl⟩ := functionForm?_eq_some h
    exact absurd hhead (hident hname)

/-- A line behind its keyword: white space, the keyword, at least one blank and the rest. -/
theorem split_keyword {keyword line rest : List Char} (h : afterKeyword? keyword line = some rest) :
    ∃ lead blanks, line = lead ++ keyword ++ blanks ++ rest ∧ (∀ c ∈ lead, isBlank c = true) ∧
      (∀ c ∈ blanks, isBlank c = true) ∧ blanks ≠ [] := by
  simp only [afterKeyword?, Option.bind_eq_bind, Option.bind_eq_some_iff] at h
  obtain ⟨after, hafter, hrest⟩ := h
  split at hrest
  · next hblank =>
    cases hrest
    -- white space in front of the keyword is optional, and behind it required.
    refine ⟨line.takeWhile isBlank, after.takeWhile isBlank, ?_,
      fun c hc => List.mem_takeWhile_imp hc, fun c hc => List.mem_takeWhile_imp hc, ?_⟩
    · rw [List.append_assoc, List.append_assoc, trimStart, List.takeWhile_append_dropWhile,
        ← afterWord?_eq_some_iff.mp hafter, trimStart, List.takeWhile_append_dropWhile]
    · cases after with
      | nil => cases hblank
      | cons c after =>
        have hc : isBlank c = true := hblank
        simp [hc]
  · cases hrest

/-- What follows the keyword is the end of the line. -/
theorem suffix_of_afterKeyword? {keyword line rest : List Char}
    (h : afterKeyword? keyword line = some rest) : rest <:+ line := by
  obtain ⟨lead, blanks, hline, -⟩ := split_keyword h
  exact ⟨lead ++ keyword ++ blanks, hline.symm⟩

theorem suffix_of_modifier? {cs rest : List Char} {m : Option Modifier}
    (h : modifier? cs = some (m, rest)) : rest <:+ cs := by
  have hrest : rest = trimStart (cs.dropWhile isIdentifierChar) := by
    unfold modifier? spanIdentifier at h
    split at h
    · next hspan =>
      cases h
      rw [← (Prod.mk.inj hspan).2]
    · next hspan =>
      obtain ⟨_, -, hpair⟩ := Option.map_eq_some_iff.mp h
      rw [← (Prod.mk.inj hpair).2, ← (Prod.mk.inj hspan).2]
  rw [hrest]
  exact (List.dropWhile_suffix _).trans (List.dropWhile_suffix _)

/-- The name of a declared variable stands in the line. -/
theorem variable_isInfix_line {line : List Char} {d : Declared} (h : declared? line = some d)
    {type : VariableType} {modifier : Option Modifier} {name : List Char}
    (hform : d.form = .variable type modifier name) :
    type.sigil :: name <:+: line ∧ ∀ c ∈ name, isIdentifierChar c = true := by
  rcases declared?_cases h with h | h | h
  · obtain ⟨rest, _, _, named, _, _, hrest, hmodifier, hname, rfl⟩ := variableForm?_eq_some h
    cases hform
    obtain ⟨-, hrun, -⟩ := identifier?_eq_some hname
    refine ⟨?_, fun c hc => isIdentifierChar_of_mem_takeWhile (hrun ▸ hc)⟩
    -- behind the keyword and the modifier everything is left of the line, and the name opens it.
    have hnamed : type.sigil :: name <+: type.sigil :: named := by
      rw [hrun]
      exact List.cons_prefix_cons.mpr ⟨rfl, List.takeWhile_prefix _⟩
    have hline : type.sigil :: named <:+ line :=
      (suffix_of_modifier? hmodifier).trans (suffix_of_afterKeyword? hrest)
    exact hnamed.isInfix.trans hline.isInfix
  · obtain ⟨_, _, _, -, -, rfl⟩ := callbackForm?_eq_some h
    cases hform
  · obtain ⟨_, _, _, -, -, rfl⟩ := functionForm?_eq_some h
    cases hform

theorem trim_isInfix_self (cs : List Char) : trim cs <:+: cs := by
  have hend : trimEnd (trimStart cs) <+: trimStart cs := by
    have h := List.dropWhile_suffix isBlank (l := (trimStart cs).reverse)
    rwa [← List.reverse_prefix, List.reverse_reverse] at h
  exact hend.isInfix.trans (List.dropWhile_suffix _).isInfix

/-- The control that a callback handles stands in the line. -/
theorem control_isInfix_line {line : List Char} {d : Declared} (h : declared? line = some d)
    {name : List Char} {argument : Option (List Char)} {control : String}
    (hform : d.form = .callback name argument) (hcontrol : control? name argument = some control) :
    control.toList <:+: line := by
  rcases declared?_cases h with h | h | h
  · obtain ⟨_, _, _, _, _, _, -, -, -, rfl⟩ := variableForm?_eq_some h
    cases hform
  · obtain ⟨rest, _, behind, hrest, hname, rfl⟩ := callbackForm?_eq_some h
    cases hform
    obtain ⟨-, -, rfl⟩ := identifier?_eq_some hname
    unfold control? at hcontrol
    split at hcontrol
    · obtain ⟨inner, hinner, rfl⟩ := Option.map_eq_some_iff.mp hcontrol
      simp only [argument?, Option.bind_eq_bind, Option.bind_eq_some_iff] at hinner
      obtain ⟨after, hafter, hinner⟩ := hinner
      split at hinner
      · cases hinner
        -- the control stands between the brackets, without the blanks around it.
        have hopen : after <:+ trimStart (rest.dropWhile isIdentifierChar) :=
          ⟨['('], (afterWord?_eq_some_iff.mp hafter).symm⟩
        have hafter_line : after <:+ line :=
          hopen.trans ((List.dropWhile_suffix _).trans
            ((List.dropWhile_suffix _).trans (suffix_of_afterKeyword? hrest)))
        rw [String.toList_ofList]
        exact (trim_isInfix_self _).trans ((List.dropWhile_suffix _).isInfix.trans
          ((List.takeWhile_prefix _).isInfix.trans hafter_line.isInfix))
      · cases hinner
    · cases hcontrol
  · obtain ⟨_, _, _, -, -, rfl⟩ := functionForm?_eq_some h
    cases hform

/-! ## §2 — the symbols of a text -/

/-- A symbol comes from the line with its number. -/
theorem mem_collectFrom {symbol : Symbol} {start : Nat} {widgets : Widgets}
    {ls : List (List Char)} (h : symbol ∈ collectFrom start widgets ls) :
    ∃ known line number d, (line, number) ∈ ls.zipIdx start ∧ declared? line = some d ∧
      symbol = d.form.toSymbol known number d.column := by
  -- by induction on the lines, with the widgets that were declared so far.
  induction ls generalizing start widgets with
  | nil => cases h
  | cons l ls ih =>
    rw [List.zipIdx_cons]
    rw [collectFrom] at h
    cases hd : declared? l with
    | none =>
      rw [hd] at h
      obtain ⟨known, line, number, d, hline, hfound⟩ := ih h
      exact ⟨known, line, number, d, List.mem_cons_of_mem _ hline, hfound⟩
    | some d =>
      rw [hd] at h
      rcases List.mem_cons.mp h with rfl | hmem
      · exact ⟨widgets, l, start, d, List.mem_cons_self, hd, rfl⟩
      · obtain ⟨known, line, number, d, hline, hfound⟩ := ih hmem
        exact ⟨known, line, number, d, List.mem_cons_of_mem _ hline, hfound⟩

/-- Every symbol of a text is that of a declaration in its line. -/
theorem mem_collect {symbol : Symbol} {text : String} (h : symbol ∈ collect text) :
    ∃ widgets line d, (lines text.toList)[symbol.line]? = some line ∧ declared? line = some d ∧
      symbol = d.form.toSymbol widgets symbol.line d.column := by
  obtain ⟨widgets, line, number, d, hline, hd, rfl⟩ := mem_collectFrom h
  rw [(line_toSymbol widgets d.form number d.column).1]
  exact ⟨widgets, line, d, List.mk_mem_zipIdx_iff_getElem?.mp hline, hd, rfl⟩

/-- What a line declares is a symbol of the lines. -/
theorem exists_mem_collectFrom {line : List Char} {number start : Nat} {ls : List (List Char)}
    {d : Declared} (hline : (line, number) ∈ ls.zipIdx start) (hd : declared? line = some d)
    (widgets : Widgets) :
    ∃ symbol ∈ collectFrom start widgets ls, symbol.line = number ∧ symbol.column = d.column ∧
      symbol.sourceName = String.ofList d.form.word := by
  induction ls generalizing start widgets with
  | nil => cases hline
  | cons l ls ih =>
    rw [List.zipIdx_cons, List.mem_cons] at hline
    rw [collectFrom]
    rcases hline with heq | hline
    · obtain ⟨rfl, rfl⟩ := Prod.mk.inj heq
      rw [hd]
      exact ⟨_, List.mem_cons_self, (line_toSymbol _ _ _ _).1, (line_toSymbol _ _ _ _).2,
        sourceName_toSymbol _ _ _ _⟩
    -- the declaration of an earlier line only adds to the widgets.
    · cases declared? l with
      | none => exact ih hline widgets
      | some first =>
        obtain ⟨symbol, hsymbol, hfound⟩ :=
          ih hline (widgets.declare (first.form.toSymbol widgets start first.column))
        exact ⟨symbol, List.mem_cons_of_mem _ hsymbol, hfound⟩

/-- The name of a declared variable is a sigil and an identifier. -/
theorem exists_variable_of_mem_collect {symbol : Symbol} {text : String} {word : List Char}
    (h : symbol ∈ collect text) (hvariable : symbol.kind.variableType?.isSome = true)
    (hsource : symbol.sourceName = String.ofList word) :
    ∃ (type : VariableType) (name : List Char), word = type.sigil :: name ∧ name ≠ [] ∧
      ∀ c ∈ name, isIdentifierChar c = true := by
  obtain ⟨widgets, line, d, -, hd, heq⟩ := mem_collect h
  rw [heq, sourceName_toSymbol, String.ofList_inj] at hsource
  -- callbacks and functions are no variables.
  rcases declared?_cases hd with hform | hform | hform
  · obtain ⟨_, _, type, _, name, _, -, -, hname, rfl⟩ := variableForm?_eq_some hform
    obtain ⟨hne, hrun, -⟩ := identifier?_eq_some hname
    exact ⟨type, name, hsource.symm, hne, fun c hc => isIdentifierChar_of_mem_takeWhile (hrun ▸ hc)⟩
  · obtain ⟨_, name, behind, -, -, rfl⟩ := callbackForm?_eq_some hform
    rw [heq] at hvariable
    simp only [Form.toSymbol] at hvariable
    cases hcontrol : control? name (argument? behind) <;> rw [hcontrol] at hvariable <;>
      cases hvariable
  · obtain ⟨_, _, _, -, -, rfl⟩ := functionForm?_eq_some hform
    rw [heq] at hvariable
    cases hvariable

/-- **What a text declares are names.** -/
theorem isName_of_declares {text : String} {word : List Char}
    (h : declares (collect text) (String.ofList word) = true) : isName word = true := by
  obtain ⟨symbol, hsymbol, hname⟩ := List.any_eq_true.mp h
  obtain ⟨widgets, line, d, -, hd, heq⟩ := mem_collect hsymbol
  have hword : symbol.sourceName = String.ofList word := of_decide_eq_true hname
  rw [heq, sourceName_toSymbol] at hword
  rw [← String.ofList_inj.mp hword]
  exact isName_of_declared? hd

end KspWorkbench
