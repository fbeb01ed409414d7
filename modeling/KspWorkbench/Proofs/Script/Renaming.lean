import KspWorkbench.Proofs.Script.Editing
import KspWorkbench.Proofs.Script.RenamedLine
import KspWorkbench.Proofs.Script.Undo

/-!
# Renaming keeps the declarations

A variable is renamed to another one of its type that occurs nowhere in the text. Every line then
declares what it declared before, and every callback is linked to the same widget type.

* **`VariableRenaming.declared?_replace`** — a renamed line declares what the line declared, at the
  same column, renamed.
* **`VariableRenaming.lookup_renameWidgets`** — a renamed control is found where the control was.
* **`VariableRenaming.collectFrom_replace`** — renamed lines declare the renamed symbols.
* **`rename_keeps_declarations`** — the statement for a text, a cursor and the edits.
-/

namespace KspWorkbench

/-! ## §1 — renamed symbols -/

/-- A kind of symbol after a renaming: a callback handles the renamed control. -/
def SymbolKind.rename (word name : List Char) : SymbolKind → SymbolKind
  | .controlCallback control widget =>
    .controlCallback (String.ofList (replaceOccurrences word name control.toList)) widget
  | kind => kind

/-- A symbol after a renaming of variables. -/
def Symbol.rename (word name : List Char) (s : Symbol) : Symbol :=
  { s with
    name := if s.sourceName = String.ofList word then String.ofList name.tail else s.name
    kind := s.kind.rename word name }

/-- A form after a renaming of variables. -/
def Form.rename (word name : List Char) : Form → Form
  | .variable type modifier n =>
    .variable type modifier (if type.sigil :: n = word then name.tail else n)
  | .callback n argument => .callback n (argument.map (replaceOccurrences word name))
  | .function n => .function n

/-- What a line declares after a renaming of variables. -/
def Declared.rename (word name : List Char) (d : Declared) : Declared :=
  { d with form := d.form.rename word name }

namespace VariableRenaming

variable (r : VariableRenaming)

/-! ## §2 — what a line declares -/

/-- The declaration of a variable, read by its three readers in turn. -/
theorem variableForm?_eq (line : List Char) :
    variableForm? line =
      (afterKeyword? "declare".toList line).bind fun rest =>
        (modifier? rest).bind fun (modifier, after) =>
          (named? after).map fun (type, n) =>
            ⟨.variable type modifier n, line.length - after.length⟩ := by
  simp only [variableForm?, Option.bind_eq_bind]
  refine Option.bind_congr fun rest _ => Option.bind_congr fun found _ => ?_
  obtain ⟨modifier, after⟩ := found
  cases after with
  | nil => rfl
  | cons c named =>
    simp only [named?, List.head?_cons, List.tail_cons, Option.map_some, Option.bind_some]
    cases VariableType.ofSigil? c with
    | none => rfl
    | some type => cases identifier? named <;> rfl

/-- **A renamed line declares the same variable**, renamed. The name must stand alone where the line
declares it. -/
theorem variableForm?_replace {line : List Char}
    (hwhole : ∀ d, variableForm? line = some d → d.form.word = r.word →
      (line.take d.column).getLast?.any isNameChar = false) :
    variableForm? (r.replace none line) =
      (variableForm? line).map (Declared.rename r.word r.name) := by
  have hkeyword : Plain "declare".toList := plain_of_all (by decide +kernel)
  rw [variableForm?_eq] at hwhole
  rw [variableForm?_eq, variableForm?_eq, r.afterKeyword?_replace hkeyword]
  cases hrest : afterKeyword? "declare".toList line with
  | none => rfl
  | some rest =>
    obtain ⟨front, hline, hfront, hblank⟩ := split_of_afterKeyword? hkeyword hrest
    obtain ⟨front', hsplit, hfront', hmodifier⟩ := r.modifier?_replace rest
    simp only [hrest, Option.map_some, Option.bind_some] at hwhole ⊢
    rw [hmodifier]
    rw [modifier?_eq] at hwhole ⊢
    generalize trimStart (rest.dropWhile isIdentifierChar) = after at hsplit hwhole ⊢
    cases hfound : modifierOf? (rest.takeWhile isIdentifierChar) with
    | none => rfl
    | some modifier =>
      simp only [hfound, Option.map_some, Option.bind_some] at hwhole ⊢
      subst hsplit hline
      -- what is read before the name is the same in both lines.
      have hreplace : r.replace none (front ++ (front' ++ after)) =
          front ++ front' ++ r.replace front'.getLast? after := by
        rw [r.replace_append hfront, Option.or_none, r.replace_congr hblank,
          r.replace_append hfront', Option.or_none, List.append_assoc]
      have hcolumn : (front ++ (front' ++ after)).length - after.length =
          (front ++ front').length := by
        simp only [List.length_append]
        omega
      have hcolumn' : (r.replace none (front ++ (front' ++ after))).length -
          (r.replace front'.getLast? after).length = (front ++ front').length := by
        rw [hreplace]
        simp only [List.length_append]
        omega
      have halone : named? after = some (r.type, r.old) → front'.getLast?.any isNameChar = false := by
        intro hnamed
        have hbefore := hwhole _ (by rw [hnamed]; rfl) rfl
        rw [hcolumn, ← List.append_assoc, List.take_left, List.getLast?_append] at hbefore
        cases hlast : front'.getLast? with
        | none => rfl
        | some c => simpa [hlast] using hbefore
      rw [hcolumn, hcolumn', r.named?_replace halone, Option.map_map, Option.map_map]
      rfl

/-- A renamed line has the same identifier behind its keyword, and what follows it is renamed. -/
theorem identifier?_replace (cs : List Char) :
    identifier? (r.replace none cs) =
      (identifier? cs).map fun (n, behind) => (n, r.replace n.getLast? behind) := by
  have hspan := r.span_replace (fun _ => isIdentifierChar_of_isSigil) none cs
  rw [identifier?, identifier?, spanIdentifier, spanIdentifier, hspan.1, hspan.2, Option.or_none]
  cases cs.takeWhile isIdentifierChar <;> rfl

/-- A keyword and its white space are not renamed, so the column of what follows stays. -/
theorem column_replace {keyword line rest : List Char} (hkeyword : Plain keyword)
    (h : afterKeyword? keyword line = some rest) :
    (r.replace none line).length - (r.replace none rest).length = line.length - rest.length := by
  obtain ⟨front, rfl, hfront, hblank⟩ := split_of_afterKeyword? hkeyword h
  rw [r.replace_append hfront, Option.or_none, r.replace_congr hblank]
  simp only [List.length_append]
  omega

/-- The renamed line of a callback declares the same callback, with its control renamed. -/
theorem callbackForm?_replace (line : List Char) :
    callbackForm? (r.replace none line) =
      (callbackForm? line).map (Declared.rename r.word r.name) := by
  have hkeyword : Plain "on".toList := plain_of_all (by decide +kernel)
  simp only [callbackForm?, Option.bind_eq_bind]
  rw [r.afterKeyword?_replace hkeyword]
  cases hrest : afterKeyword? "on".toList line with
  | none => rfl
  | some rest =>
    simp only [Option.map_some, Option.bind_some]
    rw [r.identifier?_replace, r.column_replace hkeyword hrest]
    cases identifier? rest with
    | none => rfl
    | some found =>
      simp only [Option.map_some, Option.bind_some]
      rw [r.argument?_replace]
      rfl

theorem functionForm?_replace (line : List Char) :
    functionForm? (r.replace none line) =
      (functionForm? line).map (Declared.rename r.word r.name) := by
  have hkeyword : Plain "function".toList := plain_of_all (by decide +kernel)
  simp only [functionForm?, Option.bind_eq_bind]
  rw [r.afterKeyword?_replace hkeyword]
  cases hrest : afterKeyword? "function".toList line with
  | none => rfl
  | some rest =>
    simp only [Option.map_some, Option.bind_some]
    rw [r.identifier?_replace, r.column_replace hkeyword hrest]
    cases identifier? rest <;> rfl

/-- The name stands alone where the line declares it, if the line does. -/
def Whole (line : List Char) : Prop :=
  ∀ d, declared? line = some d → d.form.word = r.word →
    (line.take d.column).getLast?.any isNameChar = false

/-- **A renamed line declares what the line declared**, at the same column, renamed. -/
theorem declared?_replace {line : List Char} (hwhole : r.Whole line) :
    declared? (replaceOccurrences r.word r.name line) =
      (declared? line).map (Declared.rename r.word r.name) := by
  have hvariable := r.variableForm?_replace fun d hd => hwhole d (by
    simp [declared?, Option.orElse_eq_orElse, hd])
  simp only [declared?, Option.orElse_eq_orElse, Option.orElse_eq_or, ← replace_none]
  rw [hvariable, r.callbackForm?_replace, r.functionForm?_replace, Option.map_or, Option.map_or]

/-! ## §3 — the symbols of renamed lines -/

/-- A text, renamed. -/
def renameText (text : String) : String :=
  String.ofList (replaceOccurrences r.word r.name text.toList)

/-- The controls known so far, renamed. -/
def renameWidgets (widgets : Widgets) : Widgets :=
  widgets.map fun (control, type) => (r.renameText control, type)

/-- A renamed text can be changed back, if the new name does not occur in it. -/
theorem renameText_cancel {text : String} (hfresh : ¬ r.name <:+: text.toList) :
    String.ofList (replaceOccurrences r.name r.word (r.renameText text).toList) = text := by
  rw [renameText, String.toList_ofList,
    replaceOccurrences_cancel r.isName_word r.isName_name hfresh, String.ofList_toList]

/-- A look-up after the keys are changed in a way that can be undone. -/
theorem lookup_map_key {α β : Type} [BEq α] [LawfulBEq α] (change back : α → α)
    {entries : List (α × β)} (hback : ∀ entry ∈ entries, back (change entry.1) = entry.1) {key : α}
    (hkey : back (change key) = key) :
    (entries.map fun (k, v) => (change k, v)).lookup (change key) = entries.lookup key := by
  induction entries with
  | nil => rfl
  | cons entry entries ih =>
    obtain ⟨k, v⟩ := entry
    rw [List.map_cons, List.lookup_cons, List.lookup_cons,
      ih fun entry hentry => hback entry (by simp [hentry])]
    by_cases hk : key = k
    · subst hk
      simp
    -- keys that differ stay different, since the change can be undone on all of them.
    · have hne : change key ≠ change k := by
        intro heq
        refine hk ?_
        calc key = back (change key) := hkey.symm
          _ = back (change k) := by rw [heq]
          _ = k := hback (k, v) (by simp)
      rw [beq_eq_false_iff_ne.mpr hk, beq_eq_false_iff_ne.mpr hne]

/-- The new name occurs in none of the controls known so far. -/
def Fresh (widgets : Widgets) : Prop :=
  ∀ entry ∈ widgets, ¬ r.name <:+: entry.1.toList

/-- **The link from a callback to its control is kept.** -/
theorem lookup_renameWidgets {widgets : Widgets} (hwidgets : r.Fresh widgets) {control : String}
    (hcontrol : ¬ r.name <:+: control.toList) :
    (r.renameWidgets widgets).lookup (r.renameText control) = widgets.lookup control := by
  rw [renameWidgets]
  exact lookup_map_key r.renameText
    (fun text => String.ofList (replaceOccurrences r.name r.word text.toList))
    (fun entry hentry => r.renameText_cancel (hwidgets entry hentry))
    (r.renameText_cancel hcontrol)

/-- A variable's name in the script, renamed as a text, is the name of the renamed variable. -/
theorem replace_sourceName (type : VariableType) {n : List Char}
    (hn : ∀ c ∈ n, isIdentifierChar c = true) :
    replaceOccurrences r.word r.name (type.sigil :: n) =
      type.sigil :: (if type.sigil :: n = r.word then r.new else n) := by
  -- behind the sigil there are only characters of identifiers, so nothing else can be renamed.
  by_cases hword : type.sigil :: n = r.word
  · have hfound : replaceFrom r.word r.name none (r.word ++ []) = r.name ++ [] :=
      replaceFrom_found r.isName_word rfl
    rw [List.append_nil, List.append_nil] at hfound
    rw [if_pos hword, hword, replaceOccurrences_eq, hfound, (List.cons.inj hword).1, name]
  · rw [if_neg hword, ← replace_none]
    have hrun : n.takeWhile isIdentifierChar = n := List.takeWhile_eq_self_iff.mpr hn
    have hother : ¬ (type = r.type ∧ n.takeWhile isIdentifierChar = r.old) := by
      rintro ⟨rfl, hold⟩
      exact hword (by rw [word, ← hold, hrun])
    have hplain : Plain n := fun c hc => by
      cases hsigil : isSigil c with
      | false => rfl
      | true => rw [← hn c hc, isIdentifierChar_of_isSigil hsigil]
    rw [r.replace_other hother, r.replace_of_plain hplain]

theorem sourceName_eq_word {type : VariableType} {n : List Char} :
    String.singleton type.sigil ++ String.ofList n = String.ofList r.word ↔
      type.sigil :: n = r.word := by
  rw [← String.toList_inj]
  simp

/-- The symbol of a renamed form is the renamed symbol. -/
theorem toSymbol_rename {line : List Char} {d : Declared} (hd : declared? line = some d)
    (hfresh : ¬ r.name <:+: line) {widgets : Widgets} (hwidgets : r.Fresh widgets)
    (number : Nat) :
    (d.form.rename r.word r.name).toSymbol (r.renameWidgets widgets) number d.column =
      (d.form.toSymbol widgets number d.column).rename r.word r.name := by
  -- a name without a sigil is not the one that is renamed.
  have hname : ∀ n, d.form.word = n → (∀ type modifier m, d.form ≠ .variable type modifier m) →
      String.ofList n ≠ String.ofList r.word := by
    intro n hn hform heq
    rw [String.ofList_inj] at heq
    obtain ⟨type, modifier, m, hvariable⟩ := form_of_declared? hd
      (by rw [hn, heq]; rfl) (isIdentifierChar_of_isSigil (isSigil_sigil r.type))
    exact hform type modifier m hvariable
  match hform : d.form with
  | .variable type modifier n =>
    simp only [Form.rename, Form.toSymbol, Symbol.rename, SymbolKind.rename, Symbol.sourceName,
      SymbolKind.variableType?, r.sourceName_eq_word]
    split <;> rfl
  | .callback n argument =>
    have hne := hname n (by rw [hform]; rfl) (by simp [hform])
    simp only [Form.rename, Form.toSymbol, r.control?_replace]
    cases hcontrol : control? n argument with
    | none =>
      simp only [Option.map_none, Symbol.rename, SymbolKind.rename, Symbol.sourceName,
        SymbolKind.variableType?, hne, if_false]
    | some control =>
      have hlink := r.lookup_renameWidgets hwidgets
        fun hin => hfresh (hin.trans (control_isInfix_line hd hform hcontrol))
      rw [renameText] at hlink
      simp only [Option.map_some, Symbol.rename, SymbolKind.rename, Symbol.sourceName,
        SymbolKind.variableType?, hne, if_false, hlink]
  | .function n =>
    have hne := hname n (by rw [hform]; rfl) (by simp [hform])
    simp only [Form.rename, Form.toSymbol, Symbol.rename, SymbolKind.rename, Symbol.sourceName,
      SymbolKind.variableType?, hne, if_false]

/-- The controls known after a renamed symbol are those known after the symbol, renamed. -/
theorem declare_rename {line : List Char} {d : Declared} (hd : declared? line = some d)
    (widgets : Widgets) (number : Nat) :
    (r.renameWidgets widgets).declare
        ((d.form.toSymbol widgets number d.column).rename r.word r.name) =
      r.renameWidgets (widgets.declare (d.form.toSymbol widgets number d.column)) := by
  -- only a declared control adds a widget, under its name; all other symbols leave the widgets
  -- as they are.
  match hform : d.form with
  | .variable type (some (.widget widget)) n =>
    have hsource : (Symbol.rename r.word r.name
          ⟨String.ofList n, .variable type (some (.widget widget)), number, d.column⟩).sourceName =
        r.renameText (String.singleton type.sigil ++ String.ofList n) := by
      have hkey := r.replace_sourceName type (variable_isInfix_line hd hform).2
      rw [← String.toList_inj]
      simp only [Symbol.rename, Symbol.sourceName, SymbolKind.rename, SymbolKind.variableType?,
        renameText, r.sourceName_eq_word, String.toList_append, String.toList_singleton,
        String.toList_ofList, List.singleton_append, hkey]
      split <;> simp [name]
    exact congrArg (fun key => (key, widget) :: r.renameWidgets widgets) hsource
  | .variable type none n => rfl
  | .variable type (some .constant) n => rfl
  | .variable type (some .polyphonic) n => rfl
  | .callback n argument =>
    simp only [Form.toSymbol]
    cases control? n argument <;> rfl
  | .function n => rfl

/-- Declaring a control of a line without the new name keeps the widgets free of it. -/
theorem Fresh.declare {widgets : Widgets} (hwidgets : r.Fresh widgets) {line : List Char}
    (hfresh : ¬ r.name <:+: line) {d : Declared} (hd : declared? line = some d) (number : Nat) :
    r.Fresh (widgets.declare (d.form.toSymbol widgets number d.column)) := by
  -- the name of the control is part of the line, where the new name does not occur.
  match hform : d.form with
  | .variable type (some (.widget widget)) n =>
    intro entry hentry
    rcases List.mem_cons.mp hentry with rfl | hmem
    · have hkey : (String.singleton type.sigil ++ String.ofList n).toList = type.sigil :: n := by
        simp
      intro hin
      exact hfresh (List.IsInfix.trans (hkey ▸ hin) (variable_isInfix_line hd hform).1)
    · exact hwidgets entry hmem
  | .variable type none n => exact hwidgets
  | .variable type (some .constant) n => exact hwidgets
  | .variable type (some .polyphonic) n => exact hwidgets
  | .callback n argument =>
    simp only [Form.toSymbol]
    cases control? n argument <;> exact hwidgets
  | .function n => exact hwidgets

/-- **Renamed lines declare the renamed symbols.** -/
theorem collectFrom_replace {ls : List (List Char)} (hwhole : ∀ line ∈ ls, r.Whole line)
    (hfresh : ∀ line ∈ ls, ¬ r.name <:+: line) {widgets : Widgets} (hwidgets : r.Fresh widgets)
    (start : Nat) :
    collectFrom start (r.renameWidgets widgets) (ls.map (replaceOccurrences r.word r.name)) =
      (collectFrom start widgets ls).map (Symbol.rename r.word r.name) := by
  -- the invariant is that the widgets known so far are free of the new name, so that renamed
  -- controls stay apart.
  induction ls generalizing start widgets with
  | nil => rfl
  | cons line ls ih =>
    have hrest : ∀ {widgets}, r.Fresh widgets → ∀ start, _ := fun {widgets} h start =>
      ih (fun l hl => hwhole l (by simp [hl])) (fun l hl => hfresh l (by simp [hl])) h start
    rw [List.map_cons, collectFrom, collectFrom, r.declared?_replace (hwhole line (by simp))]
    cases hd : declared? line with
    | none => exact hrest hwidgets (start + 1)
    | some d =>
      have hline := hfresh line (by simp)
      simp only [Option.map_some, Declared.rename, List.map_cons]
      rw [r.toSymbol_rename hd hline hwidgets, r.declare_rename hd,
        hrest (Fresh.declare r hwidgets hline hd start)]

/-- A kind without a control is not touched by a renaming. -/
theorem kind_rename_of_no_control {word name : List Char} {kind : SymbolKind}
    (h : kind.handlesControl = false) : kind.rename word name = kind := by
  match kind with
  | .controlCallback _ _ => cases h
  | .variable _ _ => rfl
  | .callback => rfl
  | .function => rfl

/-- Text without sigils that no name continues is not renamed, and what follows it is renamed on
its own. -/
theorem renameText_append {front : String} (hfront : Plain front.toList)
    (hblank : front.toList.getLast?.any isNameChar = false) (text : String) :
    r.renameText (front ++ text) = front ++ r.renameText text := by
  rw [← String.toList_inj]
  simp only [renameText, String.toList_append, String.toList_ofList]
  rw [← replace_none, ← replace_none, r.replace_append hfront, Option.or_none,
    r.replace_congr hblank]

/-- The description of a callback that handles a control names the renamed control. -/
theorem description_rename (kind : SymbolKind) :
    (kind.rename r.word r.name).description =
      if kind.handlesControl then
        String.ofList (replaceOccurrences r.word r.name kind.description.toList)
      else kind.description := by
  cases hcontrol : kind.handlesControl with
  | false => rw [kind_rename_of_no_control hcontrol, if_neg Bool.false_ne_true]
  | true =>
    rw [if_pos rfl]
    -- the description names the control behind a fixed text.
    match kind with
    | .controlCallback control widget =>
      have hfront : Plain "UI Callback for ".toList := plain_of_all (by decide +kernel)
      have hblank : "UI Callback for ".toList.getLast?.any isNameChar = false := by
        simp only [String.reduceToList]
        decide
      exact (r.renameText_append hfront hblank control).symm
    | .variable _ _ => cases hcontrol
    | .callback => cases hcontrol
    | .function => cases hcontrol

end VariableRenaming

/-! ## §4 — the renaming of a text -/

/-- **Renaming keeps the declarations.** A declared variable that stands alone wherever it is
declared is renamed to one of its type that occurs nowhere in the text. The renaming is accepted,
and the text after it declares the same symbols on the same lines and columns, of the same kinds and
with the same widget types; the name is replaced in its own declarations, and where it occurs in the
control of a callback, in the control and in the description. -/
theorem rename_keeps_declarations {text newName : String} {p : Position} {word : List Char}
    (hword : wordAt? text p = some word)
    (hdeclared : ∃ s ∈ collect text, s.kind.variableType?.isSome = true ∧
      s.sourceName = String.ofList word)
    (hwhole : ∀ s ∈ collect text, s.sourceName = String.ofList word →
      ∀ line ∈ (lines text.toList)[s.line]?,
        (line.take s.column).getLast?.any (fun c => isIdentifierChar c || isSigil c) = false)
    (hsigil : newName.toList.head? = word.head?) (hne : newName.toList.tail ≠ [])
    (hident : ∀ c ∈ newName.toList.tail, isIdentifierChar c = true)
    (hfresh : ¬ newName.toList <:+: text.toList) :
    ∃ edits, rename text p newName = .ok edits ∧
      collect (applyEdits edits text) = (collect text).map (Symbol.rename word newName.toList) ∧
      ∀ s ∈ collect text, (s.rename word newName.toList).kind.description =
        if s.kind.handlesControl then
          String.ofList (replaceOccurrences word newName.toList s.kind.description.toList)
        else s.kind.description := by
  -- the word and the new name are the two sides of a renaming of a variable.
  obtain ⟨r, rfl, hname⟩ : ∃ r : VariableRenaming, word = r.word ∧ newName.toList = r.name := by
    obtain ⟨s, hs, hvariable, hsource⟩ := hdeclared
    obtain ⟨type, old, rfl, hold_ne, hold⟩ := exists_variable_of_mem_collect hs hvariable hsource
    cases hlist : newName.toList with
    | nil => exact absurd (by rw [hlist]; rfl) hne
    | cons c new =>
      rw [hlist] at hsigil hne hident
      obtain rfl : c = type.sigil := Option.some.inj hsigil
      exact ⟨⟨type, old, new, hold_ne, hne, hold, hident⟩, rfl, rfl⟩
  have hnonempty : newName ≠ "" := by
    rintro rfl
    exact hne rfl
  have hvariable : isVariableName r.word = true := isSigil_sigil r.type
  have haccepted := renameTarget_eq_ok_iff.mpr ⟨hnonempty, hword, Or.inl hvariable⟩
  refine ⟨_, rename_eq_ok_iff.mpr ⟨_, haccepted, rfl⟩, ?_, ?_⟩
  · have hline : ∀ line ∈ lines text.toList, r.Whole line := by
      intro line hline d hd hform
      obtain ⟨number, hnumber⟩ := List.getElem?_of_mem hline
      obtain ⟨s, hs, rfl, hcolumn, hsource⟩ :=
        exists_mem_collectFrom (List.mk_mem_zipIdx_iff_getElem?.mpr hnumber) hd []
      have hbefore := hwhole s hs (by rw [hsource, hform]) line hnumber
      rwa [hcolumn] at hbefore
    have hnone : ∀ line ∈ lines text.toList, ¬ r.name <:+: line := fun line hline hin =>
      hfresh (hname ▸ hin.trans (infix_of_mem_lines hline))
    have hempty : r.Fresh [] := by simp [VariableRenaming.Fresh]
    rw [hname, collect, lines_applyEdits r.isName_word r.isName_name]
    exact r.collectFrom_replace hline hnone hempty 0
  · intro s _
    rw [hname]
    exact r.description_rename s.kind

/-- A control, its callback and two uses of it. -/
theorem rename_keeps_declarations_knob :
    ∃ edits,
      rename "declare ui_knob $a\non ui_control ($a)\n$a := $a + 1" ⟨2, 0⟩ "$b" = .ok edits ∧
      collect (applyEdits edits "declare ui_knob $a\non ui_control ($a)\n$a := $a + 1") =
        [⟨"b", .variable .integer (some (.widget "ui_knob")), 0, 16⟩,
          ⟨"ui_control", .controlCallback "$b" (some "ui_knob"), 1, 3⟩] := by
  have hword : wordAt? "declare ui_knob $a\non ui_control ($a)\n$a := $a + 1" ⟨2, 0⟩ =
      some ['$', 'a'] := by
    decide +kernel
  obtain ⟨edits, hedits, hcollect, -⟩ :=
    rename_keeps_declarations hword (by decide +kernel) (by decide +kernel)
      (show "$b".toList.head? = some '$' by decide +kernel) (by decide +kernel)
      (List.all_eq_true.mp (by decide +kernel)) (by decide +kernel)
  refine ⟨edits, hedits, ?_⟩
  rw [hcollect]
  decide +kernel

end KspWorkbench
