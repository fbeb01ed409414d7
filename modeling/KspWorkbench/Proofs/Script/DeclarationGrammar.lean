import KspWorkbench.Proofs.Script.RenamedLine
import KspWorkbench.Proofs.Sequences

/-!
# The grammar of declarations

A declaration is told from the front of its line: white space, a keyword, white space, and for a
variable its modifier and its sigil; then a name. The scanner reads such a line from left to right
and never goes back. This module states the forms of a declaration on their own and shows that the
scanner finds exactly these.

* **`Announces`** — what can stand before a declared name, and what it says about it.
* **`Reads`** — a line begins with a declaration; **`declared?_of_reads`** is what the scanner finds
  then, and **`exists_reads`** that it finds nothing else.
* **`Announced.Describes`** — what a declaration says about its symbol.
* **`declaration_scan_exact`** — the symbols of a text, line by line.
-/

namespace KspWorkbench

/-! ## §1 — the forms of a declaration -/

/-- White space only. -/
def Blanks (cs : List Char) : Prop :=
  ∀ c ∈ cs, isBlank c = true

/-- Identifier characters only, and at least one. -/
structure IsIdentifier (cs : List Char) : Prop where
  ne_nil : cs ≠ []
  all : ∀ c ∈ cs, isIdentifierChar c = true

/-- A modifier as it is written; none where nothing is written. -/
inductive WrittenModifier : List Char → Option Modifier → Prop where
  | none : WrittenModifier [] none
  | constant : WrittenModifier "const".toList (some .constant)
  | polyphonic : WrittenModifier "polyphonic".toList (some .polyphonic)
  | widget {rest : List Char} (hrest : IsIdentifier rest) :
      WrittenModifier ("ui_".toList ++ rest)
        (some (.widget (String.ofList ("ui_".toList ++ rest))))

/-- What a declaration says about a name before the name itself. -/
inductive Announced where
  | declare (type : VariableType) (modifier : Option Modifier)
  | callback
  | function

/-- The sigil of a variable. -/
def Announced.sigil : Announced → List Char
  | .declare type _ => [type.sigil]
  | .callback | .function => []

/-- The modifier of a variable. -/
def Announced.modifier? : Announced → Option Modifier
  | .declare _ modifier => modifier
  | .callback | .function => none

/-- The first word of the declaration. -/
def Announced.keyword : Announced → List Char
  | .declare .. => "declare".toList
  | .callback => "on".toList
  | .function => "function".toList

/-- **The text before a declared name**, up to its sigil. -/
inductive Announces : List Char → Announced → Prop where
  | declare {lead gap written space : List Char} {type : VariableType}
      {modifier : Option Modifier} (hlead : Blanks lead) (hgap : Blanks gap) (hne : gap ≠ [])
      (hwritten : WrittenModifier written modifier) (hspace : Blanks space) :
      Announces (lead ++ "declare".toList ++ gap ++ (written ++ space)) (.declare type modifier)
  | callback {lead gap : List Char} (hlead : Blanks lead) (hgap : Blanks gap) (hne : gap ≠ []) :
      Announces (lead ++ "on".toList ++ gap) .callback
  | function {lead gap : List Char} (hlead : Blanks lead) (hgap : Blanks gap) (hne : gap ≠ []) :
      Announces (lead ++ "function".toList ++ gap) .function

/-- **A line begins with a declaration** of `run`, or of a longer name that begins with it. -/
structure Reads (line : List Char) (what : Announced) (front run behind : List Char) : Prop where
  split : line = front ++ (what.sigil ++ (run ++ behind))
  announces : Announces front what
  name : IsIdentifier run

/-! ## §2 — reading a line from left to right -/

theorem Blanks.append {xs ys : List Char} (hx : Blanks xs) (hy : Blanks ys) : Blanks (xs ++ ys) :=
  fun c hc => (List.mem_append.mp hc).elim (hx c) (hy c)

/-- White space goes up to the first character that is none. -/
theorem trimStart_append {blanks rest : List Char} (hblanks : Blanks blanks)
    (hrest : ∀ c ∈ rest.head?, isBlank c = false) : trimStart (blanks ++ rest) = rest :=
  (span_append blanks rest hblanks hrest).2

/-- What follows the keyword of a line. -/
theorem afterKeyword?_of_split {lead keyword gap : List Char} (rest : List Char)
    (hlead : Blanks lead) (hkeyword : IsIdentifier keyword) (hgap : Blanks gap) (hne : gap ≠ [])
    (hrest : ∀ c ∈ rest.head?, isBlank c = false) :
    afterKeyword? keyword (lead ++ keyword ++ gap ++ rest) = some rest := by
  have hstart : ∀ c ∈ (keyword ++ (gap ++ rest)).head?, isBlank c = false := by
    intro c hc
    rw [List.head?_append_of_ne_nil _ hkeyword.ne_nil] at hc
    exact isBlank_of_isIdentifierChar (hkeyword.all c (List.mem_of_mem_head? hc))
  have hword : afterWord? keyword (trimStart (lead ++ keyword ++ gap ++ rest)) =
      some (gap ++ rest) := by
    rw [List.append_assoc, List.append_assoc, trimStart_append hlead hstart]
    exact afterWord?_eq_some_iff.mpr rfl
  have hblank : (gap ++ rest).head?.any isBlank = true := by
    obtain ⟨c, more, rfl⟩ := List.exists_cons_of_ne_nil hne
    exact hgap c (by simp)
  simp only [afterKeyword?, hword, Option.bind_eq_bind, Option.bind_some, hblank, if_true,
    trimStart_append hgap hrest]

/-- A keyword that begins with another character is not that of the line. -/
theorem afterKeyword?_of_other {lead keyword other rest : List Char} (hlead : Blanks lead)
    (hother : IsIdentifier other) (hdiffer : keyword.head? ≠ other.head?) (hne : keyword ≠ []) :
    afterKeyword? keyword (lead ++ other ++ rest) = none := by
  obtain ⟨c, more, rfl⟩ := List.exists_cons_of_ne_nil hother.ne_nil
  obtain ⟨d, rest', rfl⟩ := List.exists_cons_of_ne_nil hne
  have hc : isBlank c = false := isBlank_of_isIdentifierChar (hother.all c (by simp))
  have hdc : d ≠ c := by simpa using hdiffer
  have hword : afterWord? (d :: rest') (trimStart (lead ++ (c :: more) ++ rest)) = none := by
    rw [List.append_assoc, trimStart_append hlead (by simpa using hc), afterWord?, if_neg]
    simp [hdc]
  rw [afterKeyword?, hword]
  rfl

/-- An identifier that begins here is read to its end, however much of it `run` is. -/
theorem identifier?_of_run {run : List Char} (hrun : IsIdentifier run) (behind : List Char) :
    identifier? (run ++ behind) =
      some ((run ++ behind).takeWhile isIdentifierChar,
        (run ++ behind).dropWhile isIdentifierChar) := by
  obtain ⟨c, more, rfl⟩ := List.exists_cons_of_ne_nil hrun.ne_nil
  have hc : isIdentifierChar c = true := hrun.all c (by simp)
  simp [identifier?, spanIdentifier, hc]

/-! ## §3 — modifiers -/

/-- Every modifier is written with characters of identifiers, so it is taken in one piece. -/
theorem WrittenModifier.all_identifier {written : List Char} {modifier : Option Modifier}
    (h : WrittenModifier written modifier) : ∀ c ∈ written, isIdentifierChar c = true := by
  cases h with
  | none => simp
  | constant => exact List.all_eq_true.mp (by decide +kernel)
  | polyphonic => exact List.all_eq_true.mp (by decide +kernel)
  | widget hrest =>
    intro c hc
    rcases List.mem_append.mp hc with hc | hc
    · exact List.all_eq_true.mp (by decide +kernel : "ui_".toList.all isIdentifierChar = true) c hc
    · exact hrest.all c hc

/-- **Which words are modifiers.** -/
theorem modifierOf?_eq_some_iff {word : List Char} {modifier : Option Modifier}
    (hword : ∀ c ∈ word, isIdentifierChar c = true) :
    VariableRenaming.modifierOf? word = some modifier ↔ WrittenModifier word modifier := by
  constructor
  -- the words are tried in turn; a widget is any other word that begins as one.
  · intro h
    unfold VariableRenaming.modifierOf? Modifier.ofWord? at h
    split at h
    · next hnil =>
      cases h
      rw [hnil]
      exact .none
    · split at h
      · next hconst =>
        cases h
        rw [hconst]
        exact .constant
      · split at h
        · next hpoly =>
          cases h
          rw [hpoly]
          exact .polyphonic
        · split at h
          · next hui =>
            cases h
            obtain ⟨rest, rfl⟩ := List.isPrefixOf_iff_prefix.mp hui.1
            refine .widget ⟨?_, fun c hc => hword c (by simp [hc])⟩
            rintro rfl
            exact absurd hui.2 (by decide)
          · cases h
  · intro h
    cases h with
    | none => rfl
    | constant => decide +kernel
    | polyphonic => decide +kernel
    | @widget rest hrest =>
      obtain ⟨c, more, rfl⟩ := List.exists_cons_of_ne_nil hrest.ne_nil
      simp [VariableRenaming.modifierOf?, Modifier.ofWord?]

/-- A modifier is read up to the sigil. -/
theorem modifier?_of_written {written space : List Char} {modifier : Option Modifier}
    (hwritten : WrittenModifier written modifier) (hspace : Blanks space) (type : VariableType)
    (named : List Char) :
    modifier? (written ++ (space ++ type.sigil :: named)) =
      some (modifier, type.sigil :: named) := by
  -- the modifier ends at white space, or at the sigil if there is none.
  have hstop : ∀ c ∈ (space ++ type.sigil :: named).head?, isIdentifierChar c = false := by
    intro c hc
    cases space with
    | nil =>
      cases hc
      exact isIdentifierChar_of_isSigil (isSigil_sigil type)
    | cons blank space =>
      cases hc
      cases hident : isIdentifierChar c with
      | false => rfl
      | true =>
        have hblank := hspace c (by simp)
        rw [isBlank_of_isIdentifierChar hident] at hblank
        cases hblank
  obtain ⟨htake, hdrop⟩ :=
    span_append written (space ++ type.sigil :: named) hwritten.all_identifier hstop
  have hsigil : ∀ c ∈ (type.sigil :: named).head?, isBlank c = false := by
    intro c hc
    cases hc
    exact isBlank_of_isSigil (isSigil_sigil type)
  rw [VariableRenaming.modifier?_eq, htake, hdrop,
    (modifierOf?_eq_some_iff hwritten.all_identifier).mpr hwritten, Option.map_some,
    trimStart_append hspace hsigil]

/-! ## §4 — what the scanner finds -/

/-- The form of a declaration in which `cs` stands behind the sigil. -/
def Announced.form (what : Announced) (cs : List Char) : Form :=
  match what with
  | .declare type modifier => .variable type modifier (cs.takeWhile isIdentifierChar)
  | .callback =>
    .callback (cs.takeWhile isIdentifierChar) (argument? (cs.dropWhile isIdentifierChar))
  | .function => .function (cs.takeWhile isIdentifierChar)

theorem isIdentifier_keywords :
    IsIdentifier "declare".toList ∧ IsIdentifier "on".toList ∧ IsIdentifier "function".toList :=
  ⟨⟨by decide +kernel, List.all_eq_true.mp (by decide +kernel)⟩,
    ⟨by decide +kernel, List.all_eq_true.mp (by decide +kernel)⟩,
    ⟨by decide +kernel, List.all_eq_true.mp (by decide +kernel)⟩⟩

theorem Announced.isIdentifier_keyword (what : Announced) : IsIdentifier what.keyword := by
  cases what with
  | declare _ _ => exact isIdentifier_keywords.1
  | callback => exact isIdentifier_keywords.2.1
  | function => exact isIdentifier_keywords.2.2

/-- Behind the keyword of a variable stands its modifier, if it has one, and then its sigil. -/
theorem exists_afterKeyword?_declare {lead gap written space : List Char}
    {modifier : Option Modifier} (hlead : Blanks lead) (hgap : Blanks gap) (hne : gap ≠ [])
    (hwritten : WrittenModifier written modifier) (hspace : Blanks space) (type : VariableType)
    (named : List Char) :
    ∃ rest, afterKeyword? "declare".toList
        (lead ++ "declare".toList ++ gap ++ (written ++ space) ++ type.sigil :: named) = some rest ∧
      modifier? rest = some (modifier, type.sigil :: named) := by
  obtain ⟨hdeclare, -⟩ := isIdentifier_keywords
  cases written with
  | nil =>
    -- all white space up to the sigil belongs to the keyword.
    have hread := afterKeyword?_of_split (type.sigil :: named) hlead hdeclare
      (hgap.append hspace) (by simp [hne]) (by
        intro c hc
        cases hc
        exact isBlank_of_isSigil (isSigil_sigil type))
    have hmodifier := modifier?_of_written hwritten (by simp [Blanks] : Blanks []) type named
    refine ⟨type.sigil :: named, ?_, hmodifier⟩
    rw [← hread]
    simp
  | cons c written =>
    have hread := afterKeyword?_of_split ((c :: written) ++ (space ++ type.sigil :: named))
      hlead hdeclare hgap hne (by
        intro d hd
        cases hd
        exact isBlank_of_isIdentifierChar (hwritten.all_identifier c (by simp)))
    refine ⟨_, ?_, modifier?_of_written hwritten hspace type named⟩
    rw [← hread]
    simp

/-- A line of the form of a variable is read as one. -/
theorem variableForm?_of_reads {line front run behind : List Char} {type : VariableType}
    {modifier : Option Modifier} (h : Reads line (.declare type modifier) front run behind) :
    variableForm? line =
      some ⟨(Announced.declare type modifier).form (run ++ behind), front.length⟩ := by
  obtain ⟨rfl, hannounces, hname⟩ := h
  cases hannounces with
  | declare hlead hgap hne hwritten hspace =>
    obtain ⟨rest, hrest, hmodifier⟩ :=
      exists_afterKeyword?_declare hlead hgap hne hwritten hspace type (run ++ behind)
    simp only [Announced.sigil, List.singleton_append]
    simp only [variableForm?, hrest, hmodifier, Option.bind_eq_bind, Option.bind_some,
      List.head?_cons, Option.map_some, List.tail_cons, VariableType.ofSigil?_sigil,
      identifier?_of_run hname, Announced.form]
    congr 2
    simp only [List.length_append, List.length_cons]
    omega

/-- Behind the keyword of a callback or a function stands its name. -/
theorem afterKeyword?_of_name {lead keyword gap run : List Char} (hlead : Blanks lead)
    (hkeyword : IsIdentifier keyword) (hgap : Blanks gap) (hne : gap ≠ []) (hrun : IsIdentifier run)
    (behind : List Char) :
    afterKeyword? keyword (lead ++ keyword ++ gap ++ (run ++ behind)) = some (run ++ behind) := by
  refine afterKeyword?_of_split _ hlead hkeyword hgap hne fun c hc => ?_
  rw [List.head?_append_of_ne_nil _ hrun.ne_nil] at hc
  exact isBlank_of_isIdentifierChar (hrun.all c (List.mem_of_mem_head? hc))

theorem callbackForm?_of_reads {line front run behind : List Char}
    (h : Reads line .callback front run behind) :
    callbackForm? line = some ⟨Announced.callback.form (run ++ behind), front.length⟩ := by
  obtain ⟨rfl, hannounces, hname⟩ := h
  cases hannounces with
  | callback hlead hgap hne =>
    obtain ⟨-, hon, -⟩ := isIdentifier_keywords
    have hread := afterKeyword?_of_name hlead hon hgap hne hname behind
    simp only [callbackForm?, Announced.sigil, List.nil_append, hread, Option.bind_eq_bind,
      Option.bind_some, identifier?_of_run hname, Announced.form]
    congr 2
    simp only [List.length_append]
    omega

theorem functionForm?_of_reads {line front run behind : List Char}
    (h : Reads line .function front run behind) :
    functionForm? line = some ⟨Announced.function.form (run ++ behind), front.length⟩ := by
  obtain ⟨rfl, hannounces, hname⟩ := h
  cases hannounces with
  | function hlead hgap hne =>
    obtain ⟨-, -, hfunction⟩ := isIdentifier_keywords
    have hread := afterKeyword?_of_name hlead hfunction hgap hne hname behind
    simp only [functionForm?, Announced.sigil, List.nil_append, hread, Option.bind_eq_bind,
      Option.bind_some, identifier?_of_run hname, Announced.form]
    congr 2
    simp only [List.length_append]
    omega

/-- A declaration begins with its keyword, white space aside. -/
theorem Announces.exists_lead {front : List Char} {what : Announced} (h : Announces front what) :
    ∃ lead more, Blanks lead ∧ front = lead ++ what.keyword ++ more := by
  cases h with
  | declare hlead _ _ _ _ => exact ⟨_, _, hlead, List.append_assoc _ _ _⟩
  | callback hlead _ _ => exact ⟨_, _, hlead, rfl⟩
  | function hlead _ _ => exact ⟨_, _, hlead, rfl⟩

/-- **A line has one keyword only.** -/
theorem Reads.afterKeyword?_eq_none {line front run behind : List Char} {what : Announced}
    (h : Reads line what front run behind) {keyword : List Char} (hne : keyword ≠ [])
    (hdiffer : keyword.head? ≠ what.keyword.head?) : afterKeyword? keyword line = none := by
  obtain ⟨lead, more, hlead, hfront⟩ := h.announces.exists_lead
  rw [h.split, hfront, List.append_assoc]
  exact afterKeyword?_of_other hlead what.isIdentifier_keyword hdiffer hne

/-- **The scanner finds every declaration**, with the longest name. -/
theorem declared?_of_reads {line front run behind : List Char} {what : Announced}
    (h : Reads line what front run behind) :
    declared? line = some ⟨what.form (run ++ behind), front.length⟩ := by
  have hvariable : afterKeyword? "declare".toList line = none → variableForm? line = none :=
    fun hnone => by simp only [variableForm?, hnone, Option.bind_eq_bind, Option.bind_none]
  have hcallback : afterKeyword? "on".toList line = none → callbackForm? line = none :=
    fun hnone => by simp only [callbackForm?, hnone, Option.bind_eq_bind, Option.bind_none]
  rw [declared?]
  -- no keyword begins like another one, so the forms that are tried earlier all fail.
  cases what with
  | declare type modifier =>
    rw [variableForm?_of_reads h]
    rfl
  | callback =>
    rw [hvariable (h.afterKeyword?_eq_none (by decide +kernel) (by decide +kernel)),
      callbackForm?_of_reads h]
    rfl
  | function =>
    rw [hvariable (h.afterKeyword?_eq_none (by decide +kernel) (by decide +kernel)),
      hcallback (h.afterKeyword?_eq_none (by decide +kernel) (by decide +kernel)),
      functionForm?_of_reads h]
    rfl

/-! ## §5 — and nothing else -/

/-- A name that is found is an identifier at the front of what was read. -/
theorem isIdentifier_of_identifier? {cs name rest : List Char}
    (h : identifier? cs = some (name, rest)) : IsIdentifier name ∧ cs = name ++ rest := by
  obtain ⟨hne, rfl, rfl⟩ := identifier?_eq_some h
  exact ⟨⟨hne, fun c hc => isIdentifierChar_of_mem_takeWhile hc⟩,
    (List.takeWhile_append_dropWhile).symm⟩

/-- A modifier that was read was written, with the white space behind it. -/
theorem exists_written {rest after : List Char} {modifier : Option Modifier}
    (h : modifier? rest = some (modifier, after)) :
    ∃ written space, rest = written ++ space ++ after ∧ WrittenModifier written modifier ∧
      Blanks space := by
  rw [VariableRenaming.modifier?_eq, Option.map_eq_some_iff] at h
  obtain ⟨_, hmodifier, hpair⟩ := h
  obtain ⟨rfl, rfl⟩ := Prod.mk.inj hpair
  refine ⟨rest.takeWhile isIdentifierChar, (rest.dropWhile isIdentifierChar).takeWhile isBlank, ?_,
    (modifierOf?_eq_some_iff fun c hc => isIdentifierChar_of_mem_takeWhile hc).mp hmodifier,
    fun c hc => List.mem_takeWhile_imp hc⟩
  rw [List.append_assoc, trimStart, List.takeWhile_append_dropWhile,
    List.takeWhile_append_dropWhile]

/-- **The scanner finds nothing but declarations.** -/
theorem exists_reads {line : List Char} {d : Declared} (h : declared? line = some d) :
    ∃ what front run behind, Reads line what front run behind := by
  -- each reader is opened up into the parts that it consumed, which make up the line.
  rcases declared?_cases h with h | h | h
  · obtain ⟨rest, modifier, type, named, name, behind, hrest, hmodifier, hname, -⟩ :=
      variableForm?_eq_some h
    obtain ⟨lead, gap, rfl, hlead, hgap, hne⟩ := split_keyword hrest
    obtain ⟨written, space, rfl, hwritten, hspace⟩ := exists_written hmodifier
    obtain ⟨hident, rfl⟩ := isIdentifier_of_identifier? hname
    refine ⟨.declare type modifier, _, name, behind, ?_, .declare hlead hgap hne hwritten hspace,
      hident⟩
    simp [Announced.sigil]
  · obtain ⟨rest, name, behind, hrest, hname, -⟩ := callbackForm?_eq_some h
    obtain ⟨lead, gap, rfl, hlead, hgap, hne⟩ := split_keyword hrest
    obtain ⟨hident, rfl⟩ := isIdentifier_of_identifier? hname
    exact ⟨.callback, _, name, behind, rfl, .callback hlead hgap hne, hident⟩
  · obtain ⟨rest, name, behind, hrest, hname, -⟩ := functionForm?_eq_some h
    obtain ⟨lead, gap, rfl, hlead, hgap, hne⟩ := split_keyword hrest
    obtain ⟨hident, rfl⟩ := isIdentifier_of_identifier? hname
    exact ⟨.function, _, name, behind, rfl, .function hlead hgap hne, hident⟩

/-! ## §6 — the symbol of a declaration -/

/-- An argument follows: an opening parenthesis, white space before it aside, something, and a
closing parenthesis. -/
def ArgumentFollows (behind argument : List Char) : Prop :=
  ∃ gap rest, behind = gap ++ '(' :: (argument ++ ')' :: rest) ∧ Blanks gap ∧ argument ≠ [] ∧
    ')' ∉ argument

/-- The argument that is read is the one that follows, up to the first closing parenthesis. -/
theorem argument?_eq_some_iff {behind argument : List Char} :
    argument? behind = some argument ↔ ArgumentFollows behind argument := by
  constructor
  · intro h
    simp only [argument?, Option.bind_eq_bind, Option.bind_eq_some_iff] at h
    obtain ⟨inner, hopen, h⟩ := h
    have hbehind : behind = behind.takeWhile isBlank ++ '(' :: inner := by
      have hsplit := afterWord?_eq_some_iff.mp hopen
      rw [trimStart] at hsplit
      rw [← List.singleton_append, ← hsplit, List.takeWhile_append_dropWhile]
    split at h
    · next hargument =>
      cases h
      -- the argument ends before the end of the line, so a closing parenthesis ends it.
      cases hclose : inner.dropWhile (· != ')') with
      | nil =>
        have hall := List.takeWhile_append_dropWhile (p := (· != ')')) (l := inner)
        rw [hclose, List.append_nil] at hall
        rw [hall] at hargument
        exact absurd hargument.2 (Nat.lt_irrefl _)
      | cons c rest =>
        have hhead : c ∈ (inner.dropWhile (· != ')')).head? := by rw [hclose]; rfl
        have hc : c = ')' := by simpa using stops_dropWhile hhead
        refine ⟨behind.takeWhile isBlank, rest, ?_, fun d hd => List.mem_takeWhile_imp hd,
          hargument.1, fun hmem => ?_⟩
        · rw [hc] at hclose
          rw [← hclose, List.takeWhile_append_dropWhile]
          exact hbehind
        · simpa using List.mem_takeWhile_imp hmem
    · cases h
  · rintro ⟨gap, rest, rfl, hgap, hne, hclose⟩
    have htrim : trimStart (gap ++ '(' :: (argument ++ ')' :: rest)) =
        ['('] ++ (argument ++ ')' :: rest) :=
      trimStart_append hgap (by intro c hc; cases hc; decide)
    have hinner : (argument ++ ')' :: rest).takeWhile (· != ')') = argument := by
      refine (span_append argument (')' :: rest) (fun c hc => ?_) (by simp)).1
      simpa using fun heq : c = ')' => hclose (heq ▸ hc)
    simp only [argument?, afterWord?_eq_some_iff.mpr htrim, Option.bind_eq_bind, Option.bind_some,
      hinner]
    exact if_pos ⟨hne, by simp⟩

/-- A callback names a control that it handles. -/
def NamesControl (name behind : List Char) : Prop :=
  "ui_".toList <+: name ∧ ∃ argument, ArgumentFollows behind argument

/-- A control is read off just those callbacks that name one. -/
theorem isSome_control?_iff (name behind : List Char) :
    (control? name (argument? behind)).isSome = true ↔ NamesControl name behind := by
  rw [control?, NamesControl, ← List.isPrefixOf_iff_prefix]
  split
  · next hprefix =>
    rw [Option.isSome_map, Option.isSome_iff_exists]
    simp only [argument?_eq_some_iff, hprefix, true_and]
  · next hprefix => exact iff_of_false Bool.false_ne_true fun h => hprefix h.1

/-- The kinds of the symbols that a declaration makes. -/
def Announced.Makes (what : Announced) (kind : SymbolKind) : Prop :=
  match what with
  | .declare type modifier => kind = .variable type modifier
  | .callback => kind = .callback ∨ ∃ control widget, kind = .controlCallback control widget
  | .function => kind = .function

/-- **What a declaration says about its symbol**: the kind, with the type and the modifier of a
variable, and from them whether it is a constant, polyphonic, and part of the user interface, as a
control or as a callback that handles one. -/
structure Announced.Describes (what : Announced) (name behind : List Char) (kind : SymbolKind) :
    Prop where
  makes : what.Makes kind
  isConstant_iff : kind.isConstant = true ↔ what.modifier? = some .constant
  isPolyphonic_iff : kind.isPolyphonic = true ↔ what.modifier? = some .polyphonic
  isInterface_iff : kind.isInterface = true ↔
    (∃ widget, what.modifier? = some (.widget widget)) ∨ what = .callback ∧ NamesControl name behind

/-- What the modifier decides. -/
theorem Announced.Makes.flags {what : Announced} {kind : SymbolKind} (h : what.Makes kind) :
    (kind.isConstant = true ↔ what.modifier? = some .constant) ∧
    (kind.isPolyphonic = true ↔ what.modifier? = some .polyphonic) ∧
    (kind.isControl = true ↔ ∃ widget, what.modifier? = some (.widget widget)) := by
  -- every kind of symbol is looked at, and only those of variables have flags.
  cases what with
  | declare type modifier =>
    cases h
    rcases modifier with _ | _ | _ | widget <;>
      simp [SymbolKind.isConstant, SymbolKind.isPolyphonic, SymbolKind.isControl,
        Announced.modifier?]
  | callback =>
    rcases h with rfl | ⟨control, widget, rfl⟩ <;>
      simp [SymbolKind.isConstant, SymbolKind.isPolyphonic, SymbolKind.isControl,
        Announced.modifier?]
  | function =>
    cases h
    simp [SymbolKind.isConstant, SymbolKind.isPolyphonic, SymbolKind.isControl,
      Announced.modifier?]

/-- A symbol has the kind that its line announces. -/
theorem makes_toSymbol (what : Announced) (cs : List Char) (widgets : Widgets)
    (line column : Nat) : what.Makes ((what.form cs).toSymbol widgets line column).kind := by
  cases what with
  | declare type modifier => rfl
  | callback =>
    simp only [Announced.form, Form.toSymbol]
    split
    · exact .inr ⟨_, _, rfl⟩
    · exact .inl rfl
  | function => rfl

/-- Only callbacks handle controls, and only those that name one. -/
theorem handlesControl_toSymbol (what : Announced) (cs : List Char) (widgets : Widgets)
    (line column : Nat) :
    ((what.form cs).toSymbol widgets line column).kind.handlesControl = true ↔
      what = .callback ∧
        NamesControl (cs.takeWhile isIdentifierChar) (cs.dropWhile isIdentifierChar) := by
  cases what with
  | declare type modifier =>
    simp [Announced.form, Form.toSymbol, SymbolKind.handlesControl, SymbolKind.control?]
  | callback =>
    rw [← isSome_control?_iff]
    simp only [Announced.form, Form.toSymbol]
    split
    · next control hcontrol => simp [hcontrol, SymbolKind.handlesControl, SymbolKind.control?]
    · next hcontrol => simp [hcontrol, SymbolKind.handlesControl, SymbolKind.control?]
  | function =>
    simp [Announced.form, Form.toSymbol, SymbolKind.handlesControl, SymbolKind.control?]

/-- The description of a symbol is that of its line: kind, name and flags together. -/
theorem describes_toSymbol (what : Announced) (cs : List Char) (widgets : Widgets)
    (line column : Nat) :
    what.Describes (cs.takeWhile isIdentifierChar) (cs.dropWhile isIdentifierChar)
      ((what.form cs).toSymbol widgets line column).kind := by
  have hmakes := makes_toSymbol what cs widgets line column
  obtain ⟨hconstant, hpolyphonic, hcontrol⟩ := hmakes.flags
  refine ⟨hmakes, hconstant, hpolyphonic, ?_⟩
  rw [SymbolKind.isInterface, Bool.or_eq_true, hcontrol, handlesControl_toSymbol]

theorem word_form (what : Announced) (cs : List Char) :
    (what.form cs).word = what.sigil ++ cs.takeWhile isIdentifierChar := by
  cases what <;> rfl

/-! ## §7 — the symbols of a text -/

/-- The symbols of a text are in the order of its lines, and a line has one at most. -/
theorem pairwise_line_collectFrom (start : Nat) (widgets : Widgets) (ls : List (List Char)) :
    (collectFrom start widgets ls).Pairwise (·.line < ·.line) := by
  induction ls generalizing start widgets with
  | nil => exact .nil
  | cons l ls ih =>
    rw [collectFrom]
    cases hd : declared? l with
    | none => exact ih (start + 1) widgets
    | some d =>
      refine List.pairwise_cons.mpr ⟨fun symbol hmem => ?_, ih _ _⟩
      obtain ⟨known, line, number, d', hline, -, rfl⟩ := mem_collectFrom hmem
      have hle : start + 1 ≤ number := List.le_snd_of_mem_zipIdx hline
      rw [(line_toSymbol _ _ _ _).1, (line_toSymbol _ _ _ _).1]
      exact hle

/-- **The scan of declarations is exact.** There is at most one symbol for a line, and the symbols
come in the order of their lines. A line has a symbol exactly if it begins with a declaration. The
symbol is then of the kind that the declaration says, its name is the sigil and the longest run of
identifier characters, and at its column the line spells this name. -/
theorem declaration_scan_exact (text : String) :
    (collect text).Pairwise (·.line < ·.line) ∧
    (∀ symbol ∈ collect text, symbol.line < (lines text.toList).length) ∧
    ∀ number line, (lines text.toList)[number]? = some line →
      ((∃ symbol ∈ collect text, symbol.line = number) ↔
        ∃ what front run behind, Reads line what front run behind) ∧
      ∀ symbol ∈ collect text, symbol.line = number →
        ∀ what front run behind, Reads line what front run behind →
          let name := (run ++ behind).takeWhile isIdentifierChar
          what.Describes name ((run ++ behind).dropWhile isIdentifierChar) symbol.kind ∧
          symbol.sourceName.toList = what.sigil ++ name ∧ symbol.column = front.length ∧
          symbol.sourceName.toList <+: line.drop symbol.column := by
  refine ⟨pairwise_line_collectFrom 0 [] _, fun symbol hsymbol => ?_, fun number line hline =>
    ⟨⟨?_, ?_⟩, ?_⟩⟩
  · obtain ⟨_, line, _, hline, -⟩ := mem_collect hsymbol
    exact (List.getElem?_eq_some_iff.mp hline).1
  · rintro ⟨symbol, hsymbol, rfl⟩
    obtain ⟨_, line', d, hline', hd, -⟩ := mem_collect hsymbol
    rw [hline] at hline'
    cases hline'
    exact exists_reads hd
  · rintro ⟨what, front, run, behind, hreads⟩
    obtain ⟨symbol, hsymbol, hnumber, -⟩ := exists_mem_collectFrom
      (List.mk_mem_zipIdx_iff_getElem?.mpr hline) (declared?_of_reads hreads) []
    exact ⟨symbol, hsymbol, hnumber⟩
  -- whatever parts the line is read in, the scanner has found the same declaration.
  · rintro symbol hsymbol rfl what front run behind hreads name
    obtain ⟨widgets, line', d, hline', hd, heq⟩ := mem_collect hsymbol
    rw [hline] at hline'
    cases hline'
    rw [declared?_of_reads hreads] at hd
    cases hd
    have hcolumn : symbol.column = front.length := by
      rw [heq]
      exact (line_toSymbol _ _ _ _).2
    have hsource : symbol.sourceName.toList = what.sigil ++ name := by
      rw [heq, sourceName_toSymbol, String.toList_ofList]
      exact word_form what (run ++ behind)
    refine ⟨?_, hsource, hcolumn, ?_⟩
    · rw [heq]
      exact describes_toSymbol what (run ++ behind) widgets _ _
    · rw [hsource, hcolumn, hreads.split, List.drop_left]
      exact (List.prefix_append_right_inj what.sigil).mpr (List.takeWhile_prefix _)

/-- A knob behind a no-break space and a tab is found at its sigil. A word that only begins with a
modifier declares nothing. -/
theorem indented_knob_scanned :
    let text := "\u00a0declare\tui_knob $v(0)\ndeclare constant $x"
    let knob := Announced.declare .integer (some (.widget "ui_knob"))
    Reads "\u00a0declare\tui_knob $v(0)".toList knob "\u00a0declare\tui_knob ".toList "v".toList
      "(0)".toList ∧
    (∃ symbol ∈ collect text, symbol.line = 0 ∧ symbol.kind.isInterface = true ∧
      symbol.kind.isConstant = false ∧ symbol.sourceName.toList = "$v".toList ∧
      symbol.column = 17) ∧
    ¬ ∃ what front run behind, Reads "declare constant $x".toList what front run behind := by
  intro text knob
  have hwidget : WrittenModifier "ui_knob".toList (some (.widget "ui_knob")) :=
    @WrittenModifier.widget "knob".toList
      ⟨by decide +kernel, List.all_eq_true.mp (by decide +kernel)⟩
  have hreads : Reads "\u00a0declare\tui_knob $v(0)".toList knob "\u00a0declare\tui_knob ".toList
      "v".toList "(0)".toList :=
    ⟨by decide +kernel,
      @Announces.declare "\u00a0".toList "\t".toList _ " ".toList _ _
        (List.all_eq_true.mp (by decide +kernel)) (List.all_eq_true.mp (by decide +kernel))
        (by decide +kernel) hwidget (List.all_eq_true.mp (by decide +kernel)),
      ⟨by decide +kernel, List.all_eq_true.mp (by decide +kernel)⟩⟩
  obtain ⟨-, -, hlines⟩ := declaration_scan_exact text
  obtain ⟨hknob, hfound⟩ := hlines 0 "\u00a0declare\tui_knob $v(0)".toList (by decide +kernel)
  obtain ⟨hconstant, -⟩ := hlines 1 "declare constant $x".toList (by decide +kernel)
  refine ⟨hreads, ?_, fun h => ?_⟩
  · obtain ⟨symbol, hsymbol, hline⟩ := hknob.mpr ⟨knob, _, _, _, hreads⟩
    obtain ⟨hdescribes, hname, hcolumn, -⟩ := hfound symbol hsymbol hline knob _ _ _ hreads
    refine ⟨symbol, hsymbol, hline, hdescribes.isInterface_iff.mpr (.inl ⟨_, rfl⟩), ?_, ?_, ?_⟩
    · rw [Bool.eq_false_iff, ne_eq, hdescribes.isConstant_iff]
      exact fun h => by cases h
    · rw [hname]
      decide +kernel
    · rw [hcolumn]
      decide +kernel
  · obtain ⟨symbol, hsymbol, hline⟩ := hconstant.mpr h
    have hnone : ∀ symbol ∈ collect text, symbol.line ≠ 1 := by decide +kernel
    exact hnone symbol hsymbol hline

end KspWorkbench
