import KspWorkbench.Proofs.Script.Declarations
import KspWorkbench.Proofs.Script.Tokens

/-!
# Reading a line in which a variable was renamed

A variable is renamed to another one of its type. What a reader of a line consumes before it comes
to a name holds no sigil, and both names start with the same one, so each reader does on the renamed
line what it did on the line.

* **`VariableRenaming.span_replace`** — a run of characters that ends at a sigil is not changed.
* **`VariableRenaming.afterKeyword?_replace`**, **`modifier?_replace`**, **`named?_replace`** — the
  readers of a declaration of a variable.
* **`VariableRenaming.argument?_replace`**, **`control?_replace`** — those of a callback.
-/

namespace KspWorkbench

/-! ## §1 — what is renamed -/

/-- The renaming of a variable to another one of the same type. -/
structure VariableRenaming where
  type : VariableType
  old : List Char
  new : List Char
  old_ne_nil : old ≠ []
  new_ne_nil : new ≠ []
  old_identifier : ∀ c ∈ old, isIdentifierChar c = true
  new_identifier : ∀ c ∈ new, isIdentifierChar c = true

/-- Text without sigils. -/
def Plain (cs : List Char) : Prop :=
  ∀ c ∈ cs, isSigil c = false

theorem plain_of_all {cs : List Char} (h : cs.all (fun c => !isSigil c) = true) : Plain cs := by
  intro c hc
  simpa using List.all_eq_true.mp h c hc

theorem Plain.append {xs ys : List Char} (hx : Plain xs) (hy : Plain ys) : Plain (xs ++ ys) := by
  intro c hc
  rcases List.mem_append.mp hc with h | h
  · exact hx c h
  · exact hy c h

theorem isSigil_iff {c : Char} : isSigil c = true ↔ ∃ type : VariableType, c = type.sigil := by
  rw [isSigil, Option.isSome_iff_exists]
  exact exists_congr fun type => VariableType.ofSigil?_eq_some_iff

theorem sigil_inj {type type' : VariableType} (h : type.sigil = type'.sigil) : type = type' := by
  have hsome := VariableType.ofSigil?_sigil type
  rw [h, VariableType.ofSigil?_sigil] at hsome
  exact (Option.some.inj hsome).symm

theorem isIdentifierChar_of_isSigil {c : Char} (h : isSigil c = true) :
    isIdentifierChar c = false := by
  obtain ⟨type, rfl⟩ := isSigil_iff.mp h
  cases type <;> decide

theorem isBlank_of_isNameChar {c : Char} (h : isNameChar c = true) : isBlank c = false := by
  have hboundary := isBoundary_of_isNameChar h
  rw [isBoundary, Bool.or_eq_false_iff] at hboundary
  exact hboundary.1

theorem isNameChar_of_isBlank {c : Char} (h : isBlank c = true) : isNameChar c = false := by
  cases hname : isNameChar c with
  | false => rfl
  | true => rw [isBlank_of_isNameChar hname] at h; cases h

/-- A run of characters among which are no sigils is plain. -/
theorem plain_takeWhile {p : Char → Bool} (hp : ∀ c, isSigil c = true → p c = false)
    (cs : List Char) : Plain (cs.takeWhile p) := by
  intro c hc
  cases hsigil : isSigil c with
  | false => rfl
  | true =>
    have hrun : p c = true := List.mem_takeWhile_imp hc
    rw [hp c hsigil] at hrun
    cases hrun

theorem isBlank_of_isSigil {c : Char} (h : isSigil c = true) : isBlank c = false :=
  isBlank_of_isNameChar (by simp [isNameChar, h])

theorem plain_of_blank {cs : List Char} (h : ∀ c ∈ cs, isBlank c = true) : Plain cs := by
  intro c hc
  cases hsigil : isSigil c with
  | false => rfl
  | true =>
    have hblank := h c hc
    rw [isBlank_of_isSigil hsigil] at hblank
    cases hblank

theorem any_getLast?_of_blank {cs : List Char} (h : ∀ c ∈ cs, isBlank c = true) :
    cs.getLast?.any isNameChar = false := by
  cases hlast : cs.getLast? with
  | none => rfl
  | some c => exact isNameChar_of_isBlank (h c (List.mem_of_getLast? hlast))

namespace VariableRenaming

variable (r : VariableRenaming)

/-- The name as it stands in the script. -/
def word : List Char := r.type.sigil :: r.old

/-- The new name as it stands in the script. -/
def name : List Char := r.type.sigil :: r.new

theorem isName_word : isName r.word = true :=
  isName_cons.mpr ⟨by simp [isNameChar, isSigil_sigil], r.old_identifier⟩

theorem isName_name : isName r.name = true :=
  isName_cons.mpr ⟨by simp [isNameChar, isSigil_sigil], r.new_identifier⟩

/-! ## §2 — readers of a line -/

/-- The rest of a line behind the character `before`, renamed. -/
def replace (before : Option Char) (cs : List Char) : List Char :=
  replaceFrom r.word r.name before cs

theorem replace_nil (before : Option Char) : r.replace before [] = [] := rfl

theorem replace_none (cs : List Char) :
    r.replace none cs = replaceOccurrences r.word r.name cs := rfl

/-- A name can begin behind anything that does not continue one, as it can at the front of the
line. -/
theorem replace_congr {before : Option Char} (hbefore : before.any isNameChar = false)
    (cs : List Char) : r.replace before cs = r.replace none cs :=
  replaceFrom_congr r.isName_word (by simpa using hbefore) cs

/-- Only a sigil can begin an occurrence, so any other character is kept. -/
theorem replace_cons {c : Char} (hc : isSigil c = false) (before : Option Char) (cs : List Char) :
    r.replace before (c :: cs) = c :: r.replace (some c) cs := by
  refine replaceFrom_other r.isName_word fun behind heq => ?_
  have hhead : c = r.type.sigil := (List.cons.inj heq).1
  rw [hhead, isSigil_sigil] at hc
  cases hc

/-- Text without sigils is passed over. -/
theorem replace_append {front : List Char} (hfront : Plain front) (before : Option Char)
    (cs : List Char) :
    r.replace before (front ++ cs) = front ++ r.replace (front.getLast?.or before) cs := by
  induction front generalizing before with
  | nil => rfl
  | cons c front ih =>
    rw [List.cons_append, r.replace_cons (hfront c (by simp)),
      ih fun d hd => hfront d (by simp [hd]), getLast?_cons_or, List.cons_append]

/-- The new name starts with the sigil of the old one. -/
theorem head?_replace (before : Option Char) (cs : List Char) :
    (r.replace before cs).head? = cs.head? := by
  have hcut := cutBy_segmentsFrom r.isName_word .looking before cs
  have hreplace : r.replace before cs =
      (segmentsFrom r.word .looking before cs).flatMap (Segment.render r.name) := rfl
  rw [hreplace]
  generalize segmentsFrom r.word .looking before cs = segs at hcut
  cases hcut with
  | nil => rfl
  | found => rfl
  | other => rfl

/-- **A run that ends at a sigil is not changed** by the renaming of what follows. -/
theorem span_replace {p : Char → Bool} (hp : ∀ c, isSigil c = true → p c = false)
    (before : Option Char) (cs : List Char) :
    (r.replace before cs).takeWhile p = cs.takeWhile p ∧
      (r.replace before cs).dropWhile p =
        r.replace ((cs.takeWhile p).getLast?.or before) (cs.dropWhile p) := by
  have hsplit : r.replace before cs =
      cs.takeWhile p ++ r.replace ((cs.takeWhile p).getLast?.or before) (cs.dropWhile p) := by
    rw [← r.replace_append (plain_takeWhile hp cs), List.takeWhile_append_dropWhile]
  rw [hsplit]
  refine span_append _ _ (fun c hc => List.mem_takeWhile_imp hc) fun c hc => ?_
  rw [r.head?_replace] at hc
  exact stops_dropWhile hc

/-- Renaming commutes with dropping white space. -/
theorem trimStart_replace (before : Option Char) (cs : List Char) :
    trimStart (r.replace before cs) =
      r.replace ((cs.takeWhile isBlank).getLast?.or before) (trimStart cs) :=
  (r.span_replace (fun _ => isBlank_of_isSigil) before cs).2

/-- Behind blanks a name stands alone as it does at the front of a line. -/
theorem trimStart_replace_none {before : Option Char} {cs : List Char}
    (hbefore : before.any isNameChar = false ∨ cs.head?.any isBlank = true) :
    trimStart (r.replace before cs) = r.replace none (trimStart cs) := by
  rw [r.trimStart_replace]
  refine r.replace_congr ?_ _
  -- the character before the rest is white space, if there was any, and else the one before it
  -- all.
  cases hlast : (cs.takeWhile isBlank).getLast? with
  | some c =>
    have hc : isBlank c = true := List.mem_takeWhile_imp (List.mem_of_getLast? hlast)
    simpa using isNameChar_of_isBlank hc
  | none =>
    rcases hbefore with hbefore | hblank
    · simpa using hbefore
    · have hnil := List.getLast?_eq_none_iff.mp hlast
      cases cs with
      | nil => cases hblank
      | cons c cs =>
        have hc : isBlank c = true := hblank
        simp [hc] at hnil

/-- Renaming commutes with reading a word that has no sigil. -/
theorem afterWord?_replace {word : List Char} (hword : Plain word) (before : Option Char)
    (cs : List Char) :
    afterWord? word (r.replace before cs) =
      (afterWord? word cs).map (r.replace (word.getLast?.or before)) := by
  induction word generalizing before cs with
  | nil => simp [afterWord?]
  | cons c word ih =>
    cases cs with
    | nil => simp [afterWord?, replace_nil]
    | cons d cs =>
      by_cases hcd : c = d
      · subst hcd
        have hstep := ih (fun e he => hword e (by simp [he])) (some c) cs
        rw [r.replace_cons (hword c (by simp))]
        rw [getLast?_cons_or]
        simpa [afterWord?] using hstep
      · -- the first character of the rest is what it was.
        have hhead := r.head?_replace before (d :: cs)
        cases hrest : r.replace before (d :: cs) with
        | nil => rw [hrest] at hhead; cases hhead
        | cons e rest =>
          rw [hrest] at hhead
          cases hhead
          simp [afterWord?, hcd]

/-- Renaming commutes with reading a keyword. -/
theorem afterKeyword?_replace {keyword : List Char} (hkeyword : Plain keyword) (line : List Char) :
    afterKeyword? keyword (r.replace none line) =
      (afterKeyword? keyword line).map (r.replace none) := by
  simp only [afterKeyword?, Option.bind_eq_bind]
  rw [r.trimStart_replace_none (Or.inl rfl), r.afterWord?_replace hkeyword]
  cases afterWord? keyword (trimStart line) with
  | none => rfl
  | some rest =>
    simp only [Option.map_some, Option.bind_some, r.head?_replace]
    by_cases hblank : rest.head?.any isBlank = true
    · rw [if_pos hblank, if_pos hblank, r.trimStart_replace_none (Or.inr hblank), Option.map_some]
    · rw [if_neg hblank, if_neg hblank, Option.map_none]

/-- The part of a line that a keyword takes: no sigil stands in it, and it ends with a blank. -/
theorem split_of_afterKeyword? {keyword line rest : List Char} (hkeyword : Plain keyword)
    (h : afterKeyword? keyword line = some rest) :
    ∃ front, line = front ++ rest ∧ Plain front ∧ front.getLast?.any isNameChar = false := by
  obtain ⟨lead, blanks, hline, hlead, hblanks, hne⟩ := split_keyword h
  refine ⟨lead ++ keyword ++ blanks, hline,
    ((plain_of_blank hlead).append hkeyword).append (plain_of_blank hblanks), ?_⟩
  rw [List.getLast?_append_of_ne_nil _ hne]
  exact any_getLast?_of_blank hblanks

/-- The modifier that an identifier stands for; none, if it is empty. -/
def modifierOf? (word : List Char) : Option (Option Modifier) :=
  if word = [] then some none else (Modifier.ofWord? word).map some

theorem modifier?_eq (cs : List Char) :
    modifier? cs = (modifierOf? (cs.takeWhile isIdentifierChar)).map fun m =>
      (m, trimStart (cs.dropWhile isIdentifierChar)) := by
  rw [modifier?, spanIdentifier]
  cases hrun : cs.takeWhile isIdentifierChar with
  | nil => rfl
  | cons c run => simp [modifierOf?, Function.comp_def]

/-- **A modifier is read as before**, and what follows it is renamed in its place. -/
theorem modifier?_replace (cs : List Char) :
    ∃ front, cs = front ++ trimStart (cs.dropWhile isIdentifierChar) ∧ Plain front ∧
      modifier? (r.replace none cs) =
        (modifier? cs).map fun (m, rest) => (m, r.replace front.getLast? rest) := by
  have hspan := r.span_replace (fun _ => isIdentifierChar_of_isSigil) none cs
  refine ⟨cs.takeWhile isIdentifierChar ++ (cs.dropWhile isIdentifierChar).takeWhile isBlank, ?_,
    (plain_takeWhile (fun _ => isIdentifierChar_of_isSigil) _).append
      (plain_takeWhile (fun _ => isBlank_of_isSigil) _), ?_⟩
  · rw [List.append_assoc, trimStart, List.takeWhile_append_dropWhile,
      List.takeWhile_append_dropWhile]
  · rw [modifier?_eq, modifier?_eq, hspan.1, hspan.2, r.trimStart_replace, List.getLast?_append,
      Option.or_none, Option.map_map]
    rfl

/-- The name of a variable at the front of `cs`, with the type that its sigil stands for. -/
def named? : List Char → Option (VariableType × List Char)
  | [] => none
  | c :: named =>
    (VariableType.ofSigil? c).bind fun type => (identifier? named).map fun found => (type, found.1)

/-- A variable is a sigil and an identifier behind it that is not empty. -/
theorem named?_cons (type : VariableType) (named : List Char) :
    named? (type.sigil :: named) =
      if named.takeWhile isIdentifierChar = [] then none
      else some (type, named.takeWhile isIdentifierChar) := by
  rw [named?, VariableType.ofSigil?_sigil, Option.bind_some, identifier?, spanIdentifier]
  cases named.takeWhile isIdentifierChar <;> rfl

/-- The old name, standing alone, gives way to the new one. -/
theorem replace_variable {before : Option Char} (hbefore : before.any isNameChar = false)
    {named : List Char} (hnamed : named.takeWhile isIdentifierChar = r.old) :
    ∃ rest, r.replace before (r.type.sigil :: named) = r.type.sigil :: (r.new ++ rest) ∧
      ∀ c ∈ rest.head?, isIdentifierChar c = false := by
  have hsplit : r.type.sigil :: named = r.word ++ named.dropWhile isIdentifierChar := by
    rw [word, ← hnamed, List.cons_append, List.takeWhile_append_dropWhile]
  have hstop : ∀ c ∈ (named.dropWhile isIdentifierChar).head?, isIdentifierChar c = false :=
    fun c hc => stops_dropWhile hc
  -- the whole name was read, so nothing continues it.
  have halone : standsAlone before (named.dropWhile isIdentifierChar) = true := by
    rw [standsAlone_eq, hbefore]
    cases hhead : (named.dropWhile isIdentifierChar).head? with
    | none => rfl
    | some c => simp [hstop c hhead]
  refine ⟨r.replace r.word.getLast? (named.dropWhile isIdentifierChar), ?_, ?_⟩
  · rw [hsplit]
    exact replaceFrom_found r.isName_word halone
  · intro c hc
    rw [r.head?_replace] at hc
    exact hstop c hc

/-- Another name is not changed. -/
theorem replace_other {before : Option Char} {type : VariableType} {named : List Char}
    (hother : ¬ (type = r.type ∧ named.takeWhile isIdentifierChar = r.old)) :
    r.replace before (type.sigil :: named) =
      type.sigil :: r.replace (some type.sigil) named := by
  refine replaceFrom_other r.isName_word fun behind heq => ?_
  obtain ⟨hsigil, hnamed⟩ := List.cons.inj heq
  have htype : type = r.type := sigil_inj hsigil
  -- with no identifier character behind it, the run would be the old name.
  rw [Bool.eq_false_iff]
  intro halone
  rw [standsAlone_eq, Bool.and_eq_true, Bool.not_eq_true', Bool.not_eq_true'] at halone
  have hstop : ∀ c ∈ behind.head?, isIdentifierChar c = false := fun c hc => by
    simpa [Option.mem_def.mp hc] using halone.2
  have hrun : (r.old ++ behind).takeWhile isIdentifierChar = r.old :=
    (span_append r.old behind r.old_identifier hstop).1
  exact hother ⟨htype, hnamed ▸ hrun⟩

/-- **A variable is read as before**, with its new name if it has the old one. -/
theorem named?_replace {before : Option Char} {cs : List Char}
    (hwhole : named? cs = some (r.type, r.old) → before.any isNameChar = false) :
    named? (r.replace before cs) =
      (named? cs).map fun (type, n) =>
        (type, if type.sigil :: n = r.word then r.new else n) := by
  cases cs with
  | nil => rfl
  | cons c named =>
    cases htype : VariableType.ofSigil? c with
    | none =>
      have hsigil : isSigil c = false := by simp [isSigil, htype]
      rw [r.replace_cons hsigil]
      simp [named?, htype]
    | some type =>
      rw [VariableType.ofSigil?_eq_some_iff] at htype
      subst htype
      -- the variable that is read is the renamed one, or another one with the same reading as
      -- before.
      by_cases hold : type = r.type ∧ named.takeWhile isIdentifierChar = r.old
      · obtain ⟨rfl, hrun⟩ := hold
        have hold : named? (r.type.sigil :: named) = some (r.type, r.old) := by
          rw [named?_cons, hrun, if_neg r.old_ne_nil]
        obtain ⟨rest, hreplace, hstop⟩ := r.replace_variable (hwhole hold) hrun
        rw [hreplace, named?_cons, (span_append r.new rest r.new_identifier hstop).1,
          if_neg r.new_ne_nil, hold]
        simp [word]
      · have hne : type.sigil :: named.takeWhile isIdentifierChar ≠ r.word := by
          intro heq
          obtain ⟨hsigil, hrun⟩ := List.cons.inj heq
          exact hold ⟨sigil_inj hsigil, hrun⟩
        have hspan := r.span_replace (fun _ => isIdentifierChar_of_isSigil) (some type.sigil) named
        rw [r.replace_other hold, named?_cons, named?_cons, hspan.1]
        split
        · rfl
        · simp [hne]

/-- Nothing is renamed in a text without sigils. -/
theorem replace_of_plain {cs : List Char} (h : Plain cs) (before : Option Char) :
    r.replace before cs = cs := by
  have happend := r.replace_append h before []
  simpa [replace_nil] using happend

/-- The argument of a callback is read as before, and renamed. -/
theorem argument?_replace (before : Option Char) (cs : List Char) :
    argument? (r.replace before cs) = (argument? cs).map (r.replace none) := by
  have hopen : Plain ['('] := by simp [Plain]; decide
  simp only [argument?, Option.bind_eq_bind]
  rw [r.trimStart_replace, r.afterWord?_replace hopen]
  cases afterWord? ['('] (trimStart cs) with
  | none => rfl
  | some rest =>
    simp only [Option.map_some, Option.bind_some]
    rw [r.replace_congr (by simp; decide) rest]
    have hname : ')' ∉ r.name := fun hmem => absurd (isNameChar_of_mem r.isName_name hmem) (by decide)
    -- no closing parenthesis comes in with the new name.
    have hnone : ∀ part, ')' ∉ part → ')' ∉ r.replace none part := by
      intro part hpart hmem
      rcases mem_of_mem_replaceOccurrences r.isName_word hmem with h | h
      · exact hpart h
      · exact hname h
    have hrun : ∀ part : List Char, ')' ∉ part → ∀ c ∈ part, (c != ')') = true := by
      intro part hpart c hc
      simp only [bne_iff_ne, ne_eq]
      rintro rfl
      exact hpart hc
    by_cases hclose : ')' ∈ rest
    · obtain ⟨inner, behind, rfl, hinner⟩ := List.eq_append_cons_of_mem hclose
      have hreplace : r.replace none (inner ++ ')' :: behind) =
          r.replace none inner ++ ')' :: r.replace none behind :=
        replaceFrom_append r.isName_word (by decide) none inner behind
      have hempty : r.replace none inner = [] ↔ inner = [] := by
        rw [← List.head?_eq_none_iff, r.head?_replace, List.head?_eq_none_iff]
      rw [hreplace, (span_append _ _ (hrun _ hinner) (by simp)).1,
        (span_append _ _ (hrun _ (hnone inner hinner)) (by simp)).1]
      by_cases hinner_nil : inner = []
      · simp [hinner_nil, replace_nil]
      · simp [hinner_nil, hempty]
    · have hall := hrun rest hclose
      have hall' := hrun _ (hnone rest hclose)
      rw [List.takeWhile_eq_self_iff.mpr hall, List.takeWhile_eq_self_iff.mpr hall']
      simp

/-- Blanks behind a text are not changed. -/
theorem replace_append_blanks (front : List Char) {blanks : List Char}
    (hblanks : ∀ c ∈ blanks, isBlank c = true) :
    r.replace none (front ++ blanks) = r.replace none front ++ blanks := by
  cases blanks with
  | nil => simp
  | cons d rest =>
    have hd : isNameChar d = false := isNameChar_of_isBlank (hblanks d (by simp))
    have hplain : Plain rest := fun c hc => by
      cases hsigil : isSigil c with
      | false => rfl
      | true => rw [← hblanks c (by simp [hc]), isBlank_of_isSigil hsigil]
    calc r.replace none (front ++ d :: rest)
        = r.replace none front ++ d :: r.replace none rest :=
          replaceFrom_append r.isName_word hd none front rest
      _ = r.replace none front ++ d :: rest := by rw [r.replace_of_plain hplain]

/-- Trimming commutes with renaming: blanks stand in no name. -/
theorem trim_replace (cs : List Char) : trim (r.replace none cs) = r.replace none (trim cs) := by
  rw [trim, trim, r.trimStart_replace_none (Or.inl rfl)]
  generalize trimStart cs = cs
  have hblanks : ∀ c ∈ (cs.reverse.takeWhile isBlank).reverse, isBlank c = true := fun c hc =>
    List.mem_takeWhile_imp (List.mem_reverse.mp hc)
  have hsplit : cs = trimEnd cs ++ (cs.reverse.takeWhile isBlank).reverse := by
    rw [trimEnd, ← List.reverse_append, List.takeWhile_append_dropWhile, List.reverse_reverse]
  have hend : ∀ c ∈ (trimEnd cs).getLast?, isBlank c = false := fun c hc => by
    rw [trimEnd, List.getLast?_reverse] at hc
    exact stops_dropWhile hc
  -- the renamed text ends as before, or with the new name.
  have hend' : ∀ c ∈ (r.replace none (trimEnd cs)).getLast?, isBlank c = false := by
    intro c hc
    rcases getLast?_replaceOccurrences r.isName_word r.isName_name (trimEnd cs) with hsame | hnew
    · exact hend c (hsame ▸ hc)
    · rw [← replace_none, Option.mem_def.mp hc] at hnew
      exact isBlank_of_isNameChar hnew
  calc trimEnd (r.replace none cs)
      = trimEnd (r.replace none (trimEnd cs) ++ (cs.reverse.takeWhile isBlank).reverse) := by
        rw [← r.replace_append_blanks _ hblanks, ← hsplit]
    _ = r.replace none (trimEnd cs) := by
        rw [trimEnd, List.reverse_append, List.reverse_reverse,
          (span_append _ _ (fun c hc => List.mem_takeWhile_imp hc) (by simpa using hend')).2,
          List.reverse_reverse]

/-- Renaming commutes with passing over opening parentheses. -/
theorem skip_replace (cs : List Char) :
    (r.replace none cs).dropWhile (· == '(') = r.replace none (cs.dropWhile (· == '(')) := by
  have hsigil : ∀ c, isSigil c = true → (c == '(') = false := by
    intro c hc
    obtain ⟨type, rfl⟩ := isSigil_iff.mp hc
    cases type <;> decide
  have hopen : ∀ c ∈ cs.takeWhile (· == '('), (c == '(') = true := by
    intro c hc
    have hrun := List.mem_takeWhile_imp hc
    exact hrun
  rw [(r.span_replace hsigil none cs).2]
  refine r.replace_congr ?_ _
  cases hlast : (cs.takeWhile (· == '(')).getLast? with
  | none => rfl
  | some c =>
    rw [eq_of_beq (hopen c (List.mem_of_getLast? hlast))]
    decide

/-- The control that a callback handles is renamed. -/
theorem control?_replace (name : List Char) (argument : Option (List Char)) :
    control? name (argument.map (replaceOccurrences r.word r.name)) =
      (control? name argument).map fun control =>
        String.ofList (replaceOccurrences r.word r.name control.toList) := by
  unfold control?
  split
  · cases argument with
    | none => rfl
    | some cs =>
      simp only [Option.map_some, String.toList_ofList]
      rw [← replace_none, ← replace_none, r.skip_replace, r.trim_replace]
  · rfl

end VariableRenaming

end KspWorkbench
