import KspWorkbench.Proofs.Script.References
import KspWorkbench.Proofs.Script.RenamedLine

/-!
# Declared names among the references

A line declares a name behind a keyword, and a variable also behind its modifier. White space parts
the keyword from what follows it, but a modifier may be written right before the sigil of the
variable. There the name does not stand alone, so neither its references nor a renaming reach it.

* **`DeclaredAt`** — what stands around a declared name, and that no occurrence of the name begins
  before it; **`exists_declaredAt`** finds it for every line that declares something.
* **`replaceOccurrences_declaredAt`** — what a renaming does to such a line.
* **`declaration_among_references_iff`** — which declarations are among the references, and which
  are renamed.
-/

namespace KspWorkbench

/-! ## §1 — text without occurrences -/

/-- No occurrence of the word begins in the first `n` characters. -/
def NoneBegins (word line : List Char) (n : Nat) : Prop :=
  ∀ front back, OccursIn word line front back → n ≤ front.length

/-- Text in which no occurrence begins is passed over. -/
theorem replaceFrom_append_of_none {word name : List Char} (hword : isName word = true)
    {front rest : List Char} {before : Option Char}
    (hnone : ∀ start back, front ++ rest = start ++ word ++ back →
      standsAlone (start.getLast?.or before) back = true → front.length ≤ start.length) :
    replaceFrom word name before (front ++ rest) =
      front ++ replaceFrom word name (front.getLast?.or before) rest := by
  induction front generalizing before with
  | nil => rfl
  | cons c front ih =>
    -- the word does not stand alone here, or an occurrence would begin before the end of the
    -- front.
    have hother : ∀ behind, c :: (front ++ rest) = word ++ behind →
        standsAlone before behind = false := by
      intro behind hsplit
      rw [Bool.eq_false_iff]
      intro halone
      exact absurd (hnone [] behind hsplit halone) (by simp)
    have hrest : ∀ start back, front ++ rest = start ++ word ++ back →
        standsAlone (start.getLast?.or (some c)) back = true → front.length ≤ start.length := by
      intro start back hsplit halone
      have hle := hnone (c :: start) back (by rw [List.cons_append, hsplit]; rfl)
        (by rwa [getLast?_cons_or])
      simpa using hle
    rw [List.cons_append, replaceFrom_other hword hother, ih hrest, getLast?_cons_or,
      List.cons_append]

/-- A front in which no occurrence begins is kept as it is. -/
theorem replaceOccurrences_append_of_none {word name front rest : List Char}
    (hword : isName word = true) (hnone : NoneBegins word (front ++ rest) front.length) :
    replaceOccurrences word name (front ++ rest) =
      front ++ replaceFrom word name front.getLast? rest := by
  rw [replaceOccurrences_eq, replaceFrom_append_of_none hword, Option.or_none]
  intro start back hsplit halone
  rw [Option.or_none] at halone
  exact hnone start back (occursIn_iff.mpr ⟨hsplit, halone⟩)

/-! ## §2 — the place of a declared name -/

/-- **What stands around a declared name.** -/
structure DeclaredAt (line : List Char) (d : Declared) (front back : List Char) : Prop where
  split : line = front ++ d.form.word ++ back
  column : front.length = d.column
  behind : back.head?.any isIdentifierChar = false
  -- only a modifier can stand right before the name.
  before : front.getLast?.any isNameChar = true →
    front.getLast?.any isIdentifierChar = true ∧
      ∃ type modifier name, d.form = .variable type (some modifier) name
  -- a name that may be renamed does not occur before its declaration.
  first : isVariableName d.form.word = true ∨ isKeyword d.form.word = false →
    NoneBegins d.form.word line front.length

theorem any_head?_dropWhile (cs : List Char) :
    (cs.dropWhile isIdentifierChar).head?.any isIdentifierChar = false :=
  (Option.any_eq_false _ _).mpr fun _ hc => stops_dropWhile hc

/-- A word that occurs begins with its first character. -/
theorem noneBegins_of_plain {c : Char} {name front rest : List Char} (hfront : c ∉ front) :
    NoneBegins (c :: name) (front ++ rest) front.length := by
  intro start back hoccurs
  have hsplit : front ++ rest = start ++ c :: (name ++ back) := by
    rw [hoccurs.split, List.append_assoc, List.cons_append]
  rcases split_append hsplit with ⟨more, rfl, -⟩ | ⟨more, rfl, -⟩
  · exact absurd (by simp) hfront
  · rw [List.length_append]
    omega

/-- What stands before a variable behind the keyword: the word of the modifier, if there is one, and
white space. -/
theorem split_modifier {rest after : List Char} {modifier : Option Modifier}
    (h : modifier? rest = some (modifier, after)) :
    ∃ run gap, rest = run ++ gap ++ after ∧ (∀ c ∈ run, isIdentifierChar c = true) ∧
      (∀ c ∈ gap, isBlank c = true) ∧ (run ≠ [] → modifier.isSome = true) := by
  rw [VariableRenaming.modifier?_eq, Option.map_eq_some_iff] at h
  obtain ⟨_, hmodifier, hpair⟩ := h
  obtain ⟨rfl, rfl⟩ := Prod.mk.inj hpair
  refine ⟨rest.takeWhile isIdentifierChar, (rest.dropWhile isIdentifierChar).takeWhile isBlank, ?_,
    fun c hc => List.mem_takeWhile_imp hc, fun c hc => List.mem_takeWhile_imp hc, fun hrun => ?_⟩
  · rw [List.append_assoc, trimStart, List.takeWhile_append_dropWhile,
      List.takeWhile_append_dropWhile]
  · rw [VariableRenaming.modifierOf?, if_neg hrun, Option.map_eq_some_iff] at hmodifier
    obtain ⟨m, -, rfl⟩ := hmodifier
    rfl

theorem plain_of_identifier {cs : List Char} (h : ∀ c ∈ cs, isIdentifierChar c = true) :
    Plain cs := by
  intro c hc
  cases hsigil : isSigil c with
  | false => rfl
  | true =>
    have hident := h c hc
    rw [isIdentifierChar_of_isSigil hsigil] at hident
    cases hident

/-- The place of the name in a declaration of a variable. -/
theorem declaredAt_variable {line : List Char} {d : Declared} (h : variableForm? line = some d) :
    ∃ front back, DeclaredAt line d front back := by
  obtain ⟨rest, modifier, type, named, name, behind, hrest, hmodifier, hname, rfl⟩ :=
    variableForm?_eq_some h
  obtain ⟨-, rfl, rfl⟩ := identifier?_eq_some hname
  obtain ⟨lead, blanks, hline, hlead, hblanks, hne⟩ := split_keyword hrest
  obtain ⟨run, gap, rfl, hrun, hgap, hsome⟩ := split_modifier hmodifier
  have hplain : Plain (lead ++ "declare".toList ++ blanks ++ run ++ gap) :=
    ((((plain_of_blank hlead).append (plain_of_all (by decide +kernel))).append
      (plain_of_blank hblanks)).append (plain_of_identifier hrun)).append (plain_of_blank hgap)
  have hsplit : line = lead ++ "declare".toList ++ blanks ++ run ++ gap ++
      (type.sigil :: named.takeWhile isIdentifierChar) ++ named.dropWhile isIdentifierChar := by
    rw [hline, List.append_assoc _ (_ :: _), List.cons_append, List.takeWhile_append_dropWhile]
    simp only [List.append_assoc]
  refine ⟨lead ++ "declare".toList ++ blanks ++ run ++ gap, named.dropWhile isIdentifierChar,
    hsplit, ?_, any_head?_dropWhile named, fun hlast => ?_, fun _ => ?_⟩
  · have hlength := congrArg List.length hline
    simp only [List.length_append, List.length_cons] at hlength ⊢
    omega
  · -- white space would part the name from what stands before it.
    rcases List.eq_nil_or_concat' gap with rfl | ⟨gap, c, rfl⟩
    · rcases List.eq_nil_or_concat' run with rfl | ⟨run, c, rfl⟩
      · rw [List.append_nil, List.append_nil, List.getLast?_append_of_ne_nil _ hne,
          any_getLast?_of_blank hblanks] at hlast
        cases hlast
      · obtain ⟨m, rfl⟩ := Option.isSome_iff_exists.mp (hsome (by simp))
        have hc : isIdentifierChar c = true := hrun c (by simp)
        refine ⟨?_, type, m, _, rfl⟩
        rw [List.append_nil, List.getLast?_append_of_ne_nil _ (by simp)]
        simpa using hc
    · rw [List.getLast?_append_of_ne_nil _ (by simp), any_getLast?_of_blank hgap] at hlast
      cases hlast
  · rw [hsplit, List.append_assoc]
    refine noneBegins_of_plain fun hmem => ?_
    have hsigil := hplain _ hmem
    rw [isSigil_sigil] at hsigil
    cases hsigil

/-- An identifier other than the keyword does not begin before it is declared. -/
theorem noneBegins_behind_keyword {keyword word lead blanks rest : List Char}
    (hident : ∀ c ∈ keyword, isIdentifierChar c = true)
    (hword : ∀ c ∈ word, isIdentifierChar c = true) (hword_ne : word ≠ [])
    (hother : word ≠ keyword) (hlead : ∀ c ∈ lead, isBlank c = true)
    (hblanks : ∀ c ∈ blanks, isBlank c = true) (hne : blanks ≠ []) :
    NoneBegins word (lead ++ keyword ++ blanks ++ rest) (lead ++ keyword ++ blanks).length := by
  intro start back hoccurs
  cases word with
  | nil => exact absurd rfl hword_ne
  | cons c name =>
    have hblank : isBlank c = false := isBlank_of_isIdentifierChar (hword c (by simp))
    have hnot : ∀ {cs : List Char}, (∀ d ∈ cs, isBlank d = true) → c ∉ cs := fun h hmem =>
      absurd (h c hmem) (by simp [hblank])
    have hsplit : lead ++ keyword ++ blanks ++ rest = start ++ c :: (name ++ back) := by
      rw [hoccurs.split, List.append_assoc, List.cons_append]
    rcases split_append hsplit with ⟨more, hfront, -⟩ | ⟨more, rfl, -⟩
    · rcases split_append hfront with ⟨more, hfront, -⟩ | ⟨more, -, rfl⟩
      · rcases split_append hfront with ⟨more, rfl, -⟩ | ⟨more, rfl, hkeyword⟩
        · exact absurd (by simp) (hnot hlead)
        · rcases List.eq_nil_or_concat' more with rfl | ⟨more, d, rfl⟩
          · -- the word would begin with the keyword and end where it ends.
            have hsame : keyword ++ (blanks ++ rest) = c :: name ++ back := by
              apply List.append_cancel_left
              rw [← List.append_assoc, ← List.append_assoc, hoccurs.split, List.append_nil,
                List.append_assoc]
            have hstop : ∀ d ∈ (blanks ++ rest).head?, isIdentifierChar d = false := by
              intro d hd
              rw [List.head?_append_of_ne_nil _ hne] at hd
              exact isIdentifierChar_of_not_isNameChar
                (isNameChar_of_isBlank (hblanks d (List.mem_of_mem_head? hd)))
            have hbehind := (Option.any_eq_false _ _).mp hoccurs.behind
            exact absurd (span_unique hsame hident hstop hword hbehind).1.symm hother
          · -- inside the keyword an identifier character stands before the word.
            have hd : isNameChar d = true :=
              isNameChar_of_isIdentifierChar (hident d (by rw [hkeyword]; simp))
            have hbefore := hoccurs.before
            rw [← List.append_assoc, List.getLast?_append_of_ne_nil _ (by simp)] at hbefore
            simp [hd] at hbefore
      · exact absurd (by simp) (hnot hblanks)
    · exact (List.prefix_append _ _).length_le

/-- A line that declares an identifier right behind a keyword. -/
theorem declaredAt_identifier {keyword line rest name behind : List Char} {d : Declared}
    (hkeyword : isKeyword keyword = true) (hident : ∀ c ∈ keyword, isIdentifierChar c = true)
    (hrest : afterKeyword? keyword line = some rest)
    (hname : identifier? rest = some (name, behind))
    (hword : d.form.word = name) (hcolumn : d.column = line.length - rest.length) :
    ∃ front back, DeclaredAt line d front back := by
  obtain ⟨hname_ne, rfl, rfl⟩ := identifier?_eq_some hname
  obtain ⟨lead, blanks, hline, hlead, hblanks, hne⟩ := split_keyword hrest
  have hblank_end : (lead ++ keyword ++ blanks).getLast?.any isNameChar = false := by
    rw [List.getLast?_append_of_ne_nil _ hne, any_getLast?_of_blank hblanks]
  refine ⟨lead ++ keyword ++ blanks, rest.dropWhile isIdentifierChar, ?_, ?_,
    any_head?_dropWhile rest, fun hlast => ?_, fun haccepted => ?_⟩
  · rw [hword, List.append_assoc, List.takeWhile_append_dropWhile, hline]
  · rw [hcolumn, hline]
    simp only [List.length_append]
    omega
  · rw [hblank_end] at hlast
    cases hlast
  -- the name could only occur earlier as the keyword itself, which is no word that is accepted.
  · have hrun : ∀ c ∈ rest.takeWhile isIdentifierChar, isIdentifierChar c = true :=
      fun c hc => List.mem_takeWhile_imp hc
    rw [hword, hline]
    refine noneBegins_behind_keyword hident hrun hname_ne ?_ hlead hblanks hne
    intro hsame
    rw [hword, hsame, hkeyword] at haccepted
    rcases haccepted with hvariable | hnot
    · obtain ⟨c, hc, hsigil⟩ := (Option.any_eq_true _ _).mp hvariable
      have hc_ident := hident c (List.mem_of_mem_head? hc)
      rw [isIdentifierChar_of_isSigil hsigil] at hc_ident
      cases hc_ident
    · cases hnot

/-- **Every declared name stands somewhere**: behind its keyword, and a variable behind its
modifier. -/
theorem exists_declaredAt {line : List Char} {d : Declared} (h : declared? line = some d) :
    ∃ front back, DeclaredAt line d front back := by
  rcases declared?_cases h with h | h | h
  · exact declaredAt_variable h
  · obtain ⟨rest, name, behind, hrest, hname, rfl⟩ := callbackForm?_eq_some h
    exact declaredAt_identifier (by decide +kernel) (List.all_eq_true.mp (by decide +kernel)) hrest
      hname rfl rfl
  · obtain ⟨rest, name, behind, hrest, hname, rfl⟩ := functionForm?_eq_some h
    exact declaredAt_identifier (by decide +kernel) (List.all_eq_true.mp (by decide +kernel)) hrest
      hname rfl rfl

/-! ## §3 — references and renaming -/

section Declared

variable {line front back : List Char} {d : Declared}

/-- In front of a declared name there is never a sigil, so characters of names and of identifiers
are the same there. -/
theorem DeclaredAt.any_getLast? (h : DeclaredAt line d front back) :
    front.getLast?.any isNameChar = front.getLast?.any isIdentifierChar := by
  cases hname : front.getLast?.any isNameChar with
  | true => exact (h.before hname).1.symm
  | false =>
    cases hlast : front.getLast? with
    | none => rfl
    | some c =>
      have hc : isNameChar c = false := by simpa [hlast] using hname
      simpa using (isIdentifierChar_of_not_isNameChar hc).symm

/-- A declared name stands alone if no identifier character stands right before it. -/
theorem DeclaredAt.occurs_iff (h : DeclaredAt line d front back) :
    OccursIn d.form.word line front back ↔ front.getLast?.any isIdentifierChar = false := by
  rw [← h.any_getLast?]
  exact ⟨fun hoccurs => hoccurs.before, fun hbefore => ⟨h.split, hbefore, h.behind⟩⟩

/-- Right behind an identifier character no occurrence begins before the end of the name. -/
theorem DeclaredAt.noneBegins_word (h : DeclaredAt line d front back)
    (hword : isName d.form.word = true)
    (haccepted : isVariableName d.form.word = true ∨ isKeyword d.form.word = false)
    (hglued : front.getLast?.any isIdentifierChar = true) :
    NoneBegins d.form.word line (front ++ d.form.word).length := by
  intro start behind hoccurs
  have hfirst := h.first haccepted start behind hoccurs
  obtain ⟨hsplit, halone⟩ := occursIn_iff.mp hoccurs
  have hfront : front <+: line := ⟨d.form.word ++ back, by rw [h.split, List.append_assoc]⟩
  have hstart : start <+: line := ⟨d.form.word ++ behind, by rw [hsplit, List.append_assoc]⟩
  obtain ⟨more, rfl⟩ := List.prefix_of_prefix_length_le hfront hstart hfirst
  have hrest : d.form.word ++ back = more ++ d.form.word ++ behind := by
    rw [h.split] at hsplit
    simpa only [List.append_assoc, List.append_cancel_left_eq] using hsplit
  rw [List.getLast?_append] at halone
  -- an occurrence would begin at the declared name, which is glued to its modifier, or behind
  -- it.
  rcases split_of_occurs_twice hword hrest halone with rfl | ⟨more, rfl, -⟩
  · have hbefore := hoccurs.before
    rw [List.append_nil, h.any_getLast?, hglued] at hbefore
    cases hbefore
  · rw [← List.append_assoc]
    exact (List.prefix_append _ _).length_le

/-- **What a renaming does to a declaration**: the text before it stays, and the name is replaced
unless an identifier character stands right before it. -/
theorem replaceOccurrences_declaredAt (h : DeclaredAt line d front back)
    (hword : isName d.form.word = true)
    (haccepted : isVariableName d.form.word = true ∨ isKeyword d.form.word = false)
    (name : List Char) :
    replaceOccurrences d.form.word name line =
      front ++ (if front.getLast?.any isIdentifierChar then d.form.word else name) ++
        replaceFrom d.form.word name d.form.word.getLast? back := by
  have hfirst := h.first haccepted
  -- a name that is glued to its modifier is kept, and any other one replaced.
  split
  · next hglued =>
    have hnone := h.noneBegins_word hword haccepted hglued
    rw [h.split] at hnone ⊢
    rw [replaceOccurrences_append_of_none hword hnone,
      List.getLast?_append_of_ne_nil _ (ne_nil_of_isName hword)]
  · next halone =>
    have hoccurs := h.occurs_iff.mpr (by simpa using halone)
    rw [h.split, List.append_assoc] at hfirst ⊢
    rw [replaceOccurrences_append_of_none hword hfirst,
      replaceFrom_found hword (occursIn_iff.mp hoccurs).2, List.append_assoc]

end Declared

/-- The text after a renaming, cut at one of its lines. -/
theorem toList_applyEdits_split {word : List Char} (hword : isName word = true) (name : List Char)
    {text : String} {number : Nat} {line : Line}
    (hline : (splitLines text.toList)[number]? = some line) :
    ∃ after, (applyEdits (renameLines word name 0 (lines text.toList)) text).toList =
      ((splitLines text.toList).take number).flatMap (fun l => (l.rename word name).source) ++
        (replaceOccurrences word name line.body ++ after) := by
  obtain ⟨hlt, hget⟩ := List.getElem?_eq_some_iff.mp hline
  have hsplit : splitLines text.toList = (splitLines text.toList).take number ++
      line :: (splitLines text.toList).drop (number + 1) := by
    rw [← hget, ← List.drop_eq_getElem_cons hlt, List.take_append_drop]
  refine ⟨line.ending.source ++ ((splitLines text.toList).drop (number + 1)).flatMap
    (fun l => (l.rename word name).source), ?_⟩
  rw [toList_applyEdits hword, List.flatMap_map]
  conv_lhs => rw [hsplit]
  rw [List.flatMap_append, List.flatMap_cons]
  simp only [Line.rename, Line.mapBody, Line.source, List.append_assoc]

/-- **Which declarations are among the references**: those with no identifier character right before
the name. One can stand there only at the end of the modifier of a variable. A renaming puts the new
name in the place of such a declared name, with all before it on the line as it was; with an
identifier character before it the declared name stays. -/
theorem declaration_among_references_iff {text : String} {s : Symbol} {p : Position}
    {word : List Char} (hs : s ∈ collect text) (hword : wordAt? text p = some word)
    (hname : s.sourceName = String.ofList word) :
    ∃ line front back, (lines text.toList)[s.line]? = some line ∧ line = front ++ word ++ back ∧
      front.length = s.column ∧
      (front.getLast?.any isIdentifierChar = true →
        ∃ type modifier, s.kind = .variable type (some modifier)) ∧
      (s.position ∈ references text p ↔ front.getLast?.any isIdentifierChar = false) ∧
      ∀ newName edits, rename text p newName = .ok edits →
        ∃ after, (applyEdits edits text).toList =
          ((splitLines text.toList).take s.line).flatMap
              (fun l => (l.rename word newName.toList).source) ++
            (front ++ (if front.getLast?.any isIdentifierChar then word else newName.toList) ++
              after) := by
  obtain ⟨widgets, line, d, hline, hd, hsymbol⟩ := mem_collect hs
  obtain ⟨front, back, hat⟩ := exists_declaredAt hd
  have hisName := isName_of_declared? hd
  obtain rfl : d.form.word = word := by
    rw [hsymbol, sourceName_toSymbol] at hname
    exact String.ofList_inj.mp hname
  have hcolumn : front.length = s.column := by
    rw [hat.column, hsymbol]
    exact (line_toSymbol _ _ _ _).2.symm
  refine ⟨line, front, back, hline, hat.split, hcolumn, fun hglued => ?_, ?_, ?_⟩
  · obtain ⟨-, type, modifier, name, hform⟩ := hat.before (hat.any_getLast?.trans hglued)
    rw [hsymbol, hform]
    exact ⟨type, modifier, rfl⟩
  · have hdeclared : declares (collect text) (String.ofList d.form.word) = true :=
      List.any_eq_true.mpr ⟨s, hs, by simpa using hname⟩
    rw [← hat.occurs_iff]
    exact mem_references_at_iff hword hdeclared hline hat.split hcolumn
  -- the lines before are renamed as they are, and the line itself is cut at the declared name.
  · intro newName edits hedits
    obtain ⟨target, htarget, rfl⟩ := rename_eq_ok_iff.mp hedits
    obtain ⟨-, hfound, haccepted⟩ := renameTarget_eq_ok_iff.mp htarget
    obtain rfl : target = d.form.word := Option.some.inj (hfound.symm.trans hword)
    obtain ⟨whole, hwhole, rfl⟩ : ∃ whole, (splitLines text.toList)[s.line]? = some whole ∧
        whole.body = line := by
      rwa [lines, List.getElem?_map, Option.map_eq_some_iff] at hline
    obtain ⟨after, hafter⟩ := toList_applyEdits_split hisName newName.toList hwhole
    rw [replaceOccurrences_declaredAt hat hisName (haccepted.imp_right And.left),
      List.append_assoc] at hafter
    exact ⟨_, hafter⟩

/-- A control behind its modifier and a blank, and a use of it. -/
theorem declaration_among_references_of_knob :
    ⟨0, 16⟩ ∈ references "declare ui_knob $v\n$v := 1" ⟨1, 0⟩ ∧
      ∃ edits after, rename "declare ui_knob $v\n$v := 1" ⟨1, 0⟩ "$gain" = .ok edits ∧
        (applyEdits edits "declare ui_knob $v\n$v := 1").toList =
          "declare ui_knob $gain".toList ++ after := by
  have hs : ⟨"v", .variable .integer (some (.widget "ui_knob")), 0, 16⟩ ∈
      collect "declare ui_knob $v\n$v := 1" := by
    decide +kernel
  have hword : wordAt? "declare ui_knob $v\n$v := 1" ⟨1, 0⟩ = some ['$', 'v'] := by decide +kernel
  have htarget : renameTarget "declare ui_knob $v\n$v := 1" ⟨1, 0⟩ "$gain" = .ok ['$', 'v'] := by
    decide +kernel
  have hedits := rename_eq_ok_iff.mpr ⟨_, htarget, rfl⟩
  obtain ⟨line, front, back, hline, hsplit, hcolumn, -, hreference, hrename⟩ :=
    declaration_among_references_iff hs hword (by decide +kernel)
  have hline' : (lines "declare ui_knob $v\n$v := 1".toList)[0]? =
      some "declare ui_knob $v".toList := by
    decide +kernel
  obtain rfl : line = "declare ui_knob $v".toList := Option.some.inj (hline.symm.trans hline')
  have hparts : front = "declare ui_knob ".toList ∧ ['$', 'v'] ++ back = "$v".toList :=
    List.append_inj (by rw [← List.append_assoc, ← hsplit]; decide +kernel) hcolumn
  have halone : front.getLast?.any isIdentifierChar = false := by
    rw [hparts.1]
    decide +kernel
  obtain ⟨after, hafter⟩ := hrename _ _ hedits
  refine ⟨hreference.mpr halone, _, after, hedits, ?_⟩
  have hnew : "declare ui_knob ".toList ++ "$gain".toList = "declare ui_knob $gain".toList := by
    decide +kernel
  rw [hafter, halone, hparts.1, if_neg Bool.false_ne_true, hnew]
  rfl

/-- A modifier right before the sigil hides the declaration from its references and from a
renaming. -/
theorem declaration_hidden_by_modifier :
    (¬ ∀ (text : String) (s : Symbol) (p : Position), s ∈ collect text →
      wordAt? text p = some s.sourceName.toList → s.position ∈ references text p) ∧
    ∃ edits, rename "declare ui_knob$v\n$v := 1" ⟨1, 0⟩ "$w" = .ok edits ∧
      ⟨"v", .variable .integer (some (.widget "ui_knob")), 0, 15⟩ ∈
        collect "declare ui_knob$v\n$v := 1" ∧
      applyEdits edits "declare ui_knob$v\n$v := 1" = "declare ui_knob$v\n$w := 1" := by
  have hs : ⟨"v", .variable .integer (some (.widget "ui_knob")), 0, 15⟩ ∈
      collect "declare ui_knob$v\n$v := 1" := by
    decide +kernel
  have htarget : renameTarget "declare ui_knob$v\n$v := 1" ⟨1, 0⟩ "$w" = .ok ['$', 'v'] := by
    decide +kernel
  refine ⟨fun h => ?_, _, rename_eq_ok_iff.mpr ⟨_, htarget, rfl⟩, hs, by decide +kernel⟩
  have hreference := h _ _ ⟨1, 0⟩ hs (by decide +kernel)
  revert hreference
  decide +kernel

end KspWorkbench
