import KspWorkbench.Script.Occurrence
import KspWorkbench.Proofs.Sequences

/-!
# The occurrences of a name

The search for a word goes from left to right and never looks twice at a stretch that spells the
word. For words that can be names it therefore finds every occurrence: a name has identifier
characters behind its first character, so where one stretch that spells it begins inside another,
the later one has a name character before it and does not stand alone.

* **`Cut`** — how a line falls apart at the occurrences of a word, with nothing said of searching.
* **`cut_segments`** — the search cuts a line in this way.
* **`Cut.append`** — a character that cannot stand in a name parts a line into two that are cut on
  their own.
* **`Cut.renamed`** — a line in which a name was replaced by a fresh one is cut by the fresh name
  where it was cut by the old one; so replacing goes back (`replaceOccurrences_cancel`).
-/

namespace KspWorkbench

/-! ## §1 — names -/

/-- Whether `c` can stand in a name: an identifier character or a sigil. -/
def isNameChar (c : Char) : Bool :=
  isIdentifierChar c || isSigil c

/-- Whether a word can be a name: identifier characters, the first of which may be a sigil
instead. -/
def isName : List Char → Bool
  | [] => false
  | c :: rest => isNameChar c && rest.all isIdentifierChar

theorem isName_cons {c : Char} {rest : List Char} :
    isName (c :: rest) = true ↔ isNameChar c = true ∧ ∀ d ∈ rest, isIdentifierChar d = true := by
  simp [isName]

theorem isNameChar_of_isIdentifierChar {c : Char} (h : isIdentifierChar c = true) :
    isNameChar c = true := by
  simp [isNameChar, h]

theorem isIdentifierChar_of_not_isNameChar {c : Char} (h : isNameChar c = false) :
    isIdentifierChar c = false := by
  simp only [isNameChar, Bool.or_eq_false_iff] at h
  exact h.1

theorem isNameChar_of_mem {word : List Char} (h : isName word = true) {c : Char} (hc : c ∈ word) :
    isNameChar c = true := by
  cases word with
  | nil => cases hc
  | cons d rest =>
    obtain ⟨hd, hrest⟩ := isName_cons.mp h
    rcases List.mem_cons.mp hc with rfl | hmem
    · exact hd
    · exact isNameChar_of_isIdentifierChar (hrest c hmem)

theorem ne_nil_of_isName {word : List Char} (h : isName word = true) : word ≠ [] := by
  rintro rfl
  cases h

/-- A name ends with a character of names, so nothing can begin right behind it. -/
theorem any_getLast?_of_isName {word : List Char} (h : isName word = true) :
    word.getLast?.any isNameChar = true := by
  cases hlast : word.getLast? with
  | none => exact absurd (List.getLast?_eq_none_iff.mp hlast) (ne_nil_of_isName h)
  | some c => exact isNameChar_of_mem h (List.mem_of_getLast? hlast)

/-- A name stands alone when no name goes on before it and no identifier behind it. -/
theorem standsAlone_eq (before : Option Char) (behind : List Char) :
    standsAlone before behind = (!before.any isNameChar && !behind.head?.any isIdentifierChar) :=
  rfl

/-! ## §2 — cuts -/

/-- **How a line is cut** at the occurrences of a word, behind the character `before`: an occurrence
is cut off as a whole, and a character at which no occurrence begins stands for itself. -/
inductive Cut (word : List Char) : Option Char → List Char → List Segment → Prop where
  | nil {before : Option Char} : Cut word before [] []
  | found {before : Option Char} {rest : List Char} {segs : List Segment}
      (halone : standsAlone before rest = true) (hrest : Cut word word.getLast? rest segs) :
      Cut word before (word ++ rest) (.found :: segs)
  | other {before : Option Char} {c : Char} {rest : List Char} {segs : List Segment}
      (hother : ∀ behind, c :: rest = word ++ behind → standsAlone before behind = false)
      (hrest : Cut word (some c) rest segs) : Cut word before (c :: rest) (.other c :: segs)

/-- What a search that has come so far owes to the rest of the line. -/
def CutBy (word : List Char) : Search → Option Char → List Char → List Segment → Prop
  | .looking, before, line, segs => Cut word before line segs
  | .passing left, before, line, segs =>
    before.any isNameChar = true → (∀ c ∈ line.take left, isIdentifierChar c = true) →
      Cut word before line segs
  | .inside left, before, line, segs =>
    Cut word ((line.take left).getLast?.or before) (line.drop left) segs

/-- A cut is one for any search that is not inside an occurrence. -/
theorem cutBy_of_cut {word : List Char} {search : Search} {before : Option Char}
    {line : List Char} {segs : List Segment} (hinside : ∀ k, search ≠ .inside (k + 1))
    (h : Cut word before line segs) : CutBy word search before line segs := by
  cases search with
  | looking => exact h
  | passing left => exact fun _ _ => h
  | inside left =>
    cases left with
    | zero => simpa [CutBy] using h
    | succ k => exact absurd rfl (hinside k)

/-- **The search cuts a line at every occurrence of a name**, whatever its progress. -/
theorem cutBy_segmentsFrom {word : List Char} (hword : isName word = true) (search : Search)
    (before : Option Char) (line : List Char) :
    CutBy word search before line (segmentsFrom word search before line) := by
  fun_induction segmentsFrom word search before line with
  | case1 search before =>
    cases search with
    | looking => exact .nil
    | passing left => exact fun _ _ => .nil
    | inside left =>
      simp only [CutBy, List.drop_nil]
      exact .nil
  | case2 k before c cs ih =>
    simp only [CutBy, List.take_succ_cons, List.drop_succ_cons] at ih ⊢
    rwa [getLast?_cons_or]
  | case3 k before c cs ih =>
    -- the character before is part of the stretch, so nothing here stands alone.
    intro hbefore hidents
    rw [List.take_succ_cons] at hidents
    have hc := isNameChar_of_isIdentifierChar (hidents c (by simp))
    refine .other (fun behind _ => by simp [standsAlone_eq, hbefore]) ?_
    exact ih hc fun d hd => hidents d (by simp [hd])
  | case4 search before c cs hinside hpassing hstart halone ih =>
    refine cutBy_of_cut (fun k hk => hinside k hk) ?_
    obtain ⟨behind, hbehind⟩ := List.isPrefixOf_iff_prefix.mp hstart
    cases word with
    | nil => cases hword
    | cons d rest =>
      rw [List.cons_append, List.cons.injEq] at hbehind
      obtain ⟨rfl, rfl⟩ := hbehind
      have hrest : Cut (d :: rest) (d :: rest).getLast? behind
          (segmentsFrom (d :: rest) (.inside rest.length) (some d) (rest ++ behind)) := by
        rw [List.getLast?_cons]
        cases hlast : rest.getLast? <;> simpa [CutBy, hlast] using ih
      exact .found (by simpa using halone) hrest
  | case5 search before c cs hinside hpassing hstart halone ih =>
    refine cutBy_of_cut (fun k hk => hinside k hk) ?_
    obtain ⟨behind, hbehind⟩ := List.isPrefixOf_iff_prefix.mp hstart
    cases word with
    | nil => cases hword
    | cons d rest =>
      obtain ⟨hd, hidents⟩ := isName_cons.mp hword
      rw [List.cons_append, List.cons.injEq] at hbehind
      obtain ⟨rfl, rfl⟩ := hbehind
      refine .other ?_ (ih hd ?_)
      · intro behind' heq
        have hbehind' : behind = behind' := by simpa using heq
        rw [← hbehind']
        simpa using halone
      · simpa using hidents
  | case6 search before c cs hinside hpassing hstart ih =>
    refine cutBy_of_cut (fun k hk => hinside k hk) (.other ?_ ih)
    intro behind hbehind
    exact absurd (List.isPrefixOf_iff_prefix.mpr ⟨behind, hbehind.symm⟩) hstart

/-- **The segments of a line** are its cut at the occurrences of the name. -/
theorem cut_segments {word : List Char} (hword : isName word = true) (line : List Char) :
    Cut word none line (segments word line) :=
  cutBy_segmentsFrom hword .looking none line

namespace Cut

variable {word name line : List Char} {before : Option Char} {segs segs' : List Segment}

/-- A line is cut in one way only. -/
theorem unique (hword : isName word = true) (h : Cut word before line segs)
    (h' : Cut word before line segs') : segs = segs' := by
  -- by induction on the first cut; at each place the second one has no choice, since a word
  -- stands alone there or it does not.
  induction h generalizing segs' with
  | nil =>
    generalize hline : ([] : List Char) = empty at h'
    cases h' with
    | nil => rfl
    | found => simp [ne_nil_of_isName hword] at hline
    | other => cases hline
  | found halone hrest ih =>
    generalize hline : word ++ _ = whole at h'
    cases h' with
    | nil => simp [ne_nil_of_isName hword] at hline
    | found halone' hrest' =>
      rw [List.append_cancel_left hline] at ih
      rw [ih hrest']
    | other hother' =>
      rw [hother' _ hline.symm] at halone
      cases halone
  | other hother hrest ih =>
    generalize hline : _ :: _ = whole at h'
    cases h' with
    | nil => cases hline
    | found halone' =>
      rw [hother _ hline] at halone'
      cases halone'
    | other _ hrest' =>
      obtain ⟨rfl, rfl⟩ := List.cons.inj hline
      rw [ih hrest']

/-- The segments of a line give the line back. -/
theorem flatMap_render (h : Cut word before line segs) :
    segs.flatMap (Segment.render word) = line := by
  induction h with
  | nil => rfl
  | found _ _ ih => simp [Segment.render, ih]
  | other _ _ ih => simp [Segment.render, ih]

/-- All that matters of the character before a line is whether it can stand in a name. -/
theorem congr_before (h : Cut word before line segs) {before' : Option Char}
    (hbefore : before'.any isNameChar = before.any isNameChar) : Cut word before' line segs := by
  have hsame : ∀ behind, standsAlone before' behind = standsAlone before behind := fun behind => by
    rw [standsAlone_eq, standsAlone_eq, hbefore]
  cases h with
  | nil => exact .nil
  | found halone hrest => exact .found (by rw [hsame, halone]) hrest
  | other hother hrest => exact .other (fun behind hb => by rw [hsame, hother behind hb]) hrest

/-- **A character that cannot stand in a name parts a line**: what comes before it and what comes
behind it are cut on their own. -/
theorem append (hword : isName word = true) {d : Char} (hd : isNameChar d = false)
    {line' : List Char} (h : Cut word before line segs) (h' : Cut word (some d) line' segs') :
    Cut word before (line ++ d :: line') (segs ++ .other d :: segs') := by
  have hident := isIdentifierChar_of_not_isNameChar hd
  -- what stands alone before the end of the line stands alone before `d`.
  have hsame : ∀ before rest,
      standsAlone before (rest ++ d :: line') = standsAlone before rest := fun before rest => by
    cases rest <;> simp [standsAlone_eq, hident]
  induction h with
  | nil =>
    refine .other (fun behind hbehind => ?_) h'
    cases word with
    | nil => cases hword
    | cons e rest =>
      obtain ⟨rfl, -⟩ := List.cons.inj hbehind
      rw [isNameChar_of_mem hword (by simp)] at hd
      cases hd
  | found halone hrest ih =>
    rw [List.append_assoc]
    exact .found (by rw [hsame, halone]) ih
  | @other before c rest segs hother hrest ih =>
    refine .other (fun behind hbehind => ?_) ih
    -- the word would end before `d`, or it would hold `d`.
    have hsplit : word ++ behind = (c :: rest) ++ d :: line' := hbehind.symm
    rcases split_append hsplit with ⟨more, hmore, -⟩ | ⟨more, hmore, rfl⟩
    · rw [isNameChar_of_mem hword (by simp [hmore])] at hd
      cases hd
    · rw [hsame]
      exact hother more hmore

/-- Behind a name character no occurrence begins. -/
theorem head?_flatMap_render (hbefore : before.any isNameChar = true)
    (h : Cut word before line segs) : (segs.flatMap (Segment.render name)).head? = line.head? := by
  cases h with
  | nil => rfl
  | found halone => simp [standsAlone_eq, hbefore] at halone
  | other => rfl

/-- Name characters at the front of a line with its occurrences replaced, behind a name character,
stand at the front of the line itself. -/
theorem prefix_of_prefix_flatMap_render {front : List Char}
    (hfront : ∀ c ∈ front, isNameChar c = true) (hbefore : before.any isNameChar = true)
    (h : Cut word before line segs) (hstart : front <+: segs.flatMap (Segment.render name)) :
    front <+: line := by
  induction h generalizing front with
  | nil => exact hstart
  | found halone => simp [standsAlone_eq, hbefore] at halone
  | @other _ c rest segs _ _ ih =>
    cases front with
    | nil => exact List.nil_prefix
    | cons d front =>
      have hsplit : d = c ∧ front <+: segs.flatMap (Segment.render name) :=
        List.cons_prefix_cons.mp hstart
      obtain ⟨rfl, hfront_rest⟩ := hsplit
      have hd : (some d).any isNameChar = true := hfront d (by simp)
      have hrest := ih (fun e he => hfront e (List.mem_cons_of_mem d he)) hd hfront_rest
      exact List.cons_prefix_cons.mpr ⟨rfl, hrest⟩

/-- **A renamed line is cut as before.** If the new name occurs nowhere in the line, it occurs in the
renamed line just where it was put. -/
theorem renamed (hword : isName word = true) (hname : isName name = true)
    (h : Cut word before line segs) (hfresh : ¬ name <:+: line) :
    Cut name before (segs.flatMap (Segment.render name)) segs := by
  induction h with
  | nil => exact .nil
  | @found before rest segs halone hrest ih =>
    have hrest' : Cut name name.getLast? (segs.flatMap (Segment.render name)) segs := by
      refine (ih fun hin => hfresh (hin.trans (List.suffix_append _ _).isInfix)).congr_before ?_
      rw [any_getLast?_of_isName hword, any_getLast?_of_isName hname]
    -- the same character follows the occurrence as before.
    have halone' : standsAlone before (segs.flatMap (Segment.render name)) = true := by
      rw [standsAlone_eq] at halone ⊢
      rwa [hrest.head?_flatMap_render (any_getLast?_of_isName hword)]
    exact .found halone' hrest'
  | @other before c rest segs hother hrest ih =>
    refine .other ?_ (ih fun hin => hfresh (hin.trans (List.suffix_cons _ _).isInfix))
    intro behind hbehind
    cases name with
    | nil => cases hname
    | cons d name =>
      -- an occurrence here would stand in the line as it was.
      obtain ⟨rfl, hstart⟩ := List.cons.inj hbehind
      have hc : (some c).any isNameChar = true := isNameChar_of_mem hname (by simp)
      have hfront : name <+: rest :=
        hrest.prefix_of_prefix_flatMap_render
          (fun e he => isNameChar_of_mem hname (by simp [he])) hc ⟨behind, hstart.symm⟩
      exact absurd (List.cons_prefix_cons.mpr ⟨rfl, hfront⟩).isInfix hfresh

end Cut

/-! ## §3 — replacing the occurrences -/

section Replacing

variable {word name line : List Char}

/-- The rest of a line behind the character `before`, with the occurrences of `word` replaced. -/
def replaceFrom (word name : List Char) (before : Option Char) (rest : List Char) : List Char :=
  (segmentsFrom word .looking before rest).flatMap (Segment.render name)

theorem replaceOccurrences_eq (word name line : List Char) :
    replaceOccurrences word name line = replaceFrom word name none line :=
  rfl

/-- Replacing goes by any cut, for there is only one. -/
theorem Cut.replaceFrom_eq (hword : isName word = true) {before : Option Char}
    {segs : List Segment} (h : Cut word before line segs) :
    replaceFrom word name before line = segs.flatMap (Segment.render name) := by
  rw [replaceFrom, (cutBy_segmentsFrom hword .looking before line).unique hword h]

/-- Where the word stands alone, the new name is written. -/
theorem replaceFrom_found (hword : isName word = true) {before : Option Char} {rest : List Char}
    (halone : standsAlone before rest = true) :
    replaceFrom word name before (word ++ rest) =
      name ++ replaceFrom word name word.getLast? rest :=
  (Cut.found halone (cutBy_segmentsFrom hword .looking _ rest)).replaceFrom_eq hword

/-- Where the word does not stand alone, the character is kept. -/
theorem replaceFrom_other (hword : isName word = true) {before : Option Char} {c : Char}
    {rest : List Char}
    (hother : ∀ behind, c :: rest = word ++ behind → standsAlone before behind = false) :
    replaceFrom word name before (c :: rest) = c :: replaceFrom word name (some c) rest :=
  (Cut.other hother (cutBy_segmentsFrom hword .looking _ rest)).replaceFrom_eq hword

/-- What comes before matters only as far as it can continue a name. -/
theorem replaceFrom_congr (hword : isName word = true) {before before' : Option Char}
    (hbefore : before'.any isNameChar = before.any isNameChar) (rest : List Char) :
    replaceFrom word name before' rest = replaceFrom word name before rest :=
  ((cutBy_segmentsFrom hword .looking before rest).congr_before hbefore).replaceFrom_eq hword

/-- On both sides of a character that cannot stand in a name, the occurrences are replaced
independently. -/
theorem replaceFrom_append (hword : isName word = true) {d : Char} (hd : isNameChar d = false)
    (before : Option Char) (front rest : List Char) :
    replaceFrom word name before (front ++ d :: rest) =
      replaceFrom word name before front ++ d :: replaceFrom word name none rest := by
  have hcut : Cut word (some d) rest (segmentsFrom word .looking none rest) :=
    (cut_segments hword rest).congr_before (by simpa using hd)
  rw [((cutBy_segmentsFrom hword .looking before front).append hword hd hcut).replaceFrom_eq hword,
    List.flatMap_append]
  rfl

/-- Behind a character of names no occurrence begins, so the first character is kept. -/
theorem head?_replaceFrom (hword : isName word = true) {before : Option Char}
    (hbefore : before.any isNameChar = true) (rest : List Char) :
    (replaceFrom word name before rest).head? = rest.head? :=
  (cutBy_segmentsFrom hword .looking before rest).head?_flatMap_render hbefore

/-- **An occurrence is replaced in its place**: the new name stands between the characters that the
old one stood between. -/
theorem replaceOccurrences_around (hword : isName word = true) {front back : List Char}
    (hfront : front.getLast?.any isNameChar = false)
    (hback : back.head?.any isIdentifierChar = false) :
    ∃ front' back', replaceOccurrences word name (front ++ word ++ back) =
        front' ++ name ++ back' ∧
      front'.getLast? = front.getLast? ∧ back'.head? = back.head? := by
  have hfound : replaceFrom word name none (word ++ back) =
      name ++ replaceFrom word name word.getLast? back :=
    replaceFrom_found hword (by simp [standsAlone_eq, hback])
  have hhead : (replaceFrom word name word.getLast? back).head? = back.head? :=
    head?_replaceFrom hword (any_getLast?_of_isName hword) back
  rw [replaceOccurrences_eq]
  -- the last character before the occurrence is no part of a name, so the line can be cut there.
  rcases List.eq_nil_or_concat' front with rfl | ⟨init, d, rfl⟩
  · exact ⟨[], _, hfound, rfl, hhead⟩
  · refine ⟨replaceFrom word name none init ++ [d], _, ?_, by simp, hhead⟩
    rw [List.append_assoc, List.append_assoc, List.singleton_append,
      replaceFrom_append hword (by simpa using hfront), hfound]
    simp

/-- **Replacing goes back.** A name that occurs nowhere in a line, put in the place of another one,
can be replaced by that one again. -/
theorem replaceOccurrences_cancel (hword : isName word = true) (hname : isName name = true)
    (hfresh : ¬ name <:+: line) :
    replaceOccurrences name word (replaceOccurrences word name line) = line := by
  have hcut := cut_segments hword line
  have hsegs : segments name (replaceOccurrences word name line) = segments word line :=
    (cut_segments hname _).unique hname (hcut.renamed hword hname hfresh)
  rw [replaceOccurrences, hsegs]
  exact hcut.flatMap_render

/-- A cut without occurrences has no columns, and the other way round. -/
theorem columnsFrom_eq_nil_iff {width column : Nat} {segs : List Segment} :
    columnsFrom width column segs = [] ↔ .found ∉ segs := by
  induction segs generalizing column with
  | nil => simp [columnsFrom]
  | cons seg segs ih => cases seg <;> simp [columnsFrom, ih]

theorem replaceOccurrences_of_not_occurs (hword : isName word = true)
    (hnone : occurrences word line = []) : replaceOccurrences word name line = line := by
  have hfound : .found ∉ segments word line := columnsFrom_eq_nil_iff.mp hnone
  calc replaceOccurrences word name line
      = (segments word line).flatMap (Segment.render word) := by
        refine List.flatMap_congr fun seg hseg => ?_
        cases seg with
        | other c => rfl
        | found => exact absurd hseg hfound
    _ = line := (cut_segments hword line).flatMap_render

/-- Nothing but the new name comes into a line. -/
theorem mem_of_mem_replaceOccurrences (hword : isName word = true) {c : Char}
    (hc : c ∈ replaceOccurrences word name line) : c ∈ line ∨ c ∈ name := by
  obtain ⟨seg, hseg, hc⟩ := List.mem_flatMap.mp hc
  cases seg with
  | found => exact Or.inr hc
  | other d =>
    rw [Segment.render, List.mem_singleton] at hc
    subst hc
    left
    rw [← (cut_segments hword line).flatMap_render]
    exact List.mem_flatMap.mpr ⟨_, hseg, by simp [Segment.render]⟩

theorem replaceOccurrences_ne_nil (hword : isName word = true) (hname : isName name = true)
    (hline : line ≠ []) : replaceOccurrences word name line ≠ [] := by
  have hcut := cut_segments hword line
  intro hnil
  rw [replaceOccurrences] at hnil
  cases hsegs : segments word line with
  | nil =>
    rw [hsegs] at hcut
    exact hline hcut.flatMap_render.symm
  | cons seg segs =>
    rw [hsegs] at hnil
    cases seg <;> simp [Segment.render, ne_nil_of_isName hname] at hnil

/-- A renamed line ends with the character that it ended with, or with a name character. -/
theorem getLast?_replaceOccurrences (hword : isName word = true) (hname : isName name = true)
    (line : List Char) :
    (replaceOccurrences word name line).getLast? = line.getLast? ∨
      (replaceOccurrences word name line).getLast?.any isNameChar = true := by
  have hcut := cut_segments hword line
  rw [replaceOccurrences]
  -- the last segment decides: a character that is kept, or an occurrence.
  rcases List.eq_nil_or_concat (segments word line) with hsegs | ⟨segs, seg, hsegs⟩
  · rw [hsegs] at hcut ⊢
    exact Or.inl (by rw [← hcut.flatMap_render]; rfl)
  · rw [hsegs] at hcut ⊢
    cases seg with
    | other c =>
      left
      rw [← hcut.flatMap_render]
      simp [Segment.render]
    | found =>
      right
      have hlast := any_getLast?_of_isName hname
      cases hend : name.getLast? with
      | none => simp [hend] at hlast
      | some c => simpa [Segment.render, List.getLast?_append, hend] using hlast

end Replacing

end KspWorkbench
