import KspWorkbench.Proofs.Sequences
import KspWorkbench.Text.Scanning

/-!
# Patterns of lines

A pattern is a sequence of fixed words and of runs of characters, each of which takes as much as it
can (greedy) or as little as it can (lazy). `match?` tries the lengths of a run in that order, the
ones of the first run outermost, and keeps what the first way to match captures: the leftmost-first
reading of a regular expression. The readers of this library look for what they need directly, and
this is what they are measured against.

The lemmas say which way to match is the first: `match?_greedy` and `match?_lazy` for one run, and
`match?_restOfLine` and `match?_numberToEnd` for the ends that the patterns of output lines share.
-/

namespace KspWorkbench

/-- A part of a pattern. -/
inductive PatternPart where
  | word (text : List Char)
  -- at least `least` characters of a class.
  | run (p : Char → Bool) (least : Nat) (greedy captured : Bool)
  | lineEnd

open PatternPart

/-- The lengths of a run, in the order in which they are tried. -/
def runLengths (least most : Nat) : Bool → List Nat
  | true => (List.range' least (most + 1 - least)).reverse
  | false => List.range' least (most + 1 - least)

/-- What the first way to match the whole pattern at the front of the characters captures. -/
def match? : List PatternPart → List Char → Option (List (List Char))
  | [], _ => some []
  | .word text :: parts, cs => (afterWord? text cs).bind (match? parts)
  | .run p least greedy captured :: parts, cs =>
    (runLengths least (cs.takeWhile p).length greedy).findSome? fun n =>
      (match? parts (cs.drop n)).map fun caught =>
        if captured then cs.take n :: caught else caught
  | .lineEnd :: parts, cs => if cs = [] then match? parts cs else none

/-- What the first match captures that starts anywhere. -/
def search? (parts : List PatternPart) : List Char → Option (List (List Char))
  | [] => match? parts []
  | c :: cs => (match? parts (c :: cs)).or (search? parts cs)

/-- Anything that may stand in a line. -/
def isInLine (c : Char) : Bool :=
  c != '\n'

theorem isInLine_of_mem {cs : List Char} (hcs : '\n' ∉ cs) {c : Char} (hc : c ∈ cs) :
    isInLine c = true := by
  rw [isInLine, bne_iff_ne]
  rintro rfl
  exact hcs hc

theorem not_mem_of_afterWord? {text cs rest : List Char} {c : Char} (hcs : c ∉ cs)
    (h : afterWord? text cs = some rest) : c ∉ rest := by
  rw [afterWord?_eq_some_iff.mp h] at hcs
  exact fun hc => hcs (List.mem_append_right _ hc)

/-! ## §1 — one run -/

section Run

variable {p : Char → Bool} {least n : Nat} {greedy captured : Bool} {parts : List PatternPart}
  {cs : List Char} {caught : List (List Char)}

/-- A run can have any length between the least and the most, whether it is greedy or not. -/
theorem mem_runLengths {most : Nat} :
    n ∈ runLengths least most greedy ↔ least ≤ n ∧ n ≤ most := by
  cases greedy <;> simp only [runLengths, List.mem_reverse, List.mem_range'_1] <;> omega

/-- The lengths before a given one, in the order of a lazy run. -/
theorem range'_split {most : Nat} (hleast : least ≤ n) (hmost : n ≤ most) :
    List.range' least (most + 1 - least) =
      List.range' least (n - least) ++ n :: List.range' (n + 1) (most - n) := by
  have hlength : most + 1 - least = (n - least) + (most - n + 1) := by omega
  have hnext : least + (n - least) = n := by omega
  rw [hlength, ← List.range'_append_1, hnext, List.range'_succ]

theorem take_takeWhile_length (p : Char → Bool) (cs : List Char) :
    cs.take (cs.takeWhile p).length = cs.takeWhile p :=
  (List.prefix_iff_eq_take.mp (List.takeWhile_prefix p)).symm

theorem drop_takeWhile_length (p : Char → Bool) (cs : List Char) :
    cs.drop (cs.takeWhile p).length = cs.dropWhile p := by
  have hboth : cs.take (cs.takeWhile p).length ++ cs.drop (cs.takeWhile p).length =
      cs.takeWhile p ++ cs.dropWhile p := by
    rw [List.take_append_drop, List.takeWhile_append_dropWhile]
  rw [take_takeWhile_length] at hboth
  exact List.append_cancel_left hboth

theorem of_mem_take {c : Char} (hmost : n ≤ (cs.takeWhile p).length) (hc : c ∈ cs.take n) :
    p c = true := by
  have htake : cs.take n = (cs.takeWhile p).take n := by
    rw [← take_takeWhile_length p cs, List.take_take, Nat.min_eq_left hmost]
  rw [htake] at hc
  exact List.mem_takeWhile_imp (List.mem_of_mem_take hc)

/-- A run that matches does so with some length, and the rest matches behind it. -/
theorem match?_run_eq_some (h : match? (run p least greedy captured :: parts) cs = some caught) :
    ∃ n rest, least ≤ n ∧ n ≤ (cs.takeWhile p).length ∧ match? parts (cs.drop n) = some rest := by
  rw [match?] at h
  obtain ⟨n, hn, hmatch⟩ := List.exists_of_findSome?_eq_some h
  obtain ⟨rest, hrest, -⟩ := Option.map_eq_some_iff.mp hmatch
  obtain ⟨hleast, hmost⟩ := mem_runLengths.mp hn
  exact ⟨n, rest, hleast, hmost, hrest⟩

/-- A run fails when the rest does, behind each of its lengths. -/
theorem match?_run_eq_none
    (h : ∀ n, least ≤ n → n ≤ (cs.takeWhile p).length → match? parts (cs.drop n) = none) :
    match? (run p least greedy captured :: parts) cs = none := by
  apply Option.eq_none_iff_forall_ne_some.mpr
  intro caught hmatch
  obtain ⟨n, rest, hleast, hmost, hrest⟩ := match?_run_eq_some hmatch
  rw [h n hleast hmost] at hrest
  cases hrest

theorem match?_run_short (h : (cs.takeWhile p).length < least) :
    match? (run p least greedy captured :: parts) cs = none :=
  match?_run_eq_none fun _ hleast hmost => absurd (hleast.trans hmost) (Nat.not_le.mpr h)

/-- A greedy run has the greatest length with which the rest matches. -/
theorem match?_greedy (hleast : least ≤ n) (hmost : n ≤ (cs.takeWhile p).length)
    (hrest : match? parts (cs.drop n) = some caught)
    (hmore : ∀ m, n < m → m ≤ (cs.takeWhile p).length → match? parts (cs.drop m) = none) :
    match? (run p least true captured :: parts) cs =
      some (if captured then cs.take n :: caught else caught) := by
  rw [match?, runLengths, range'_split hleast hmost, List.reverse_append, List.reverse_cons,
    List.append_assoc, List.findSome?_eq_some_iff]
  refine ⟨_, n, _, rfl, by rw [hrest, Option.map_some], ?_⟩
  intro m hm
  rw [List.mem_reverse, List.mem_range'_1] at hm
  rw [hmore m (by omega) (by omega), Option.map_none]

/-- A lazy run has the least length with which the rest matches. -/
theorem match?_lazy (hleast : least ≤ n) (hmost : n ≤ (cs.takeWhile p).length)
    (hrest : match? parts (cs.drop n) = some caught)
    (hless : ∀ m, least ≤ m → m < n → match? parts (cs.drop m) = none) :
    match? (run p least false captured :: parts) cs =
      some (if captured then cs.take n :: caught else caught) := by
  rw [match?, runLengths, range'_split hleast hmost, List.findSome?_eq_some_iff]
  refine ⟨_, n, _, rfl, by rw [hrest, Option.map_some], ?_⟩
  intro m hm
  rw [List.mem_range'_1] at hm
  rw [hless m hm.1 (by omega), Option.map_none]

/-- A greedy run whose rest matches behind all of it. -/
theorem match?_whole_run (hleast : least ≤ (cs.takeWhile p).length)
    (hrest : match? parts (cs.dropWhile p) = some caught) :
    match? (run p least true captured :: parts) cs =
      some (if captured then cs.takeWhile p :: caught else caught) := by
  rw [← drop_takeWhile_length] at hrest
  rw [match?_greedy hleast le_rfl hrest (by omega), take_takeWhile_length]

/-- Behind a lazy run of anything the rest is looked for from left to right. -/
theorem match?_lazy_eq_search? (hcs : ∀ c ∈ cs, p c = true) :
    match? (run p 0 false false :: parts) cs = search? parts cs := by
  -- by induction on the characters: the lazy run takes one more just when the search goes on by
  -- one.
  induction cs with
  | nil =>
    rw [search?]
    cases hnow : match? parts [] with
    | some caught => exact match?_lazy le_rfl (Nat.zero_le _) hnow (by omega)
    | none => exact match?_run_eq_none fun n _ _ => by rw [List.drop_nil, hnow]
  | cons c cs ih =>
    have hall : (c :: cs).takeWhile p = c :: cs := List.takeWhile_eq_self_iff.mpr hcs
    have hrest : cs.takeWhile p = cs :=
      List.takeWhile_eq_self_iff.mpr fun d hd => hcs d (List.mem_cons_of_mem c hd)
    rw [search?, ← ih fun d hd => hcs d (List.mem_cons_of_mem c hd)]
    simp only [match?, runLengths, hall, hrest, List.length_cons, Nat.sub_zero,
      Bool.false_eq_true, if_false, Option.map_id']
    rw [List.range'_succ, List.findSome?_cons, List.range'_eq_map_range, Nat.zero_add,
      List.findSome?_map, ← List.range_eq_range']
    cases hnow : match? parts (c :: cs) <;> simp [hnow, Function.comp_def, Nat.add_comm 1]

end Run

/-! ## §2 — the end of a line -/

/-- White space is trimmed up to the last character that is none. -/
theorem trimEnd_append {body tail : List Char} (hbody : ∀ c ∈ body.getLast?, isBlank c = false)
    (htail : ∀ c ∈ tail, isBlank c = true) : trimEnd (body ++ tail) = body := by
  have hspan := span_append tail.reverse body.reverse (by simpa using htail)
    (by simpa [List.head?_reverse] using hbody)
  rw [trimEnd, List.reverse_append, hspan.2, List.reverse_reverse]

/-- Text is what is left when the white space at its end is dropped, and that white space. -/
theorem exists_trimEnd (cs : List Char) :
    ∃ tail, cs = trimEnd cs ++ tail ∧ (∀ c ∈ tail, isBlank c = true) ∧
      ∀ c ∈ (trimEnd cs).getLast?, isBlank c = false := by
  refine ⟨(cs.reverse.takeWhile isBlank).reverse, ?_, ?_, ?_⟩
  · rw [trimEnd, ← List.reverse_append, List.takeWhile_append_dropWhile, List.reverse_reverse]
  · intro c hc
    exact List.mem_takeWhile_imp (List.mem_reverse.mp hc)
  · intro c hc
    rw [trimEnd, List.getLast?_reverse] at hc
    exact stops_dropWhile hc

theorem trimEnd_of_blank {cs : List Char} (h : ∀ c ∈ cs, isBlank c = true) : trimEnd cs = [] :=
  @trimEnd_append [] cs (by simp) h

theorem trimEnd_prefix_self (cs : List Char) : trimEnd cs <+: cs := by
  obtain ⟨tail, hcs, -, -⟩ := exists_trimEnd cs
  exact ⟨tail, hcs.symm⟩

theorem take_trimEnd_length (cs : List Char) : cs.take (trimEnd cs).length = trimEnd cs :=
  (List.prefix_iff_eq_take.mp (trimEnd_prefix_self cs)).symm

/-- Trimming at the end leaves nothing only of white space. -/
theorem trimEnd_dropWhile_eq_nil {cs : List Char} (h : trimEnd (cs.dropWhile isBlank) = []) :
    cs.dropWhile isBlank = [] := by
  obtain ⟨tail, hcs, htail, -⟩ := exists_trimEnd (cs.dropWhile isBlank)
  rw [h, List.nil_append] at hcs
  cases hdrop : cs.dropWhile isBlank with
  | nil => rfl
  | cons c rest =>
    have hstop : isBlank c = false := stops_dropWhile (by rw [hdrop]; rfl)
    rw [hdrop] at hcs
    rw [htail c (hcs ▸ List.mem_cons_self)] at hstop
    cases hstop

/-- Only white space is left just when all that is not trimmed is taken. -/
theorem all_drop_blank_iff {cs : List Char} {n : Nat} :
    (cs.drop n).all isBlank = true ↔ (trimEnd cs).length ≤ n := by
  obtain ⟨tail, hcs, htail, hlast⟩ := exists_trimEnd cs
  have hdrop : cs.drop n = (trimEnd cs).drop n ++ tail.drop (n - (trimEnd cs).length) := by
    rw [← List.drop_append, ← hcs]
  rw [hdrop, List.all_eq_true]
  constructor
  · intro h
    by_contra hshort
    -- the last character that is not white space stands behind the first `n`.
    have hne : (trimEnd cs).drop n ≠ [] := by
      rw [ne_eq, List.drop_eq_nil_iff]
      exact hshort
    have hblank := h _ (List.mem_append_left _ (List.getLast_mem hne))
    have hend : (trimEnd cs).getLast? = some (((trimEnd cs).drop n).getLast hne) := by
      rw [List.getLast_drop hne, List.getLast?_eq_some_getLast]
    rw [hlast _ hend] at hblank
    cases hblank
  · intro hlong c hc
    rw [List.drop_of_length_le hlong, List.nil_append] at hc
    exact htail c (List.mem_of_mem_drop hc)

/-- White space up to the end of the line. -/
abbrev blanksToEnd : List PatternPart :=
  [run isBlank 0 true false, lineEnd]

/-- What stands in the line from here on, less the white space at its end. -/
abbrev restOfLine (least : Nat) : List PatternPart :=
  run isInLine least false true :: blanksToEnd

/-- A number and white space around it up to the end of the line. -/
abbrev numberToEnd : List PatternPart :=
  run isBlank 0 true false :: run isDecimalDigit 1 true true :: blanksToEnd

/-- The end of a line may have white space before it. -/
theorem match?_blanksToEnd (cs : List Char) :
    match? blanksToEnd cs = if cs.all isBlank then some [] else none := by
  split
  · next h =>
    refine match?_whole_run (Nat.zero_le _) ?_
    rw [List.dropWhile_eq_nil_iff.mpr (List.all_eq_true.mp h)]
    rfl
  · next h =>
    refine match?_run_eq_none fun n _ hmost => ?_
    rw [match?, if_neg]
    -- if nothing is left behind the white space, then there is nothing else.
    intro hnil
    apply h
    rw [List.all_eq_true]
    intro c hc
    have hwhole : cs.takeWhile isBlank = cs :=
      (List.takeWhile_prefix isBlank).eq_of_length_le
        ((List.drop_eq_nil_iff.mp hnil).trans hmost)
    rw [← hwhole] at hc
    exact List.mem_takeWhile_imp hc

/-- The rest of a line is captured without the white space at its end, but at least `least`
characters of it. -/
theorem match?_restOfLine {least : Nat} {cs : List Char} (hcs : '\n' ∉ cs)
    (hleast : least ≤ cs.length) :
    match? (restOfLine least) cs = some [cs.take (max least (trimEnd cs).length)] := by
  have hlength := (trimEnd_prefix_self cs).length_le
  have hline : cs.takeWhile isInLine = cs :=
    List.takeWhile_eq_self_iff.mpr fun c hc => isInLine_of_mem hcs hc
  refine match?_lazy (le_max_left _ _) (by rw [hline]; omega) ?_ ?_
  · rw [match?_blanksToEnd, if_pos (all_drop_blank_iff.mpr (le_max_right _ _))]
  · intro m hm hlt
    rw [match?_blanksToEnd, if_neg]
    rw [all_drop_blank_iff]
    omega

/-! ## §3 — numbers -/

theorem isDecimalDigit_of_isBlank {c : Char} (h : isBlank c = true) : isDecimalDigit c = false := by
  -- no run of ten digits meets one of the ranges of white space.
  have hapart : ∀ z ∈ decimalZeros, (0x0D < z ∨ z + 10 ≤ 0x09) ∧
      (∀ b ∈ [0x20, 0x85, 0xA0, 0x1680, 0x2028, 0x2029, 0x202F, 0x205F, 0x3000],
        b < z ∨ z + 10 ≤ b) ∧ (0x200A < z ∨ z + 10 ≤ 0x2000) := by
    decide
  rw [isDecimalDigit, List.any_eq_false]
  intro z hz
  obtain ⟨hcontrols, hsingle, hspaces⟩ := hapart z hz
  simp only [List.forall_mem_cons] at hsingle
  simp only [isBlank, Bool.or_eq_true, Bool.and_eq_true, decide_eq_true_eq, beq_iff_eq] at h
  simp only [Bool.and_eq_true, decide_eq_true_eq, not_and]
  omega

/-- Text that is a number with white space around it. -/
def IsNumber (cs : List Char) : Prop :=
  trim cs ≠ [] ∧ (trim cs).all isDecimalDigit = true

instance (cs : List Char) : Decidable (IsNumber cs) :=
  inferInstanceAs (Decidable (_ ∧ _))

theorem isBlank_of_isDecimalDigit {c : Char} (h : isDecimalDigit c = true) : isBlank c = false := by
  cases hblank : isBlank c with
  | false => rfl
  | true => rw [isDecimalDigit_of_isBlank hblank] at h; cases h

/-- Digits up to the end of the line, white space aside, are captured together. -/
theorem match?_digits (cs : List Char) :
    match? (run isDecimalDigit 1 true true :: blanksToEnd) cs =
      if trimEnd cs ≠ [] ∧ (trimEnd cs).all isDecimalDigit = true then some [trimEnd cs]
      else none := by
  obtain ⟨tail, hcs, htail, -⟩ := exists_trimEnd cs
  split
  · next h =>
    have hspan := span_append (trimEnd cs) tail (List.all_eq_true.mp h.2)
      fun c hc => isDecimalDigit_of_isBlank (htail c (List.mem_of_mem_head? hc))
    rw [← hcs] at hspan
    have hrest : match? blanksToEnd (cs.dropWhile isDecimalDigit) = some [] := by
      rw [match?_blanksToEnd, hspan.2, if_pos (List.all_eq_true.mpr htail)]
    rw [match?_whole_run _ hrest, hspan.1]
    · rfl
    · rw [hspan.1]
      exact List.length_pos_iff.mpr h.1
  · next h =>
    refine match?_run_eq_none fun n hleast hmost => ?_
    rw [match?_blanksToEnd, if_neg]
    intro hblank
    -- digits and then white space: what the run takes is the text without that white space.
    have htrim : trimEnd cs = cs.take n := by
      rw [← List.take_append_drop n cs]
      rw [trimEnd_append _ (List.all_eq_true.mp hblank), List.take_append_drop]
      intro c hc
      exact isBlank_of_isDecimalDigit (of_mem_take hmost (List.mem_of_mem_getLast? hc))
    apply h
    rw [htrim]
    refine ⟨?_, List.all_eq_true.mpr fun c hc => of_mem_take hmost hc⟩
    intro hnil
    rcases List.take_eq_nil_iff.mp hnil with hzero | hnone
    · omega
    · rw [hnone, List.takeWhile_nil, List.length_nil] at hmost
      omega

/-- A number up to the end of the line is captured without the white space around it. -/
theorem match?_numberToEnd (cs : List Char) :
    match? numberToEnd cs = if IsNumber cs then some [trim cs] else none := by
  split
  · next h =>
    refine match?_whole_run (Nat.zero_le _) ?_
    rw [match?_digits]
    exact if_pos h
  · next h =>
    refine match?_run_eq_none fun n _ hmost => ?_
    rw [match?_digits, if_neg]
    intro hdigits
    -- the digits start behind all of the white space, not inside of it.
    have hall : n = (cs.takeWhile isBlank).length := by
      by_contra hless
      obtain ⟨tail, hdrop, -, -⟩ := exists_trimEnd (cs.drop n)
      obtain ⟨d, ds, hd⟩ := List.exists_cons_of_ne_nil hdigits.1
      have hblank : isBlank d = true := by
        have hnext : n + 1 ≤ (cs.takeWhile isBlank).length := by omega
        refine of_mem_take hnext ?_
        rw [List.take_add, hdrop, hd]
        simp
      have hdigit : isDecimalDigit d = true := List.all_eq_true.mp hdigits.2 d (by simp [hd])
      rw [isDecimalDigit_of_isBlank hblank] at hdigit
      cases hdigit
    rw [hall, drop_takeWhile_length] at hdigits
    exact h hdigits

/-- There is no colon in a number or around it. -/
theorem IsNumber.colon_not_mem {cs : List Char} (h : IsNumber cs) : ':' ∉ cs := by
  intro hmem
  obtain ⟨tail, hsplit, htail, -⟩ := exists_trimEnd (trimStart cs)
  have hcs : cs = cs.takeWhile isBlank ++ (trim cs ++ tail) := by
    rw [trim, ← hsplit, trimStart, List.takeWhile_append_dropWhile]
  rw [hcs, List.mem_append, List.mem_append] at hmem
  have hblank : isBlank ':' = false := by decide
  have hdigit : isDecimalDigit ':' = false := by decide
  rcases hmem with hbefore | hnumber | hbehind
  · rw [List.mem_takeWhile_imp hbefore] at hblank
    cases hblank
  · rw [List.all_eq_true.mp h.2 ':' hnumber] at hdigit
    cases hdigit
  · rw [htail ':' hbehind] at hblank
    cases hblank

/-- The first digits behind a fixed word. -/
theorem match?_word_digits (text cs : List Char) :
    match? [word text, run isDecimalDigit 1 true true] cs =
      (afterWord? text cs).bind fun rest =>
        if rest.takeWhile isDecimalDigit = [] then none
        else some [rest.takeWhile isDecimalDigit] := by
  rw [match?]
  congr 1
  funext rest
  split
  · next h => exact match?_run_short (by rw [h, List.length_nil]; exact Nat.one_pos)
  · next h => exact match?_whole_run (List.length_pos_iff.mpr h) rfl

end KspWorkbench
