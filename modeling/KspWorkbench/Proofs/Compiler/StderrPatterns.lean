import KspWorkbench.Compiler.StderrBlock
import KspWorkbench.Proofs.Text.LinePattern

/-!
# Patterns of the compiler's standard error

The patterns of the lines that open and close a block, of its fields, and of the reports on a single
line. In a line without line feeds the readers of `StderrBlock` find what the patterns capture
(`match?_marker`, `match?_command`, `match?_location`, `search?_fatalLine`).
-/

namespace KspWorkbench

open PatternPart

/-! ## §1 — the patterns of the lines -/

/-- A marker of a block, and the kind that it names. -/
def markerPattern (marker : List Char) : List PatternPart :=
  word marker :: run isBlank 1 true false :: restOfLine 1

/-- The command of a block. -/
def commandPattern : List PatternPart :=
  word ">>> Command:".toList :: run isBlank 0 true false :: restOfLine 0

/-- The file and the digits of the location of a block. -/
def locationPattern : List PatternPart :=
  word ">>> Location:".toList :: run isBlank 0 true false :: run isInLine 0 false true ::
    word ":".toList :: numberToEnd

def lexicalErrorPattern : List PatternPart :=
  [word "TokenMgrError: Lexical error at line ".toList, run isDecimalDigit 1 true true]

def parseExceptionPattern : List PatternPart :=
  [word "ParseException:".toList, run isInLine 0 false false, word "at line ".toList,
    run isDecimalDigit 1 true true]

/-! ## §2 — markers and commands -/

/-- A marker with nothing but white space behind it: the last of it is the kind, but one character
has to stand in front of it. -/
theorem match?_marker_blank {blanks : List Char} (hblank : ∀ c ∈ blanks, isBlank c = true)
    (hline : '\n' ∉ blanks) :
    match? (run isBlank 1 true false :: restOfLine 1) blanks =
      (blanks.drop 1).getLast?.map fun c => [[c]] := by
  have hnone : match? (restOfLine 1) [] = none := rfl
  cases blanks with
  | nil => rfl
  | cons first more =>
    rw [List.drop_succ_cons, List.drop_zero]
    rcases List.eq_nil_or_concat more with rfl | ⟨front, last, rfl⟩
    · refine match?_run_eq_none fun n hleast _ => ?_
      rw [List.drop_of_length_le hleast, hnone]
    · rw [List.concat_eq_append] at hblank hline ⊢
      have hall : (first :: (front ++ [last])).takeWhile isBlank = first :: (front ++ [last]) :=
        List.takeWhile_eq_self_iff.mpr hblank
      have hlast : match? (restOfLine 1) [last] = some [[last]] := by
        have hsub : [last] ⊆ first :: (front ++ [last]) := by simp
        have hend : '\n' ∉ [last] := fun h => hline (hsub h)
        have hone : 1 ≤ [last].length := Nat.le_of_eq rfl
        rw [match?_restOfLine hend hone, trimEnd_of_blank fun c h => hblank c (hsub h)]
        rfl
      -- behind all of the white space nothing is left for the kind, so the run gives one back.
      rw [@match?_greedy isBlank 1 (front.length + 1) false _ _ [[last]]]
      · simp
      · omega
      · rw [hall]
        simp
      · simpa using hlast
      · intro m hm _
        rw [List.drop_of_length_le, hnone]
        simp only [List.length_cons, List.length_append, List.length_nil]
        omega

theorem contains_trimEnd {cs : List Char} (hcs : '\n' ∉ cs) :
    (trimEnd cs).contains '\n' = false := by
  rw [List.contains_eq_mem, decide_eq_false_iff_not]
  exact fun h => hcs ((trimEnd_prefix_self cs).subset h)

/-- The pattern of a marker line captures the kind, without the white space behind it. -/
theorem match?_marker (marker : List Char) {line : List Char} (hline : '\n' ∉ line) :
    match? (markerPattern marker) line = (markerKind? marker line).map fun kind => [kind] := by
  rw [markerPattern, match?, markerKind?]
  cases hafter : afterWord? marker line with
  | none => rfl
  | some rest =>
    have hrest : '\n' ∉ rest := not_mem_of_afterWord? hline hafter
    have hbody : '\n' ∉ rest.dropWhile isBlank := fun h =>
      hrest ((List.dropWhile_sublist _).subset h)
    simp only [Option.bind_eq_bind, Option.bind_some]
    split
    · next hblanks => exact match?_run_short (by rw [hblanks, List.length_nil]; exact Nat.one_pos)
    · next hblanks =>
      split
      · next hnil =>
        have hall : rest.takeWhile isBlank = rest := by
          have hsplit := @List.takeWhile_append_dropWhile _ isBlank rest
          rwa [trimEnd_dropWhile_eq_nil hnil, List.append_nil] at hsplit
        rw [match?_marker_blank (List.takeWhile_eq_self_iff.mp hall) hrest, hall,
          ← List.head?_reverse]
        -- no character of the line is a line feed, so the last one counts.
        cases hback : (rest.drop 1).reverse with
        | nil => rfl
        | cons c back =>
          have hmem : c ∈ (rest.drop 1).reverse := hback ▸ List.mem_cons_self
          have hc : c ∈ rest := List.mem_of_mem_drop (List.mem_reverse.mp hmem)
          have hin : (c != '\n') = true := isInLine_of_mem hrest hc
          rw [List.find?_cons, hin]
          rfl
      · next hkind =>
        have hlength : 1 ≤ (trimEnd (rest.dropWhile isBlank)).length :=
          List.length_pos_iff.mpr hkind
        have hlonger := hlength.trans (trimEnd_prefix_self (rest.dropWhile isBlank)).length_le
        rw [match?_whole_run (List.length_pos_iff.mpr hblanks) (match?_restOfLine hbody hlonger),
          contains_trimEnd hbody, max_eq_right hlength, take_trimEnd_length]
        rfl

-- all of the white space goes to the first run, unless nothing would be left for the kind.
example : match? (markerPattern ">>> END".toList) ">>> END  Parse Error ".toList =
    some ["Parse Error".toList] := by
  decide +kernel

example : match? (markerPattern ">>> END".toList) ">>> END \t".toList = some ["\t".toList] := by
  decide +kernel

/-- The pattern of a command line captures all that follows the marker. -/
theorem match?_command {line : List Char} (hline : '\n' ∉ line) :
    match? commandPattern line = (commandField? line).map fun command => [command] := by
  rw [commandPattern, match?, commandField?]
  cases hafter : afterWord? ">>> Command:".toList line with
  | none => rfl
  | some rest =>
    have hbody : '\n' ∉ rest.dropWhile isBlank := fun h =>
      not_mem_of_afterWord? hline hafter ((List.dropWhile_sublist _).subset h)
    simp only [Option.bind_eq_bind, Option.bind_some]
    rw [match?_whole_run (Nat.zero_le _) (match?_restOfLine hbody (Nat.zero_le _)), trim,
      trimStart, contains_trimEnd hbody, Nat.zero_max, take_trimEnd_length]
    rfl

/-! ## §3 — locations -/

/-- The last colon of a text, found from its end. -/
theorem span_reverse_colon (front : List Char) {tail : List Char} (htail : ':' ∉ tail) :
    (front ++ ':' :: tail).reverse.takeWhile (· != ':') = tail.reverse ∧
      (front ++ ':' :: tail).reverse.dropWhile (· != ':') = ':' :: front.reverse := by
  rw [List.reverse_append, List.reverse_cons, List.append_assoc, List.singleton_append]
  refine span_append tail.reverse (':' :: front.reverse) ?_ (by simp)
  intro c hc
  rw [bne_iff_ne]
  rintro rfl
  exact htail (List.mem_reverse.mp hc)

/-- The end of the location pattern matches a colon and a number behind it, to the end of the
line. -/
theorem colon_number_of_match? {cs : List Char} {caught : List (List Char)}
    (h : match? (word ":".toList :: numberToEnd) cs = some caught) :
    ∃ tail, cs = ':' :: tail ∧ IsNumber tail := by
  rw [match?, Option.bind_eq_some_iff] at h
  obtain ⟨tail, htail, hnumber⟩ := h
  rw [match?_numberToEnd] at hnumber
  split at hnumber
  · next hok => exact ⟨tail, afterWord?_eq_some_iff.mp htail, hok⟩
  · cases hnumber

/-- A location line has a colon with a number behind it. -/
theorem colon_of_match? {rest : List Char} {caught : List (List Char)}
    (h : match? (run isBlank 0 true false :: run isInLine 0 false true ::
      word ":".toList :: numberToEnd) rest = some caught) :
    ∃ front tail, rest = front ++ ':' :: tail ∧ IsNumber tail := by
  obtain ⟨n, caught, -, -, hfile⟩ := match?_run_eq_some h
  obtain ⟨m, caught, -, -, hcolon⟩ := match?_run_eq_some hfile
  obtain ⟨tail, hdrop, hnumber⟩ := colon_number_of_match? hcolon
  refine ⟨rest.take n ++ (rest.drop n).take m, tail, ?_, hnumber⟩
  rw [List.append_assoc, ← hdrop, List.take_append_drop, List.take_append_drop]

/-- White space before the file ends at the colon, if not earlier. -/
theorem trimStart_append_colon (front tail : List Char) :
    (front ++ ':' :: tail).dropWhile isBlank = trimStart front ++ ':' :: tail := by
  have hcolon : (':' :: tail).dropWhile isBlank = ':' :: tail := by
    rw [List.dropWhile_cons_of_neg (by decide)]
  rw [List.dropWhile_append, hcolon, trimStart]
  cases front.dropWhile isBlank <;> rfl

/-- The file ends at the last colon of the line. -/
theorem match?_file {file tail : List Char} (hfile : '\n' ∉ file) (hnumber : IsNumber tail) :
    match? (run isInLine 0 false true :: word ":".toList :: numberToEnd) (file ++ ':' :: tail) =
      some [file, trim tail] := by
  have hword : ∀ cs, match? (word ":".toList :: numberToEnd) (':' :: cs) = match? numberToEnd cs :=
    fun cs => rfl
  rw [@match?_lazy isInLine 0 file.length true _ (file ++ ':' :: tail) [trim tail]]
  · rw [List.take_left]
    rfl
  · exact Nat.zero_le _
  · rw [List.takeWhile_append_of_pos fun c hc => isInLine_of_mem hfile hc, List.length_append]
    exact Nat.le_add_right _ _
  · rw [List.drop_left, hword, match?_numberToEnd, if_pos hnumber]
  · intro m _ hm
    apply Option.eq_none_iff_forall_ne_some.mpr
    intro caught h
    obtain ⟨rest, hrest, hearlier⟩ := colon_number_of_match? h
    -- a colon further left would have this one in its number.
    obtain ⟨c, more, hmore⟩ : ∃ c more, file.drop m = c :: more :=
      List.exists_cons_of_ne_nil (by rw [ne_eq, List.drop_eq_nil_iff]; omega)
    rw [List.drop_append_of_le_length hm.le, hmore] at hrest
    obtain ⟨-, rfl⟩ := List.cons.inj hrest
    exact hearlier.colon_not_mem (by simp)

/-- **Location lines.** The pattern tries the shortest file first, and the reader looks at the last
colon. Both come to the same colon, because what follows it up to the end of the line has to be a
number, and a number has no colon. -/
theorem match?_location {line : List Char} (hline : '\n' ∉ line) :
    match? locationPattern line =
      (locationField? line).map fun location => [location.1, location.2] := by
  rw [locationPattern, match?, locationField?]
  cases hafter : afterWord? ">>> Location:".toList line with
  | none => rfl
  | some rest =>
    have hrest : '\n' ∉ rest := not_mem_of_afterWord? hline hafter
    simp only [Option.bind_eq_bind, Option.bind_some]
    -- without a colon neither finds anything.
    by_cases hmem : ':' ∈ rest.reverse
    · obtain ⟨back, front, hback, hno⟩ := List.eq_append_cons_of_mem hmem
      obtain ⟨front, tail, rfl, htail⟩ : ∃ front tail, rest = front ++ ':' :: tail ∧ ':' ∉ tail :=
        ⟨front.reverse, back.reverse, by
          rw [← List.reverse_reverse rest, hback]; simp, by simpa using hno⟩
      rw [(span_reverse_colon front htail).1, (span_reverse_colon front htail).2]
      simp only [List.reverse_reverse]
      have hfile : '\n' ∉ trimStart front := fun h =>
        hrest (List.mem_append_left _ ((List.dropWhile_sublist _).subset h))
      split
      -- the pattern backtracks over the blanks in front and over the file; both come out as the
      -- reader has them.
      · next hnumber =>
        have hok : IsNumber tail := ⟨hnumber.1, hnumber.2.1⟩
        have hbody := match?_file hfile hok
        rw [← trimStart_append_colon] at hbody
        rw [match?_whole_run (Nat.zero_le _) hbody]
        rfl
      -- any match has a number behind its colon, hence the colon is the last one, whose tail is
      -- no number.
      · next hnumber =>
        apply Option.eq_none_iff_forall_ne_some.mpr
        intro caught h
        obtain ⟨front', tail', hsplit, hok⟩ := colon_of_match? h
        have hsame := (span_reverse_colon front htail).1
        rw [hsplit, (span_reverse_colon front' hok.colon_not_mem).1, List.reverse_inj] at hsame
        subst hsame
        exact hnumber ⟨hok.1, hok.2, by simpa using hfile⟩
    · have hnil : rest.reverse.dropWhile (· != ':') = [] := by
        rw [List.dropWhile_eq_nil_iff]
        intro c hc
        rw [bne_iff_ne]
        rintro rfl
        exact hmem hc
      rw [hnil]
      apply Option.eq_none_iff_forall_ne_some.mpr
      intro caught h
      obtain ⟨front, tail, rfl, -⟩ := colon_of_match? h
      exact hmem (by simp)

/-! ## §4 — reports on a single line -/

/-- A search for digits behind a marker takes the first marker that digits follow. -/
theorem search?_number (marker cs : List Char) :
    search? [word marker, run isDecimalDigit 1 true true] cs =
      (numberAfter? marker cs).map fun digits => [digits] := by
  -- by induction on the places where the search tries.
  induction cs with
  | nil =>
    rw [search?, match?_word_digits, numberAfter?]
    cases hrest : afterWord? marker [] with
    | none => rfl
    | some rest =>
      have hnil : rest = [] := (List.append_eq_nil_iff.mp (afterWord?_eq_some_iff.mp hrest).symm).2
      subst hnil
      rfl
  | cons c cs ih =>
    rw [search?, match?_word_digits, numberAfter?, ih]
    cases afterWord? marker (c :: cs) with
    | none => rfl
    | some rest =>
      simp only [Option.bind_some, Option.map_some]
      cases rest.takeWhile isDecimalDigit <;> rfl

/-- The pattern of a parse exception, at one place: its name, and then digits behind a marker of
the same line. -/
theorem match?_parseException {cs : List Char} (hcs : '\n' ∉ cs) :
    match? parseExceptionPattern cs =
      ((afterWord? "ParseException:".toList cs).bind fun rest =>
        numberAfter? "at line ".toList (rest.takeWhile (· != '\n'))).map
          fun digits => [digits] := by
  rw [parseExceptionPattern, match?]
  cases hafter : afterWord? "ParseException:".toList cs with
  | none => rfl
  | some rest =>
    have hrest : '\n' ∉ rest := not_mem_of_afterWord? hcs hafter
    have hall : rest.takeWhile (· != '\n') = rest :=
      List.takeWhile_eq_self_iff.mpr fun c hc => isInLine_of_mem hrest hc
    rw [Option.bind_some, Option.bind_some, hall, ← search?_number]
    exact match?_lazy_eq_search? fun c hc => isInLine_of_mem hrest hc

/-- The pattern of a parse exception, at any place of the line. -/
theorem search?_parseException {cs : List Char} (hcs : '\n' ∉ cs) :
    search? parseExceptionPattern cs = (parseExceptionNumber? cs).map fun digits => [digits] := by
  induction cs with
  | nil => rfl
  | cons c cs ih =>
    rw [search?, match?_parseException hcs, parseExceptionNumber?,
      ih fun h => hcs (List.mem_cons_of_mem c h)]
    cases (afterWord? "ParseException:".toList (c :: cs)).bind fun rest =>
        numberAfter? "at line ".toList (rest.takeWhile (· != '\n')) <;> rfl

/-- A fatal line is a lexical error, or else a parse exception. -/
theorem search?_fatalLine {line : List Char} (hline : '\n' ∉ line) :
    (search? lexicalErrorPattern line).or (search? parseExceptionPattern line) =
      (fatalLineNumber? line).map fun digits => [digits] := by
  rw [lexicalErrorPattern, search?_number, search?_parseException hline, fatalLineNumber?]
  cases numberAfter? "TokenMgrError: Lexical error at line ".toList line <;> rfl

end KspWorkbench
