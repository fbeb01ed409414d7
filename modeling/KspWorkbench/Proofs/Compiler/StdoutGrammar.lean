import KspWorkbench.Compiler.StdoutLine
import KspWorkbench.Proofs.Compiler.StderrPatterns

/-!
# The grammar of the compiler's standard output

A line can often be taken apart as `LEVEL path:number: message` in several ways: white space may
belong to the path or stand before it, and a number between two colons may be that of the line or
part of the path or of the message. `IsReading` says what such a way is and `IsLongestReading` which
one counts; neither knows how the line is searched.

* **`exists_lastNumberIn`**, **`lastNumberField?_eq_none`** — the search for the last number between
  two colons, from the end of the text.
* **`exists_longest_reading`**, **`stdoutParts?_eq_none`** — the parts of a line are those of its
  longest reading, and a line without parts has no reading.
* **`stdout_grammar`** — the diagnostic of a line, from its longest reading alone.
-/

namespace KspWorkbench

/-! ## §1 — the rule -/

/-- `number` stands between two colons, with `front` before them and `rest` behind them. -/
structure NumberIn (cs front number rest : List Char) : Prop where
  split : cs = front ++ ':' :: (number ++ ':' :: rest)
  nonempty : number ≠ []
  digits : ∀ c ∈ number, isDecimalDigit c = true

/-- No number between two colons stands further behind. -/
structure LastNumberIn (cs front number rest : List Char) : Prop where
  numberIn : NumberIn cs front number rest
  last : ∀ front' number' rest', NumberIn cs front' number' rest' → front'.length ≤ front.length

/-- A way to take a line apart. -/
structure StdoutReading where
  level : List Char
  blanks : List Char
  path : List Char
  number : List Char
  rest : List Char

/-- What stands before the number. -/
def StdoutReading.front (r : StdoutReading) : List Char :=
  r.level ++ r.blanks ++ r.path

/-- **A reading of a line**: a level of capital letters, white space, a path, and a number between
two colons, none of them empty, and any rest. -/
structure IsReading (line : List Char) (r : StdoutReading) : Prop where
  level_nonempty : r.level ≠ []
  level_upper : ∀ c ∈ r.level, c.isUpper = true
  blanks_nonempty : r.blanks ≠ []
  blanks_blank : ∀ c ∈ r.blanks, isBlank c = true
  path_nonempty : r.path ≠ []
  numberIn : NumberIn line r.front r.number r.rest

/-- A reading with as much as possible before its number. -/
structure IsLongestReading (line : List Char) (r : StdoutReading) : Prop where
  reading : IsReading line r
  longest : ∀ r', IsReading line r' → r'.front.length ≤ r.front.length

/-- Digits that can be read: those of ASCII, up to the greatest number of 32 bits. -/
def IsLineNumber (digits : List Char) : Prop :=
  digits.all Char.isDigit = true ∧ Nat.ofDigitChars 10 digits 0 ≤ 4294967295

instance (digits : List Char) : Decidable (IsLineNumber digits) :=
  inferInstanceAs (Decidable (_ ∧ _))

/-- What a reading reports. The number 0 means the first line, as the number 1 does. -/
def StdoutReading.diagnostic (r : StdoutReading) : Diagnostic where
  severity := .ofLevel (String.ofList r.level)
  message := String.ofList (r.rest.dropWhile isBlank)
  line := Nat.ofDigitChars 10 r.number 0 - 1
  source := "ksp"

/-! ## §2 — numbers between colons -/

section NumberIn

variable {cs front number rest : List Char}

theorem isDecimalDigit_colon : isDecimalDigit ':' = false := by decide

/-- The reader finds a number between colons at the front just when there is one, with all its
digits. -/
theorem numberField?_eq_some_iff :
    numberField? cs = some (number, rest) ↔ NumberIn cs [] number rest := by
  constructor
  · intro h
    unfold numberField? at h
    split at h
    · next tail =>
      split at h
      · cases h
      · next after hafter hne =>
        cases h
        refine ⟨?_, hne, fun c hc => List.mem_takeWhile_imp hc⟩
        rw [List.nil_append, ← hafter, List.takeWhile_append_dropWhile]
      · cases h
    · cases h
  · rintro ⟨rfl, hne, hdigits⟩
    -- a colon is no digit, so the digits taken are those of the number.
    have hspan := span_append number (':' :: rest) hdigits (by simp [isDecimalDigit_colon])
    rw [List.nil_append, numberField?, hspan.1, hspan.2]
    cases number with
    | nil => exact absurd rfl hne
    | cons c number => rfl

/-- A number further behind is one of the rest. -/
theorem numberIn_cons_iff {c d : Char} :
    NumberIn (c :: cs) (d :: front) number rest ↔ c = d ∧ NumberIn cs front number rest := by
  constructor
  · rintro ⟨hsplit, hne, hdigits⟩
    obtain ⟨rfl, rfl⟩ := List.cons.inj hsplit
    exact ⟨rfl, rfl, hne, hdigits⟩
  · rintro ⟨rfl, rfl, hne, hdigits⟩
    exact ⟨rfl, hne, hdigits⟩

/-- Where the reader finds no number between colons, there is none. -/
theorem lastNumberField?_eq_none (h : lastNumberField? cs = none) :
    ¬ NumberIn cs front number rest := by
  induction cs generalizing front with
  | nil =>
    rintro ⟨hsplit, -, -⟩
    simp at hsplit
  | cons c cs ih =>
    simp only [lastNumberField?, Option.orElse_eq_orElse, Option.orElse_eq_or,
      Option.or_eq_none_iff] at h
    intro hnumber
    cases front with
    | nil =>
      rw [numberField?_eq_some_iff.mpr hnumber] at h
      cases h.2
    | cons d front => exact ih h.1 (numberIn_cons_iff.mp hnumber).2

/-- **The search finds the last number.** -/
theorem exists_lastNumberIn (h : lastNumberField? cs = some (number, rest)) :
    ∃ front, LastNumberIn cs front number rest := by
  -- the number in the rest goes first, so that the last one of all is found.
  induction cs with
  | nil => cases h
  | cons c cs ih =>
    simp only [lastNumberField?, Option.orElse_eq_orElse, Option.orElse_eq_or,
      Option.or_eq_some_iff] at h
    rcases h with h | ⟨hnone, h⟩
    · obtain ⟨front, hnumber, hlast⟩ := ih h
      refine ⟨c :: front, numberIn_cons_iff.mpr ⟨rfl, hnumber⟩, ?_⟩
      intro front' number' rest' hnumber'
      cases front' with
      | nil => simp
      | cons d front' => simpa using hlast _ _ _ (numberIn_cons_iff.mp hnumber').2
    · refine ⟨[], numberField?_eq_some_iff.mp h, ?_⟩
      intro front' number' rest' hnumber'
      cases front' with
      | nil => simp
      | cons d front' =>
        exact absurd (numberIn_cons_iff.mp hnumber').2 (lastNumberField?_eq_none hnone)

/-- What stands before a number decides which one it is. -/
theorem NumberIn.unique {number' rest' : List Char} (h : NumberIn cs front number rest)
    (h' : NumberIn cs front number' rest') : number = number' ∧ rest = rest' := by
  have htail : number ++ ':' :: rest = number' ++ ':' :: rest' := by
    have hsame := List.append_cancel_left (h.split.symm.trans h'.split)
    exact (List.cons.inj hsame).2
  have hstop : ∀ tail, ∀ c ∈ (':' :: tail).head?, isDecimalDigit c = false := by
    simp [isDecimalDigit_colon]
  obtain ⟨hnumber, hrest⟩ := span_unique htail h.digits (hstop rest) h'.digits (hstop rest')
  exact ⟨hnumber, (List.cons.inj hrest).2⟩

end NumberIn

/-! ## §3 — the parts of a line -/

section Parts

variable {line : List Char}

theorem isUpper_of_isBlank {c : Char} (h : isBlank c = true) : c.isUpper = false := by
  have hrange : ¬ (65 ≤ c.toNat ∧ c.toNat ≤ 90) := by
    simp only [isBlank, Bool.or_eq_true, Bool.and_eq_true, decide_eq_true_eq, beq_iff_eq] at h
    omega
  rw [Bool.eq_false_iff]
  intro hupper
  obtain ⟨hlow, hhigh⟩ : 'A'.val ≤ c.val ∧ c.val ≤ 'Z'.val := of_decide_eq_true hupper
  exact hrange ⟨UInt32.le_iff_toNat_le.mp hlow, UInt32.le_iff_toNat_le.mp hhigh⟩

/-- White space in front of a path does not reach over the colon. -/
theorem takeWhile_blank_append_colon (path tail : List Char) :
    (path ++ ':' :: tail).takeWhile isBlank = path.takeWhile isBlank := by
  have hwhole := List.takeWhile_append_dropWhile (p := isBlank) (l := path ++ ':' :: tail)
  have hpath := List.takeWhile_append_dropWhile (p := isBlank) (l := path)
  rw [trimStart_append_colon] at hwhole
  apply List.append_cancel_right
  rw [hwhole, ← List.append_assoc, trimStart, hpath]

/-- The search in what is left of a line behind its level. A number right behind the white space has
the last blank for its path, if another one stands before that. -/
def bodyField? (blanks body : List Char) : Option (List Char × List Char) :=
  lastNumberField? (body.drop 1) <|> if 2 ≤ blanks.length then numberField? body else none

/-- A number that the search may find. -/
structure BodyNumber (blanks body front number rest : List Char) : Prop where
  numberIn : NumberIn body front number rest
  path : front = [] → 2 ≤ blanks.length

section Body

variable {blanks body front number rest : List Char}

theorem bodyField?_eq_none (h : bodyField? blanks body = none) :
    ¬ BodyNumber blanks body front number rest := by
  simp only [bodyField?, Option.orElse_eq_orElse, Option.orElse_eq_or, Option.or_eq_none_iff] at h
  rintro ⟨hnumber, hpath⟩
  cases front with
  | nil =>
    rw [if_pos (hpath rfl), numberField?_eq_some_iff.mpr hnumber] at h
    cases h.2
  | cons d front =>
    cases body with
    | nil => cases hnumber.split
    | cons c body => exact lastNumberField?_eq_none h.1 (numberIn_cons_iff.mp hnumber).2

/-- The path that the reader finds is the longest one. -/
theorem exists_bodyNumber (h : bodyField? blanks body = some (number, rest)) :
    ∃ front, BodyNumber blanks body front number rest ∧
      ∀ front' number' rest', BodyNumber blanks body front' number' rest' →
        front'.length ≤ front.length := by
  simp only [bodyField?, Option.orElse_eq_orElse, Option.orElse_eq_or, Option.or_eq_some_iff] at h
  rcases h with h | ⟨hnone, h⟩
  · cases body with
    | nil => cases h
    | cons c body =>
      obtain ⟨front, hnumber, hlast⟩ := exists_lastNumberIn h
      refine ⟨c :: front, ⟨numberIn_cons_iff.mpr ⟨rfl, hnumber⟩, nofun⟩, ?_⟩
      rintro (_ | ⟨d, front'⟩) number' rest' ⟨hnumber', -⟩
      · exact Nat.zero_le _
      · exact Nat.succ_le_succ (hlast _ _ _ (numberIn_cons_iff.mp hnumber').2)
  · split at h
    · next htwo =>
      refine ⟨[], ⟨numberField?_eq_some_iff.mp h, fun _ => htwo⟩, ?_⟩
      rintro (_ | ⟨d, front'⟩) number' rest' ⟨hnumber', -⟩
      · exact Nat.le_refl _
      · -- a number further behind would have been found first.
        cases body with
        | nil => cases hnumber'.split
        | cons c body =>
          exact absurd (numberIn_cons_iff.mp hnumber').2 (lastNumberField?_eq_none hnone)
    · cases h

end Body

/-- The parts of a line that holds no line feed. -/
theorem stdoutParts?_eq (hline : '\n' ∉ line) :
    stdoutParts? line =
      if line.takeWhile Char.isUpper = [] ∨
          (line.dropWhile Char.isUpper).takeWhile isBlank = [] then none
      else
        (bodyField? ((line.dropWhile Char.isUpper).takeWhile isBlank)
          ((line.dropWhile Char.isUpper).dropWhile isBlank)).map fun found =>
            ⟨line.takeWhile Char.isUpper, found.1, trimStart found.2⟩ := by
  unfold stdoutParts?
  have hrest : '\n' ∉ line.dropWhile Char.isUpper := fun h =>
    hline ((List.dropWhile_sublist _).subset h)
  dsimp only
  generalize line.dropWhile Char.isUpper = rest at hrest ⊢
  have hblanks : (rest.takeWhile isBlank).getLast? ≠ some '\n' := fun h =>
    hrest ((List.takeWhile_sublist _).subset (List.mem_of_getLast? h))
  have hbody : '\n' ∉ rest.dropWhile isBlank := fun h =>
    hrest ((List.dropWhile_sublist _).subset h)
  generalize rest.takeWhile isBlank = blanks at hblanks ⊢
  generalize rest.dropWhile isBlank = body at hbody ⊢
  -- the row is the whole body.
  have hrow : body.takeWhile (· != '\n') = body := by
    rw [List.takeWhile_eq_self_iff]
    intro c hc
    rw [bne_iff_ne]
    rintro rfl
    exact hbody hc
  split
  · rfl
  · simp only [hrow, hblanks, ne_eq, not_false_eq_true, and_true, List.drop_length,
      List.append_nil, ← bodyField?.eq_1]
    cases hfound : bodyField? blanks body with
    | none => rfl
    | some found =>
      obtain ⟨front, ⟨hnumber, -⟩, -⟩ := exists_bodyNumber hfound
      have hmessage : '\n' ∉ trimStart found.2 := by
        intro h
        refine hbody ?_
        rw [hnumber.split]
        have hmem : '\n' ∈ found.2 := (List.dropWhile_sublist _).subset h
        simp [hmem]
      simp [hmessage]

/-! ## §4 — readings -/

/-- **A reading takes the level as it stands in the line**, and its white space, path and number
stand in what is left. -/
theorem IsReading.parts {r : StdoutReading} (h : IsReading line r) :
    line.takeWhile Char.isUpper = r.level ∧
      (line.dropWhile Char.isUpper).takeWhile isBlank = r.blanks ++ r.path.takeWhile isBlank ∧
      (line.dropWhile Char.isUpper).dropWhile isBlank =
        r.path.dropWhile isBlank ++ ':' :: (r.number ++ ':' :: r.rest) := by
  have hline : line =
      r.level ++ (r.blanks ++ (r.path ++ ':' :: (r.number ++ ':' :: r.rest))) := by
    rw [h.numberIn.split, StdoutReading.front, List.append_assoc, List.append_assoc]
  have hlevel := span_append r.level
    (r.blanks ++ (r.path ++ ':' :: (r.number ++ ':' :: r.rest))) h.level_upper (by
      intro c hc
      rw [List.head?_append_of_ne_nil _ h.blanks_nonempty] at hc
      exact isUpper_of_isBlank (h.blanks_blank c (List.mem_of_mem_head? hc)))
  rw [hline, hlevel.1, hlevel.2, List.takeWhile_append_of_pos h.blanks_blank,
    List.dropWhile_append_of_pos h.blanks_blank, takeWhile_blank_append_colon,
    trimStart_append_colon]
  exact ⟨rfl, rfl, rfl⟩

/-- Every reading of a line has its path and number in what the level and its white space leave.
-/
theorem IsReading.bodyNumber {r : StdoutReading} (h : IsReading line r) :
    BodyNumber ((line.dropWhile Char.isUpper).takeWhile isBlank)
      ((line.dropWhile Char.isUpper).dropWhile isBlank) (r.path.dropWhile isBlank) r.number
      r.rest := by
  obtain ⟨-, hblanks, hbody⟩ := h.parts
  refine ⟨⟨hbody, h.numberIn.nonempty, h.numberIn.digits⟩, fun hnil => ?_⟩
  -- a path of white space only is part of the white space.
  have hpath : r.path.takeWhile isBlank = r.path := by
    have hsplit := List.takeWhile_append_dropWhile (p := isBlank) (l := r.path)
    rwa [hnil, List.append_nil] at hsplit
  have hone := List.length_pos_iff.mpr h.blanks_nonempty
  have htwo := List.length_pos_iff.mpr h.path_nonempty
  rw [hblanks, hpath, List.length_append]
  omega

/-- Readings differ in length only by their paths: level and white space cannot be taken in two
ways that matter. -/
theorem IsReading.length_front {r : StdoutReading} (h : IsReading line r) :
    r.front.length = (line.takeWhile Char.isUpper).length +
      ((line.dropWhile Char.isUpper).takeWhile isBlank).length +
      (r.path.dropWhile isBlank).length := by
  obtain ⟨hlevel, hblanks, -⟩ := h.parts
  have hpath := congrArg List.length (List.takeWhile_append_dropWhile (p := isBlank) (l := r.path))
  rw [hlevel, hblanks, StdoutReading.front]
  simp only [List.length_append] at hpath ⊢
  omega

/-- **A number that the search may find is that of a reading.** -/
theorem exists_reading {front number rest : List Char} (hlevel : line.takeWhile Char.isUpper ≠ [])
    (hblanks : (line.dropWhile Char.isUpper).takeWhile isBlank ≠ [])
    (h : BodyNumber ((line.dropWhile Char.isUpper).takeWhile isBlank)
      ((line.dropWhile Char.isUpper).dropWhile isBlank) front number rest) :
    ∃ blanks path, IsReading line ⟨line.takeWhile Char.isUpper, blanks, path, number, rest⟩ := by
  have hline : line = line.takeWhile Char.isUpper ++
      ((line.dropWhile Char.isUpper).takeWhile isBlank ++
        (front ++ ':' :: (number ++ ':' :: rest))) := by
    rw [← h.numberIn.split, List.takeWhile_append_dropWhile, List.takeWhile_append_dropWhile]
  have hupper : ∀ c ∈ line.takeWhile Char.isUpper, c.isUpper = true :=
    fun c hc => List.mem_takeWhile_imp hc
  have hall : ∀ c ∈ (line.dropWhile Char.isUpper).takeWhile isBlank, isBlank c = true :=
    fun c hc => List.mem_takeWhile_imp hc
  have hpath := h.path
  generalize (line.dropWhile Char.isUpper).takeWhile isBlank = blanks at hline hblanks hall hpath
  generalize line.takeWhile Char.isUpper = level at hline hlevel hupper
  subst hline
  cases front with
  | cons c front =>
    exact ⟨blanks, c :: front, hlevel, hupper, hblanks, hall, List.cons_ne_nil _ _,
      by simp [StdoutReading.front], h.numberIn.nonempty, h.numberIn.digits⟩
  | nil =>
    -- the path is the last blank.
    have htwo := hpath rfl
    obtain ⟨init, last, rfl⟩ := List.eq_nil_or_concat' blanks |>.resolve_left hblanks
    refine ⟨init, [last], hlevel, hupper, ?_, fun c hc => hall c (by simp [hc]),
      List.cons_ne_nil _ _, by simp [StdoutReading.front], h.numberIn.nonempty,
      h.numberIn.digits⟩
    rintro rfl
    simp at htwo

/-- **A line without parts has no reading.** -/
theorem stdoutParts?_eq_none (hline : '\n' ∉ line) (h : stdoutParts? line = none)
    (r : StdoutReading) : ¬ IsReading line r := by
  intro hreading
  obtain ⟨hlevel, hblanks, -⟩ := hreading.parts
  rw [stdoutParts?_eq hline, if_neg, Option.map_eq_none_iff] at h
  · exact bodyField?_eq_none h hreading.bodyNumber
  · rw [hlevel, hblanks, List.append_eq_nil_iff]
    rintro (hnil | ⟨hnil, -⟩)
    · exact hreading.level_nonempty hnil
    · exact hreading.blanks_nonempty hnil

/-- **The parts of a line are those of its longest reading.** -/
theorem exists_longest_reading (hline : '\n' ∉ line) {parts : StdoutParts}
    (h : stdoutParts? line = some parts) :
    ∃ r, IsLongestReading line r ∧ parts = ⟨r.level, r.number, trimStart r.rest⟩ := by
  rw [stdoutParts?_eq hline] at h
  split at h
  · cases h
  · next hne =>
    rw [not_or] at hne
    obtain ⟨⟨number, rest⟩, hfound, rfl⟩ := Option.map_eq_some_iff.mp h
    obtain ⟨front, hbody, hlast⟩ := exists_bodyNumber hfound
    obtain ⟨blanks, path, hreading⟩ := exists_reading hne.1 hne.2 hbody
    have hfront : path.dropWhile isBlank = front :=
      List.append_cancel_right (hreading.bodyNumber.numberIn.split.symm.trans hbody.numberIn.split)
    refine ⟨_, ⟨hreading, fun r' hreading' => ?_⟩, rfl⟩
    rw [hreading'.length_front, hreading.length_front, hfront]
    have hle := hlast _ _ _ hreading'.bodyNumber
    omega

/-- Longest readings agree in all that is reported. -/
theorem IsLongestReading.unique {r r' : StdoutReading} (h : IsLongestReading line r)
    (h' : IsLongestReading line r') :
    r.level = r'.level ∧ r.number = r'.number ∧ r.rest = r'.rest := by
  have hlength : r.front.length = r'.front.length :=
    Nat.le_antisymm (h'.longest r h.reading) (h.longest r' h'.reading)
  have hsplit : r.front ++ ':' :: (r.number ++ ':' :: r.rest) =
      r'.front ++ ':' :: (r'.number ++ ':' :: r'.rest) :=
    h.reading.numberIn.split.symm.trans h'.reading.numberIn.split
  have hnumber := h.reading.numberIn
  rw [(List.append_inj hsplit hlength).1] at hnumber
  exact ⟨h.reading.parts.1.symm.trans h'.reading.parts.1, hnumber.unique h'.reading.numberIn⟩

end Parts

/-! ## §5 — the diagnostic of a line -/

theorem decimalValue_eq (digits : List Char) :
    decimalValue digits = Nat.ofDigitChars 10 digits 0 := by
  rw [decimalValue, Nat.ofDigitChars_eq_foldl]
  simp only [Nat.mul_comm 10]

/-- Digits are a line number when they are ASCII digits of a number of 32 bits. -/
theorem lineNumber?_eq {digits : List Char} (hdigits : digits ≠ []) :
    lineNumber? digits =
      if IsLineNumber digits then some (Nat.ofDigitChars 10 digits 0) else none := by
  have hiff : (digits ≠ [] ∧ digits.all Char.isDigit = true ∧
      decimalValue digits ≤ maxLineNumber) ↔ IsLineNumber digits := by
    rw [IsLineNumber, ← decimalValue_eq]
    exact and_iff_right hdigits
  rw [lineNumber?, ← decimalValue_eq]
  exact if_congr hiff rfl rfl

/-- **The longest reading decides** what a line reports. -/
theorem stdoutDiagnostic?_eq {line : String} (hline : '\n' ∉ line.toList) {r : StdoutReading}
    (h : IsLongestReading line.toList r) :
    stdoutDiagnostic? line = if IsLineNumber r.number then some r.diagnostic else none := by
  rw [stdoutDiagnostic?]
  cases hparts : stdoutParts? line.toList with
  | none => exact absurd h.reading (stdoutParts?_eq_none hline hparts r)
  | some parts =>
    obtain ⟨r', h', rfl⟩ := exists_longest_reading hline hparts
    obtain ⟨hlevel, hnumber, hrest⟩ := h.unique h'
    simp only [Option.bind_eq_bind, Option.bind_some, ← hlevel, ← hnumber, ← hrest,
      lineNumber?_eq h.reading.numberIn.nonempty]
    split
    · rfl
    · rfl

/-- **The grammar of the standard output.** A line without a reading reports nothing. If a line has
readings, then one of them has the most before its number, and its number decides: a number that
cannot be read reports nothing, whatever other readings there are, and a good one reports the
severity of the level, the line counted from zero and all that follows behind white space. -/
theorem stdout_grammar {line : String} (hline : '\n' ∉ line.toList) :
    ((∀ r, ¬ IsReading line.toList r) → stdoutDiagnostic? line = none) ∧
    ((∃ r, IsReading line.toList r) → ∃ r, IsLongestReading line.toList r) ∧
    ∀ r, IsLongestReading line.toList r →
      (¬ IsLineNumber r.number → stdoutDiagnostic? line = none) ∧
      (IsLineNumber r.number → stdoutDiagnostic? line = some r.diagnostic) := by
  refine ⟨fun hnone => ?_, ?_, fun r hr => ?_⟩
  -- whatever the reader takes apart has a longest reading, and that is the one it takes.
  · cases hparts : stdoutParts? line.toList with
    | none => rw [stdoutDiagnostic?, hparts]; rfl
    | some parts =>
      obtain ⟨r, hr, -⟩ := exists_longest_reading hline hparts
      exact absurd hr.reading (hnone r)
  · rintro ⟨r, hr⟩
    cases hparts : stdoutParts? line.toList with
    | none => exact absurd hr (stdoutParts?_eq_none hline hparts r)
    | some parts =>
      obtain ⟨r, hr, -⟩ := exists_longest_reading hline hparts
      exact ⟨r, hr⟩
  · rw [stdoutDiagnostic?_eq hline hr]
    exact ⟨fun hbad => if_neg hbad, fun hgood => if_pos hgood⟩

/-- The number of the longest reading cannot be read, and that of another one does not count. -/
theorem stdout_grammar_of_unreadable_number :
    (∃ r, IsReading "WARNING a:7: b:٣: c".toList r ∧ r.number = ['7'] ∧ IsLineNumber r.number) ∧
    ∃ r, IsLongestReading "WARNING a:7: b:٣: c".toList r ∧ r.number = ['٣'] ∧
      ¬ IsLineNumber r.number ∧ stdoutDiagnostic? "WARNING a:7: b:٣: c" = none := by
  have hline : '\n' ∉ "WARNING a:7: b:٣: c".toList := by decide +kernel
  have hparts : stdoutParts? "WARNING a:7: b:٣: c".toList =
      some ⟨"WARNING".toList, ['٣'], ['c']⟩ := by
    decide +kernel
  obtain ⟨r, hr, hr_parts⟩ := exists_longest_reading hline hparts
  have hnumber : r.number = ['٣'] := (StdoutParts.mk.inj hr_parts).2.1.symm
  have hbad : ¬ IsLineNumber r.number := by
    rw [hnumber]
    decide
  refine ⟨⟨⟨"WARNING".toList, [' '], ['a'], ['7'], " b:٣: c".toList⟩, ?_, rfl, by decide⟩,
    r, hr, hnumber, hbad, ((stdout_grammar hline).2.2 r hr).1 hbad⟩
  exact ⟨by decide +kernel, List.all_eq_true.mp (by decide +kernel), by decide,
    List.all_eq_true.mp (by decide +kernel), by decide,
    by decide +kernel, by decide, List.all_eq_true.mp (by decide +kernel)⟩

end KspWorkbench
