import KspWorkbench.Proofs.Compiler.StdoutGrammar

/-!
# Printed diagnostics

The compiler prints a diagnostic as level, path, number and message. Reading it back takes the last
number between two colons for the number of the line, so what comes back depends on the message:
`stdout_round_trip_iff` says when it is the diagnostic that was printed, and what it is otherwise.
-/

namespace KspWorkbench

/-! ## §1 — the numbers of a printed line -/

/-- A diagnostic as the compiler prints it. -/
def printedDiagnostic (level path : String) (n : Nat) (message : String) : String :=
  level ++ " " ++ path ++ ":" ++ toString n ++ ": " ++ message

theorem toList_printedDiagnostic (level path : String) (n : Nat) (message : String) :
    (printedDiagnostic level path n message).toList =
      level.toList ++ [' '] ++ path.toList ++
        ':' :: (Nat.toDigits 10 n ++ ':' :: ' ' :: message.toList) := by
  simp [printedDiagnostic]

theorem isDecimalDigit_of_isDigit {c : Char} (h : c.isDigit = true) : isDecimalDigit c = true := by
  simp only [Char.isDigit, ge_iff_le, UInt32.le_iff_toNat_le, Bool.and_eq_true,
    decide_eq_true_eq] at h
  have hrange : 0x30 ≤ c.toNat ∧ c.toNat ≤ 0x39 := h
  have hrun : (decide (0x30 ≤ c.toNat) && decide (c.toNat < 0x30 + 10)) = true := by
    simp only [Bool.and_eq_true, decide_eq_true_eq]
    omega
  exact List.any_eq_true.mpr ⟨0x30, by decide, hrun⟩

/-- **Behind the number of a printed diagnostic** the next number between two colons is one of the
message. -/
theorem NumberIn.of_printed {front digits message front' number rest : List Char}
    (hdigits : ∀ c ∈ digits, isDecimalDigit c = true)
    (h : NumberIn (front ++ ':' :: (digits ++ ':' :: ' ' :: message)) front' number rest)
    (hlater : front.length < front'.length) :
    ∃ more, front' = front ++ ':' :: (digits ++ ':' :: ' ' :: more) ∧
      NumberIn message more number rest := by
  rcases split_append h.split with ⟨gap, rfl, -⟩ | ⟨gap, rfl, hgap⟩
  · rw [List.length_append] at hlater
    omega
  cases gap with
  | nil => simp at hlater
  | cons c gap =>
    obtain ⟨rfl, htail⟩ := List.cons.inj hgap
    rcases split_append htail with ⟨after, rfl, -⟩ | ⟨after, rfl, hafter⟩
    · -- a colon is no digit.
      have hcolon := hdigits ':' (by simp)
      rw [isDecimalDigit_colon] at hcolon
      cases hcolon
    match after with
    | [] =>
      -- the space behind the colon is no digit either.
      cases number with
      | nil => exact absurd rfl h.nonempty
      | cons d number =>
        obtain ⟨rfl, -⟩ := List.cons.inj (List.cons.inj hafter).2
        exact absurd (h.digits ' ' (by simp)) (by decide)
    | [_] => cases (List.cons.inj (List.cons.inj hafter).2).1
    | _ :: _ :: more =>
      obtain ⟨rfl, hspace⟩ := List.cons.inj hafter
      obtain ⟨rfl, hmessage⟩ := List.cons.inj hspace
      exact ⟨more, by simp, hmessage, h.nonempty, h.digits⟩

/-! ## §2 — the longest reading of a printed line -/

section RoundTrip

variable {level path message : String} {n : Nat}

/-- A number between colons anywhere behind the level gives a reading of the printed line, with
everything before it for the path. -/
theorem isReading_printed (hlevel : level ≠ "") (hupper : ∀ c ∈ level.toList, c.isUpper = true)
    {path' number rest : List Char} (hpath : path' ≠ [])
    (h : NumberIn (printedDiagnostic level path n message).toList
      (level.toList ++ [' '] ++ path') number rest) :
    IsReading (printedDiagnostic level path n message).toList
      ⟨level.toList, [' '], path', number, rest⟩ :=
  { level_nonempty := by simpa using hlevel
    level_upper := hupper
    blanks_nonempty := List.cons_ne_nil _ _
    blanks_blank := by simp; decide
    path_nonempty := hpath
    numberIn := h }

theorem digits_toDigits (n : Nat) : ∀ c ∈ Nat.toDigits 10 n, isDecimalDigit c = true :=
  fun _ hc => isDecimalDigit_of_isDigit (Nat.isDigit_of_mem_toDigits (by decide) (by decide) hc)

/-- If the message holds no number between two colons, the longest reading is the printed one. -/
theorem isLongestReading_printed (hlevel : level ≠ "")
    (hupper : ∀ c ∈ level.toList, c.isUpper = true) (hpath : path ≠ "")
    (hnone : ∀ front number rest, ¬ NumberIn message.toList front number rest) :
    IsLongestReading (printedDiagnostic level path n message).toList
      ⟨level.toList, [' '], path.toList, Nat.toDigits 10 n, ' ' :: message.toList⟩ := by
  refine ⟨isReading_printed hlevel hupper (by simpa using hpath)
    ⟨toList_printedDiagnostic level path n message, Nat.toDigits_ne_nil, digits_toDigits n⟩, ?_⟩
  intro r' hr'
  by_contra hlater
  have hnumber := hr'.numberIn
  rw [toList_printedDiagnostic] at hnumber
  obtain ⟨more, -, hmore⟩ := hnumber.of_printed (digits_toDigits n) (Nat.not_le.mp hlater)
  exact hnone _ _ _ hmore

/-- If it holds one, the longest reading takes the last of them for the line. -/
theorem isLongestReading_printed_of_last (hlevel : level ≠ "")
    (hupper : ∀ c ∈ level.toList, c.isUpper = true) {more number rest : List Char}
    (hlast : LastNumberIn message.toList more number rest) :
    IsLongestReading (printedDiagnostic level path n message).toList
      ⟨level.toList, [' '], path.toList ++ ':' :: (Nat.toDigits 10 n ++ ':' :: ' ' :: more),
        number, rest⟩ := by
  refine ⟨isReading_printed hlevel hupper (by simp) ⟨?_, hlast.numberIn.nonempty,
    hlast.numberIn.digits⟩, ?_⟩
  · rw [toList_printedDiagnostic, hlast.numberIn.split]
    simp
  -- a longer reading would have its number in the message as well, and behind the last one.
  · intro r' hr'
    by_contra hlater
    have hnumber := hr'.numberIn
    rw [toList_printedDiagnostic] at hnumber
    simp only [StdoutReading.front, List.length_append, List.length_cons] at hlater
    obtain ⟨more', hfront, hmore⟩ := hnumber.of_printed (digits_toDigits n) (by
      simp only [StdoutReading.front, List.length_append, List.length_cons]
      omega)
    have hle := hlast.last _ _ _ hmore
    have hlength := congrArg List.length hfront
    simp only [StdoutReading.front, List.length_append, List.length_cons] at hlength
    omega

/-- A printed diagnostic is a single line if its path and its message are. -/
theorem feed_not_mem_printed (hupper : ∀ c ∈ level.toList, c.isUpper = true)
    (hpath : '\n' ∉ path.toList) (hmessage : '\n' ∉ message.toList) :
    '\n' ∉ (printedDiagnostic level path n message).toList := by
  have hlevel : '\n' ∉ level.toList := fun h => absurd (hupper _ h) (by decide)
  have hdigits : '\n' ∉ Nat.toDigits 10 n := fun h =>
    absurd (digits_toDigits n _ h) (by decide)
  rw [toList_printedDiagnostic]
  simp [hlevel, hpath, hdigits, hmessage]

/-- What a printed diagnostic is read as whose message holds a number between two colons. -/
theorem stdoutDiagnostic?_printed_of_last (hlevel : level ≠ "")
    (hupper : ∀ c ∈ level.toList, c.isUpper = true) (hpath_line : '\n' ∉ path.toList)
    (hmessage_line : '\n' ∉ message.toList) {front number rest : List Char}
    (hlast : LastNumberIn message.toList front number rest) :
    stdoutDiagnostic? (printedDiagnostic level path n message) =
      if IsLineNumber number then
        some ⟨.ofLevel level, String.ofList (rest.dropWhile isBlank),
          Nat.ofDigitChars 10 number 0 - 1, "ksp"⟩
      else none := by
  rw [stdoutDiagnostic?_eq (feed_not_mem_printed hupper hpath_line hmessage_line)
    (isLongestReading_printed_of_last hlevel hupper hlast)]
  simp [StdoutReading.diagnostic]

end RoundTrip

/-! ## §3 — what is read back -/

/-- **Which printed diagnostics are read back**: those whose message holds no number between two
colons. Of any other message the last such number is taken for the line, and only what follows it is
left of the message. -/
theorem stdout_round_trip_iff {level path message : String} {n : Nat} (hlevel : level ≠ "")
    (hupper : ∀ c ∈ level.toList, c.isUpper = true) (hpath : path ≠ "")
    (hpath_line : '\n' ∉ path.toList) (hn : n ≤ 4294967295) (hmessage_line : '\n' ∉ message.toList)
    (hmessage : message.toList.head?.any isBlank = false) :
    (stdoutDiagnostic? (printedDiagnostic level path n message) =
        some ⟨.ofLevel level, message, n - 1, "ksp"⟩ ↔
      ∀ front number rest, ¬ NumberIn message.toList front number rest) ∧
    ∀ front number rest, LastNumberIn message.toList front number rest →
      stdoutDiagnostic? (printedDiagnostic level path n message) =
        if IsLineNumber number then
          some ⟨.ofLevel level, String.ofList (rest.dropWhile isBlank),
            Nat.ofDigitChars 10 number 0 - 1, "ksp"⟩
        else none := by
  refine ⟨⟨fun hread front number rest hnumber => ?_, fun hnone => ?_⟩, fun _ _ _ hlast =>
    stdoutDiagnostic?_printed_of_last hlevel hupper hpath_line hmessage_line hlast⟩
  · cases hfield : lastNumberField? message.toList with
    | none => exact lastNumberField?_eq_none hfield hnumber
    | some found =>
      obtain ⟨front, hlast⟩ := exists_lastNumberIn hfield
      rw [stdoutDiagnostic?_printed_of_last hlevel hupper hpath_line hmessage_line hlast] at hread
      split at hread
      · -- what is left of the message is shorter than the message.
        have hsame := congrArg (fun d => d.message.toList.length) (Option.some.inj hread)
        have hsplit := congrArg List.length hlast.numberIn.split
        have hle : (found.2.dropWhile isBlank).length ≤ found.2.length :=
          (List.dropWhile_sublist _).length_le
        simp only [String.toList_ofList] at hsame
        simp only [List.length_append, List.length_cons] at hsplit
        omega
      · cases hread
  · have hgood : IsLineNumber (Nat.toDigits 10 n) :=
      ⟨List.all_eq_true.mpr fun c hc => Nat.isDigit_of_mem_toDigits (by decide) (by decide) hc,
        by rwa [Nat.ofDigitChars_ten_toDigits]⟩
    have hstop : ∀ c ∈ message.toList.head?, isBlank c = false :=
      (Option.any_eq_false _ _).mp hmessage
    have hspace : (' ' :: message.toList).dropWhile isBlank = message.toList :=
      (span_append [' '] message.toList (by simp; decide) hstop).2
    rw [stdoutDiagnostic?_eq (feed_not_mem_printed hupper hpath_line hmessage_line)
      (isLongestReading_printed hlevel hupper hpath hnone), if_pos hgood]
    simp [StdoutReading.diagnostic, hspace]

/-- A path with a colon of its own, and a message with colons and a number apart from each other. -/
theorem stdout_round_trip_of_drive_path :
    stdoutDiagnostic? (printedDiagnostic "WARNING" "C:\\a.ksp" 40 "unused: $x:1") =
      some ⟨.warning, "unused: $x:1", 39, "ksp"⟩ := by
  have hnone : lastNumberField? "unused: $x:1".toList = none := by decide +kernel
  have hiff := (@stdout_round_trip_iff "WARNING" "C:\\a.ksp" "unused: $x:1" 40 (by decide)
    (List.all_eq_true.mp (by decide +kernel)) (by decide) (by decide +kernel) (by decide)
    (by decide +kernel) (by decide +kernel)).1
  exact hiff.mpr fun _ _ _ => lastNumberField?_eq_none hnone

/-- A message that names a place of its own is not read back. -/
theorem stdout_round_trip_fails :
    ¬ ∀ (level path message : String) (n : Nat), level ≠ "" →
      (∀ c ∈ level.toList, c.isUpper = true) → path ≠ "" → '\n' ∉ path.toList →
      path.toList.head?.any isBlank = false →
      (∀ front number rest, ¬ NumberIn path.toList front number rest) →
      1 ≤ n → n ≤ 4294967295 → '\n' ∉ message.toList →
      message.toList.head?.any isBlank = false →
      stdoutDiagnostic? (printedDiagnostic level path n message) =
        some ⟨.ofLevel level, message, n - 1, "ksp"⟩ := by
  intro h
  have hnone : lastNumberField? "a.ksp".toList = none := by decide +kernel
  have hread := h "ERROR" "a.ksp" "$x is declared at b.ksp:5: integer" 12 (by decide)
    (List.all_eq_true.mp (by decide +kernel)) (by decide) (by decide +kernel) (by decide +kernel)
    (fun _ _ _ => lastNumberField?_eq_none hnone) (by decide) (by decide) (by decide +kernel)
    (by decide +kernel)
  revert hread
  decide +kernel

end KspWorkbench
