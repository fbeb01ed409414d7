import KspWorkbench.Proofs.Compiler.StderrGrammar
import KspWorkbench.Proofs.Compiler.StdoutGrammar
import Mathlib.Data.List.DropRight

/-!
# Line numbers

The compiler counts lines from one and prints the number in decimal digits. Diagnostics count from
zero, in 32 bits, and what the user reads counts from one again.

* **`WholeNumber`** — the digits that the grammars capture are a whole run of digits of a line, and
  not a part of a longer number.
* **`openBlock_eq_map`** — the block that is open, from the lines before; what it says of its
  location is what the last of its lines that gives one says (`location_foldl_add`).
* **`add_step`**, **`foldl_add_run`** — the digits that an event captures decide where a diagnostic
  comes from, and those that a run captures where all of them come from.
* **`line_numbers_survive`** — what the user reads, with the bounds that keep 32 bits from
  overflowing.
-/

namespace KspWorkbench

/-! ## §1 — where captured digits stand -/

/-- The digits stand in the text, and no further digit stands next to them. -/
structure WholeNumber (text digits : List Char) : Prop where
  stands : ∃ front rest, text = front ++ (digits ++ rest) ∧
    (∀ c ∈ front.getLast?, isDecimalDigit c = false) ∧
    ∀ c ∈ rest.head?, isDecimalDigit c = false
  nonempty : digits ≠ []
  decimal : ∀ c ∈ digits, isDecimalDigit c = true

theorem wholeNumber_of_numberIn {cs front digits rest : List Char}
    (h : NumberIn cs front digits rest) (before after : List Char) :
    WholeNumber (before ++ (cs ++ after)) digits where
  stands := by
    refine ⟨before ++ (front ++ [':']), ':' :: (rest ++ after), ?_, ?_, ?_⟩
    · rw [h.split]
      simp
    · simp [isDecimalDigit_colon]
    · simp [isDecimalDigit_colon]
  nonempty := h.nonempty
  decimal := h.digits

/-- The number of an output line stands in it as a whole number. -/
theorem wholeNumber_of_stdoutParts? {line : List Char} {parts : StdoutParts}
    (h : stdoutParts? line = some parts) : WholeNumber line parts.number := by
  unfold stdoutParts? at h
  simp only at h
  split at h
  · cases h
  generalize hbody : (line.dropWhile Char.isUpper).dropWhile isBlank = body at h
  obtain ⟨before, rfl⟩ : ∃ before, line = before ++ body := by
    refine ⟨line.takeWhile Char.isUpper ++ (line.dropWhile Char.isUpper).takeWhile isBlank, ?_⟩
    rw [← hbody, List.append_assoc, List.takeWhile_append_dropWhile,
      List.takeWhile_append_dropWhile]
  -- the number stands in the first row of the body.
  have hrow := (List.takeWhile_append_dropWhile (p := (· != '\n')) (l := body)).symm
  generalize body.takeWhile (· != '\n') = row at h hrow
  rw [Option.bind_eq_bind, Option.bind_eq_some_iff] at h
  obtain ⟨⟨number, after⟩, hfound, hparts⟩ := h
  have hnumber : parts.number = number := by
    simp only at hparts
    split at hparts
    · cases hparts
    · cases hparts
      rfl
  rw [hnumber, hrow]
  simp only [Option.orElse_eq_orElse, Option.orElse_eq_or, Option.or_eq_some_iff] at hfound
  rcases hfound with hlast | ⟨-, hpath⟩
  · obtain ⟨front, hlast⟩ := exists_lastNumberIn hlast
    have hwhole := wholeNumber_of_numberIn hlast.numberIn (before ++ row.take 1)
      (body.dropWhile (· != '\n'))
    rwa [List.append_assoc, ← List.append_assoc (row.take 1), List.take_append_drop] at hwhole
  · split at hpath
    · exact wholeNumber_of_numberIn (numberField?_eq_some_iff.mp hpath) _ _
    · cases hpath

/-- A number with white space around it, behind a colon. -/
theorem wholeNumber_trim (front : List Char) {tail : List Char} (h : IsNumber tail) :
    WholeNumber (front ++ ':' :: tail) (trim tail) where
  stands := by
    obtain ⟨rest, hrest, hblank, -⟩ := exists_trimEnd (trimStart tail)
    have htail : tail = tail.takeWhile isBlank ++ (trim tail ++ rest) := by
      rw [trim, ← hrest, trimStart, List.takeWhile_append_dropWhile]
    refine ⟨front ++ ':' :: tail.takeWhile isBlank, rest, ?_, ?_, ?_⟩
    · rw [List.append_assoc, List.cons_append, ← htail]
    · intro c hc
      rw [List.getLast?_append_of_ne_nil _ (List.cons_ne_nil _ _)] at hc
      rcases List.mem_cons.mp (List.mem_of_getLast? hc) with rfl | hc
      · exact isDecimalDigit_colon
      · exact isDecimalDigit_of_isBlank (List.mem_takeWhile_imp hc)
    · exact fun c hc => isDecimalDigit_of_isBlank (hblank c (List.mem_of_mem_head? hc))
  nonempty := h.1
  decimal := List.all_eq_true.mp h.2

/-- The number of a location field does, too: it is what stands behind the last colon, trimmed. -/
theorem wholeNumber_of_locationField? {line file digits : List Char}
    (h : locationField? line = some (file, digits)) : WholeNumber line digits := by
  rw [locationField?, Option.bind_eq_bind, Option.bind_eq_some_iff] at h
  obtain ⟨rest, hrest, h⟩ := h
  have hback := (List.takeWhile_append_dropWhile (p := (· != ':')) (l := rest.reverse)).symm
  simp only at h
  -- behind the last colon there is either a number or no location at all.
  split at h
  · cases h
  · next c before hdrop =>
    have hhead : c ∈ (rest.reverse.dropWhile (· != ':')).head? := by
      rw [hdrop]
      rfl
    have hcolon : c = ':' := by simpa using stops_dropWhile hhead
    rw [hdrop, hcolon, List.reverse_eq_iff, List.reverse_append, List.reverse_cons,
      List.append_assoc, List.singleton_append] at hback
    split at h
    · next hgood =>
      cases h
      have hwhole := wholeNumber_trim (">>> Location:".toList ++ before.reverse)
        ⟨hgood.1, hgood.2.1⟩
      rwa [List.append_assoc, ← hback, ← afterWord?_eq_some_iff.mp hrest] at hwhole
    · cases h

/-- Digits right behind a marker that does not end with a digit, as many as there are. -/
theorem wholeNumber_of_numberAfter? {marker cs digits : List Char} {c : Char}
    (hmarker : marker.getLast? = some c) (hc : isDecimalDigit c = false)
    (h : numberAfter? marker cs = some digits) (before : List Char) {after : List Char}
    (hafter : ∀ c ∈ after.head?, isDecimalDigit c = false) :
    WholeNumber (before ++ (cs ++ after)) digits := by
  -- by induction on the characters, with those passed so far in `before`; the first marker that
  -- digits follow is taken.
  induction cs generalizing before with
  | nil => cases h
  | cons d cs ih =>
    have hnext (h : numberAfter? marker cs = some digits) :
        WholeNumber (before ++ (d :: cs ++ after)) digits := by
      have hwhole := ih h (before ++ [d])
      rwa [List.append_assoc] at hwhole
    rw [numberAfter?] at h
    split at h
    · exact hnext h
    · exact hnext h
    · next found hne hfound =>
      cases h
      obtain ⟨rest, hrest, rfl⟩ := Option.map_eq_some_iff.mp hfound
      refine ⟨⟨before ++ marker, rest.dropWhile isDecimalDigit ++ after, ?_, ?_, ?_⟩, hne,
        fun c hc => List.mem_takeWhile_imp hc⟩
      · rw [afterWord?_eq_some_iff.mp hrest]
        simp only [List.append_assoc]
        rw [← List.append_assoc (rest.takeWhile _), List.takeWhile_append_dropWhile]
      · rw [List.getLast?_append, hmarker]
        simpa using hc
      · intro c hc
        rw [List.head?_append, Option.mem_def, Option.or_eq_some_iff] at hc
        rcases hc with hc | ⟨-, hc⟩
        · exact stops_dropWhile hc
        · exact hafter c hc

/-- The number of a parse exception is one of the line of text that its name stands on, since the
search for it stops at the line feed. -/
theorem wholeNumber_of_parseExceptionNumber? {cs digits : List Char}
    (h : parseExceptionNumber? cs = some digits) (before : List Char) :
    WholeNumber (before ++ cs) digits := by
  induction cs generalizing before with
  | nil => cases h
  | cons c cs ih =>
    simp only [parseExceptionNumber?] at h
    split at h
    · next found hfound =>
      cases h
      obtain ⟨rest, hrest, hnumber⟩ := Option.bind_eq_some_iff.mp hfound
      -- the digits cannot go on behind the end of the line.
      have hstop : ∀ c ∈ (rest.dropWhile (· != '\n')).head?, isDecimalDigit c = false := by
        intro c hc
        have hfeed : c = '\n' := by simpa using stops_dropWhile hc
        rw [hfeed]
        decide
      have hwhole := wholeNumber_of_numberAfter? (by rfl) (by decide) hnumber
        (before ++ "ParseException:".toList) hstop
      rwa [List.takeWhile_append_dropWhile, List.append_assoc,
        ← afterWord?_eq_some_iff.mp hrest] at hwhole
    · have hwhole := ih h (before ++ [c])
      rwa [List.append_assoc] at hwhole

/-- In whichever way a fatal line names a number, it stands in the line as a whole number. -/
theorem wholeNumber_of_fatalLineNumber? {line digits : List Char}
    (h : fatalLineNumber? line = some digits) : WholeNumber line digits := by
  simp only [fatalLineNumber?, Option.orElse_eq_orElse, Option.orElse_eq_or,
    Option.or_eq_some_iff] at h
  rcases h with h | ⟨-, h⟩
  · have hwhole := @wholeNumber_of_numberAfter? _ _ _ ' ' rfl (by decide) h [] [] (by simp)
    rwa [List.append_nil] at hwhole
  · exact wholeNumber_of_parseExceptionNumber? h []

/-! ## §2 — the lines of the open block -/

def opensNoBlock (line : List Char) : Bool :=
  (beginKind? line).isNone

/-- The kind that the last marker among the lines names and the lines behind it, unless one of them
closes that kind. -/
def openLines? (lines : List (List Char)) : Option (List Char × List (List Char)) := do
  let marker ← (lines.rdropWhile opensNoBlock).getLast?
  let kind ← beginKind? marker
  let inside := lines.rtakeWhile opensNoBlock
  if inside.any (endKind? · = some kind) then none else some (kind, inside)

/-- A begin line opens a block, also when another one is open. -/
theorem openLines?_concat_of_begin (lines : List (List Char)) {line kind : List Char}
    (h : beginKind? line = some kind) : openLines? (lines ++ [line]) = some (kind, []) := by
  have hmarker : ¬ opensNoBlock line = true := by simp [opensNoBlock, h]
  rw [openLines?, List.rdropWhile_concat_neg _ _ _ hmarker,
    List.rtakeWhile_concat_neg _ _ _ hmarker]
  simp [h]

/-- Any other line ends the open block, if it is of its kind, or else becomes part of it. -/
theorem openLines?_concat (lines : List (List Char)) {line : List Char}
    (h : beginKind? line = none) :
    openLines? (lines ++ [line]) = (openLines? lines).bind fun opened =>
      if endKind? line = some opened.1 then none else some (opened.1, opened.2 ++ [line]) := by
  have hno : opensNoBlock line = true := by rw [opensNoBlock, h]; rfl
  rw [openLines?, openLines?, List.rdropWhile_concat_pos _ _ _ hno,
    List.rtakeWhile_concat_pos _ _ _ hno]
  cases (lines.rdropWhile opensNoBlock).getLast? with
  | none => rfl
  | some marker =>
    cases hkind : beginKind? marker with
    | none => simp [hkind]
    | some kind =>
      simp only [Option.bind_eq_bind, Option.bind_some, hkind, List.any_append]
      cases (lines.rtakeWhile opensNoBlock).any (endKind? · = some kind) <;> simp

/-- The state holds the block of these lines. -/
theorem openBlock_eq_map (lines : List (List Char)) :
    openBlock none lines = (openLines? lines).map fun opened =>
      opened.2.foldl ErrorBlock.add { kind := opened.1 } := by
  -- by induction on the last line, since each line is fed to the block that those before it have
  -- left open.
  induction lines using List.reverseRecOn with
  | nil => rfl
  | append_singleton lines line ih =>
    rw [openBlock_concat, ih]
    cases hbegin : beginKind? line with
    | some kind =>
      rw [feedStderr_begin _ hbegin, openLines?_concat_of_begin _ hbegin]
      rfl
    | none =>
      rw [openLines?_concat _ hbegin]
      cases openLines? lines with
      | none =>
        rw [Option.map_none, feedStderr_outside hbegin]
        rfl
      | some opened =>
        rw [Option.map_some, feedStderr_inside _ hbegin, kind_foldl_add, Option.bind_some]
        split
        · rfl
        · rw [Option.map_some, List.foldl_concat]

theorem mem_of_openLines? {lines inside : List (List Char)} {kind line : List Char}
    (h : openLines? lines = some (kind, inside)) (hline : line ∈ inside) : line ∈ lines := by
  simp only [openLines?, Option.bind_eq_bind, Option.bind_eq_some_iff] at h
  obtain ⟨marker, -, other, -, h⟩ := h
  split at h
  · cases h
  · cases h
    exact (List.rtakeWhile_suffix _ _).subset hline

/-- The file and the digits of the last location, also if an earlier one has a good number and it
has none. -/
def lastLocationField? (inside : List (List Char)) : Option (List Char × List Char) :=
  (inside.filterMap locationField?).getLast?

/-- The location of a block is that of its last location line. -/
theorem location_foldl_add (kind : List Char) (inside : List (List Char)) :
    let block := inside.foldl ErrorBlock.add { kind := kind }
    block.file = (lastLocationField? inside).map Prod.fst ∧
    block.line = (lastLocationField? inside).bind fun location => zeroBased? location.2 := by
  induction inside using List.reverseRecOn with
  | nil => exact ⟨rfl, rfl⟩
  | append_singleton inside line ih =>
    obtain ⟨hfile, hline⟩ := ih
    rw [List.foldl_concat, ErrorBlock.add, lastLocationField?, getLast?_filterMap_concat,
      ← lastLocationField?]
    -- a command line is no location line, so it leaves the location as it was.
    cases hcommand : commandField? line with
    | some command =>
      rw [locationField?_of_command hcommand]
      exact ⟨hfile, hline⟩
    | none =>
      cases hlocation : locationField? line with
      | some location => exact ⟨rfl, rfl⟩
      | none => exact ⟨hfile, hline⟩

/-! ## §3 — the numbers that are shown -/

/-- The number that digits are shown as: their own, but 1 for 0. Digits that cannot be read are not
shown as any number. -/
def shownNumber? (digits : List Char) : Option Nat :=
  if IsLineNumber digits then some (max (Nat.ofDigitChars 10 digits 0) 1) else none

theorem shownNumber?_eq {digits : List Char} (hdigits : digits ≠ []) :
    shownNumber? digits = (zeroBased? digits).map (· + 1) := by
  rw [shownNumber?, zeroBased?, lineNumber?_eq hdigits]
  split
  · rw [Option.map_some, Option.map_some]
    congr 1
    omega
  · rfl

/-- A number that is shown is one of 32 bits. -/
theorem shownNumber?_le {digits : List Char} {n : Nat} (h : shownNumber? digits = some n) :
    n ≤ 4294967295 := by
  rw [shownNumber?] at h
  split at h
  · next hdigits =>
    cases h
    exact Nat.max_le.mpr ⟨hdigits.2, by decide⟩
  · cases h

/-- Counting from one again does not leave 32 bits. -/
theorem toNat_ofNat_add_one {line : Nat} (h : line ≤ 4294967294) :
    (UInt32.ofNat line + 1).toNat = line + 1 := by
  have hone : (1 : UInt32).toNat = 1 := rfl
  rw [UInt32.toNat_add, UInt32.toNat_ofNat', hone]
  omega

/-- What a notice says of a location. -/
def locationText : Option (List Char × List Char) → String
  | none => ""
  | some (file, digits) =>
    match shownNumber? digits with
    | some number => "\nLocation: " ++ String.ofList file ++ ":" ++ toString number
    | none => ""

/-- The digits of a location are a whole number of one of the lines of the block. -/
theorem digits_of_lastLocationField? {inside : List (List Char)} {file digits : List Char}
    (h : lastLocationField? inside = some (file, digits)) :
    ∃ line ∈ inside, WholeNumber line digits := by
  obtain ⟨line, hline, hlocation⟩ := List.mem_filterMap.mp (List.mem_of_getLast? h)
  exact ⟨line, hline, wholeNumber_of_locationField? hlocation⟩

/-- The line of a block, counted from one, is the number of its last location line, if that can be
shown. -/
theorem line_foldl_add (kind : List Char) (inside : List (List Char)) :
    (inside.foldl ErrorBlock.add { kind := kind }).line.map (· + 1) =
      (lastLocationField? inside).bind fun location => shownNumber? location.2 := by
  rw [(location_foldl_add kind inside).2]
  cases hlast : lastLocationField? inside with
  | none => rfl
  | some location =>
    obtain ⟨line, -, hwhole⟩ := digits_of_lastLocationField? hlast
    exact (shownNumber?_eq hwhole.nonempty).symm

/-- The text of a notice ends with the location that the lines of its block have last. -/
theorem noticeText_foldl_add (kind : List Char) (inside : List (List Char)) :
    let block := inside.foldl ErrorBlock.add { kind := kind }
    block.noticeText =
      { block with line := none }.noticeText ++ locationText (lastLocationField? inside) := by
  intro block
  have hfile : block.file = _ := (location_foldl_add kind inside).1
  have hline : block.line.map (· + 1) = _ := line_foldl_add kind inside
  -- the texts have everything before the location in common.
  have hcommon : { block with line := none }.messageText = block.messageText := rfl
  rw [ErrorBlock.noticeText, ErrorBlock.noticeText, hcommon, String.append_assoc,
    String.append_assoc, String.append_assoc]
  congr 2
  simp only [hfile]
  cases hlast : lastLocationField? inside with
  | none => simp [locationText]
  | some location =>
    rw [hlast, Option.bind_some] at hline
    rw [locationText, ← hline]
    cases block.line <;> simp

/-! ## §4 — the digits that a run captures -/

/-- The text of a line of either stream. -/
def RunEvent.text? : RunEvent → Option (List Char)
  | .stdout line | .stderr line => some line.toList
  | .stdoutClosed | .finished _ => none

/-- The lines of the standard error among the events. -/
def errorTexts (events : List RunEvent) : List (List Char) :=
  (events.filterMap RunEvent.stderr?).map String.toList

/-- The digits of the line that a line of standard error reports behind the lines `before`: a marker
that closes a block of errors reports its last location, and a line outside of blocks its own. -/
def stderrDigits? (before : List (List Char)) (line : List Char) : Option (List Char) :=
  match beginKind? line, openLines? before with
  | some _, _ => none
  | none, none => fatalLineNumber? line
  | none, some (kind, inside) =>
    if endKind? line = some kind ∧ kind = "Error".toList then
      (lastLocationField? inside).map Prod.snd
    else none

/-- The digits that an event captures behind the lines `before` of standard error. -/
def RunEvent.digits? (before : List (List Char)) : RunEvent → Option (List Char)
  | .stdout line => (stdoutParts? line.toList).map StdoutParts.number
  | .stderr line => stderrDigits? before line.toList
  | .stdoutClosed | .finished _ => none

/-- The digits that the events capture, in their order. -/
def capturedDigits (before : List (List Char)) : List RunEvent → List (List Char)
  | [] => []
  | event :: events =>
    (event.digits? before).toList ++ capturedDigits (before ++ errorTexts [event]) events

/-- Captured digits are a whole number of a line of the run. -/
theorem wholeNumber_of_digits? {before : List (List Char)} {event : RunEvent} {digits : List Char}
    (h : event.digits? before = some digits) :
    ∃ line ∈ before ++ event.text?.toList, WholeNumber line digits := by
  -- only lines have digits: those of an output line are its own, those of an error line may be
  -- of a line before it in the same block.
  cases event with
  | stdout line =>
    obtain ⟨parts, hparts, rfl⟩ := Option.map_eq_some_iff.mp h
    exact ⟨line.toList, by simp [RunEvent.text?], wholeNumber_of_stdoutParts? hparts⟩
  | stderr line =>
    rw [RunEvent.digits?, stderrDigits?] at h
    split at h
    · cases h
    · exact ⟨line.toList, by simp [RunEvent.text?], wholeNumber_of_fatalLineNumber? h⟩
    · next kind inside hopen =>
      split at h
      · obtain ⟨⟨file, number⟩, hlast, rfl⟩ := Option.map_eq_some_iff.mp h
        obtain ⟨line, hline, hwhole⟩ := digits_of_lastLocationField? hlast
        exact ⟨line, List.mem_append_left _ (mem_of_openLines? hopen hline), hwhole⟩
      · cases h
  | stdoutClosed => cases h
  | finished outcome => cases h

/-- **Every number that a run captures** stands as a whole number in a line that the compiler
wrote. -/
theorem wholeNumber_of_capturedDigits {before : List (List Char)} {events : List RunEvent}
    {digits : List Char} (h : digits ∈ capturedDigits before events) :
    ∃ line ∈ before ++ events.filterMap RunEvent.text?, WholeNumber line digits := by
  induction events generalizing before with
  | nil => cases h
  | cons event events ih =>
    have htexts : (event :: events).filterMap RunEvent.text? =
        event.text?.toList ++ events.filterMap RunEvent.text? := by
      cases event <;> rfl
    -- the lines that the block may look back at are among those that were written.
    have herrors : errorTexts [event] ⊆ event.text?.toList := by
      cases event <;> simp [errorTexts, RunEvent.stderr?, RunEvent.text?]
    rw [htexts, ← List.append_assoc]
    rcases List.mem_append.mp h with h | h
    · obtain ⟨line, hline, hwhole⟩ := wholeNumber_of_digits? (Option.mem_toList.mp h)
      exact ⟨line, List.mem_append_left _ hline, hwhole⟩
    · obtain ⟨line, hline, hwhole⟩ := ih h
      refine ⟨line, ?_, hwhole⟩
      simp only [List.mem_append] at hline ⊢
      exact hline.imp_left (Or.imp_right fun hmem => herrors hmem)

/-! ## §5 — what a run shows -/

/-- Where a diagnostic comes from: its source and its line, counted from one. -/
def Diagnostic.origin (d : Diagnostic) : String × Nat :=
  (d.source, d.line + 1)

/-- Where the compiler says that a diagnostic comes from. -/
def statedOrigin? (digits : List Char) : Option (String × Nat) :=
  (shownNumber? digits).map fun number => ("ksp", number)

/-- A diagnostic made from digits has the origin that the digits state. -/
theorem origin_ofCompiler {digits : List Char} (hdigits : digits ≠ []) (severity : Severity)
    (message : String) :
    (zeroBased? digits).map (fun line => (Diagnostic.ofCompiler severity message line).origin) =
      statedOrigin? digits := by
  rw [statedOrigin?, shownNumber?_eq hdigits, Option.map_map]
  rfl

/-- The diagnostic of an output line has the origin that its number states. -/
theorem origin_stdoutDiagnostic? (line : String) :
    (stdoutDiagnostic? line).map Diagnostic.origin =
      ((stdoutParts? line.toList).map StdoutParts.number).bind statedOrigin? := by
  rw [stdoutDiagnostic?]
  cases hparts : stdoutParts? line.toList with
  | none => rfl
  | some parts =>
    rw [Option.map_some, Option.bind_some,
      ← origin_ofCompiler (wholeNumber_of_stdoutParts? hparts).nonempty
        (.ofLevel (String.ofList parts.level)) (String.ofList parts.message), zeroBased?]
    cases hnumber : lineNumber? parts.number <;> simp [hnumber]

theorem origin_fatalLine? (line : List Char) :
    ((fatalLine? line).bind StderrItem.diagnostic?).map Diagnostic.origin =
      (fatalLineNumber? line).bind statedOrigin? := by
  rw [fatalLine?]
  cases hdigits : fatalLineNumber? line with
  | none => rfl
  | some digits =>
    rw [Option.bind_some, ← origin_ofCompiler (wholeNumber_of_fatalLineNumber? hdigits).nonempty
      .error "FATAL: Check your script carefully again."]
    cases hnumber : zeroBased? digits <;> simp [hnumber, StderrItem.diagnostic?]

theorem origin_close (kind : List Char) (inside : List (List Char)) :
    ((inside.foldl ErrorBlock.add { kind := kind }).close.diagnostic?).map Diagnostic.origin =
      if kind = "Error".toList then
        ((lastLocationField? inside).map Prod.snd).bind statedOrigin?
      else none := by
  have hline := line_foldl_add kind inside
  rw [ErrorBlock.close, kind_foldl_add]
  generalize inside.foldl ErrorBlock.add { kind := kind } = block at hline ⊢
  split
  · have hstated : ((lastLocationField? inside).map Prod.snd).bind statedOrigin? =
        ((lastLocationField? inside).bind fun location => shownNumber? location.2).map
          fun number => ("ksp", number) := by
      cases lastLocationField? inside <;> rfl
    rw [hstated, ← hline]
    cases block.line <;> rfl
  · split <;> rfl

/-- The diagnostic that an error line gives has the origin that its digits state, with the block
that the lines before it have left open. -/
theorem origin_feedStderr (before : List (List Char)) (line : List Char) :
    ((feedStderr (openBlock none before) line).2.bind StderrItem.diagnostic?).map
        Diagnostic.origin = (stderrDigits? before line).bind statedOrigin? := by
  rw [openBlock_eq_map, stderrDigits?]
  -- a begin line gives nothing; outside a block only fatal lines count, and inside only the line
  -- that ends it.
  cases hbegin : beginKind? line with
  | some kind =>
    rw [feedStderr_begin _ hbegin]
    rfl
  | none =>
    cases openLines? before with
    | none =>
      rw [Option.map_none, feedStderr_outside hbegin]
      exact origin_fatalLine? line
    | some opened =>
      obtain ⟨kind, inside⟩ := opened
      rw [Option.map_some, feedStderr_inside _ hbegin, kind_foldl_add]
      by_cases hend : endKind? line = some kind
      · rw [if_pos hend]
        simp only [hend, true_and]
        refine (origin_close kind inside).trans ?_
        split <;> rfl
      · simp [hend]

/-- **One event**: the block that is open goes on being that of the lines, and a diagnostic comes
from where the digits that the event captures say. -/
theorem add_step (document : DocumentKey) {f : Findings} {before : List (List Char)}
    (hblock : f.block = openBlock none before) (event : RunEvent) :
    (f.add document event).block = openBlock none (before ++ errorTexts [event]) ∧
    (f.add document event).diagnostics.map Diagnostic.origin =
      f.diagnostics.map Diagnostic.origin ++
        ((event.digits? before).bind statedOrigin?).toList := by
  have hunread : f.block = openBlock none (before ++ []) := by rw [List.append_nil, hblock]
  -- only lines of standard error touch the open block.
  cases event with
  | stdout line =>
    refine ⟨hunread, ?_⟩
    rw [Findings.add, RunEvent.digits?, ← origin_stdoutDiagnostic?, List.map_append]
    cases stdoutDiagnostic? line <;> rfl
  | stderr line =>
    rw [Findings.add_stderr, hblock]
    refine ⟨(openBlock_concat none before line.toList).symm, ?_⟩
    rw [RunEvent.digits?, ← origin_feedStderr, List.map_append]
    congr 1
    cases (feedStderr (openBlock none before) line.toList).2 with
    | none => rfl
    | some item => cases item <;> rfl
  | stdoutClosed => exact ⟨hunread, (List.append_nil _).symm⟩
  | finished outcome => exact ⟨hunread, (List.append_nil _).symm⟩

theorem errorTexts_cons (event : RunEvent) (events : List RunEvent) :
    errorTexts (event :: events) = errorTexts [event] ++ errorTexts events := by
  cases event <;> rfl

/-- **A run of events.** -/
theorem foldl_add_run (document : DocumentKey) {f : Findings} {before : List (List Char)}
    (hblock : f.block = openBlock none before) (events : List RunEvent) :
    (events.foldl (Findings.add document) f).block =
      openBlock none (before ++ errorTexts events) ∧
    (events.foldl (Findings.add document) f).diagnostics.map Diagnostic.origin =
      f.diagnostics.map Diagnostic.origin ++
        (capturedDigits before events).filterMap statedOrigin? := by
  -- the invariant is that the findings have open what the error lines so far have left open.
  induction events generalizing f before with
  | nil => simpa [errorTexts, capturedDigits] using hblock
  | cons event events ih =>
    obtain ⟨hopen, hadded⟩ := add_step document hblock event
    obtain ⟨hopens, hfound⟩ := ih hopen
    rw [List.foldl_cons, hopens, hfound, hadded, capturedDigits, errorTexts_cons event events]
    refine ⟨by rw [List.append_assoc], ?_⟩
    rw [List.filterMap_append, List.append_assoc]
    cases event.digits? before with
    | none => rfl
    | some digits => cases h : statedOrigin? digits <;> simp [h]

/-- The bounds of a line that is shown. -/
theorem bounds_of_shownNumber? {digits : List Char} {line : Nat}
    (h : shownNumber? digits = some (line + 1)) :
    line ≤ 4294967294 ∧ (UInt32.ofNat line + 1).toNat = line + 1 := by
  have hline : line ≤ 4294967294 := Nat.le_of_succ_le_succ (shownNumber?_le h)
  exact ⟨hline, toNat_ofNat_add_one hline⟩

/-- Without overflow, the number that is printed is the next one. -/
theorem display_of_bounds {d : Diagnostic} (h : (UInt32.ofNat d.line + 1).toNat = d.line + 1)
    (path : String) :
    d.display path = path ++ ":" ++ toString (UInt32.ofNat d.line + 1) ++ ": " ++
      d.severity.label ++ ": [" ++ d.source ++ "] " ++ d.message := by
  rw [Diagnostic.display, ← h]
  rfl

/-! ## §6 — notices -/

/-- A block that closes with a notice says its own text. -/
theorem noticeText_of_close {b : ErrorBlock} {kind : NoticeKind} {message : String}
    (h : b.close = .notice kind message) : message = b.noticeText := by
  rw [ErrorBlock.close] at h
  split at h
  · split at h <;> cases h
    rfl
  · split at h <;> cases h <;> rfl

/-- An error line gives a notice only when it closes a block, whose text the notice has. -/
theorem noticeText_of_feedStderr {block : Option ErrorBlock} {line : List Char} {kind : NoticeKind}
    {message : String} (h : (feedStderr block line).2 = some (.notice kind message)) :
    ∃ b ∈ block, message = b.noticeText := by
  cases hbegin : beginKind? line with
  | some opened =>
    rw [feedStderr_begin _ hbegin] at h
    cases h
  | none =>
    cases block with
    | none =>
      -- outside a block a fatal line gives a diagnostic or nothing.
      rw [feedStderr_outside hbegin] at h
      simp only [fatalLine?, Option.bind_eq_bind, Option.bind_eq_some_iff] at h
      obtain ⟨digits, -, number, -, hitem⟩ := h
      cases hitem
    | some b =>
      refine ⟨b, rfl, ?_⟩
      rw [feedStderr_inside _ hbegin] at h
      split at h
      · exact noticeText_of_close (Option.some.inj h)
      · cases h

/-- The notices of a run are those of blocks that were open in it. -/
theorem notice_foldl_add {document : DocumentKey} {events : List RunEvent} {notice : Notice}
    (h : notice ∈ (events.foldl (Findings.add document) {}).notices) :
    ∃ before, before <+: events ∧ ∃ block ∈ (before.foldl (Findings.add document) {}).block,
      notice.message = block.noticeText := by
  induction events using List.reverseRecOn with
  | nil => cases h
  | append_singleton events event ih =>
    have hearlier (h : notice ∈ (events.foldl (Findings.add document) {}).notices) :
        ∃ before, before <+: events ++ [event] ∧
          ∃ block ∈ (before.foldl (Findings.add document) {}).block,
            notice.message = block.noticeText := by
      obtain ⟨before, hbefore, hblock⟩ := ih h
      exact ⟨before, hbefore.trans (List.prefix_append _ _), hblock⟩
    rw [List.foldl_concat] at h
    cases event with
    | stderr line =>
      rw [Findings.add_stderr] at h
      rcases List.mem_append.mp h with h | h
      · exact hearlier h
      · -- the block was open before this line, which closes it.
        refine ⟨events, List.prefix_append _ _, ?_⟩
        obtain ⟨item, hitem, hnotice⟩ := List.mem_filterMap.mp h
        cases item with
        | diagnostic d => cases hnotice
        | notice kind message =>
          cases hnotice
          exact noticeText_of_feedStderr (Option.mem_toList.mp hitem)
    | stdout line => exact hearlier h
    | stdoutClosed => exact hearlier h
    | finished outcome => exact hearlier h

/-! ## §7 — line numbers -/

/-- **Line numbers survive.** Whatever the events of a run, its report holds diagnostics of the
compiler only, each of a whole line whose number, counted from one again, is within 32 bits; so it
is displayed as it is. These numbers are those that the run captured, in their order: digits are
shown as the number that they are, the number 0 as 1, and digits that are not of ASCII or mean more
than 32 bits hold are not shown at all. All captured digits are a whole number of a line of the run.
A notice that does not tell of the outcome is that of a block that was open; at any time the line of
such a block has the same bounds, and its notice ends with the last location among its lines, whose
number is shown in the same way. -/
theorem line_numbers_survive (document : DocumentKey) (events : List RunEvent) :
    let report := collectRun document events
    let captured := capturedDigits [] (runEvents events)
    let openAfter before := (before.foldl (Findings.add document) {}).block
    (∀ d ∈ report.diagnostics,
      d.line ≤ 4294967294 ∧ d.range = ⟨⟨d.line, 0⟩, ⟨d.line, endOfLine⟩⟩ ∧ d.source = "ksp" ∧
      (UInt32.ofNat d.line + 1).toNat = d.line + 1 ∧
      ∀ path, d.display path = path ++ ":" ++ toString (UInt32.ofNat d.line + 1) ++ ": " ++
        d.severity.label ++ ": [" ++ d.source ++ "] " ++ d.message) ∧
    report.diagnostics.map (·.line + 1) = captured.filterMap shownNumber? ∧
    (∀ digits ∈ captured, ∃ line ∈ (runEvents events).filterMap RunEvent.text?,
      WholeNumber line digits) ∧
    (∀ notice ∈ report.notices, outcomeNotice? document report.outcome = some notice ∨
      ∃ before, before <+: runEvents events ∧
        ∃ block ∈ openAfter before, notice.message = block.noticeText) ∧
    ∀ before, before <+: runEvents events → ∀ block ∈ openAfter before,
      (∀ line ∈ block.line, line ≤ 4294967294 ∧ (UInt32.ofNat line + 1).toNat = line + 1) ∧
      ∃ inside, openLines? (errorTexts before) = some (block.kind, inside) ∧
        block.noticeText =
          { block with line := none }.noticeText ++ locationText (lastLocationField? inside) := by
  intro report captured openAfter
  -- everything about diagnostics follows from this: their origins are those that the captured
  -- digits state.
  have horigins : report.diagnostics.map Diagnostic.origin = captured.filterMap statedOrigin? :=
    (foldl_add_run document rfl (runEvents events)).2
  refine ⟨?_, ?_, fun digits hdigits => wholeNumber_of_capturedDigits hdigits, ?_, ?_⟩
  · intro d hd
    have hmem := List.mem_map_of_mem (f := Diagnostic.origin) hd
    rw [horigins, List.mem_filterMap] at hmem
    obtain ⟨digits, -, hstated⟩ := hmem
    obtain ⟨number, hnumber, horigin⟩ := Option.map_eq_some_iff.mp hstated
    obtain ⟨hsource, rfl⟩ := Prod.mk.inj horigin
    obtain ⟨hline, hwithin⟩ := bounds_of_shownNumber? hnumber
    exact ⟨hline, rfl, hsource.symm, hwithin, display_of_bounds hwithin⟩
  · have hseconds := congrArg (List.map Prod.snd) horigins
    rw [List.map_map, List.map_filterMap] at hseconds
    refine hseconds.trans (List.filterMap_congr fun digits _ => ?_)
    rw [statedOrigin?, Option.map_map]
    exact congrFun Option.map_id _
  · intro notice hnotice
    rcases List.mem_append.mp hnotice with hfound | houtcome
    · exact Or.inr (notice_foldl_add hfound)
    · exact Or.inl (Option.mem_toList.mp houtcome)
  · intro before _ block hblock
    have hopen : openAfter before = openBlock none (errorTexts before) :=
      (@foldl_add_run document {} [] rfl before).1
    rw [hopen, openBlock_eq_map, Option.mem_def, Option.map_eq_some_iff] at hblock
    obtain ⟨⟨kind, inside⟩, hlines, rfl⟩ := hblock
    refine ⟨?_, inside, by rw [hlines, kind_foldl_add], noticeText_foldl_add kind inside⟩
    intro line hline
    have hshown := line_foldl_add kind inside
    rw [Option.mem_def.mp hline, Option.map_some] at hshown
    obtain ⟨location, -, hlocation⟩ := Option.bind_eq_some_iff.mp hshown.symm
    exact bounds_of_shownNumber? hlocation

/-- A number that 32 bits do not hold, the number 0, a location that cannot be read behind one that
can, and the greatest number. -/
theorem line_numbers_of_unreadable_location :
    let events : List RunEvent :=
      [.stdout "ERROR a.ksp:4294967296: too far", .stdout "ERROR a.ksp:0: no line",
       .stderr ">>> BEGIN Error", .stderr ">>> Location: a.ksp: 3",
       .stderr ">>> Location: a.ksp: \u0663", .stderr ">>> END Error",
       .stderr "TokenMgrError: Lexical error at line 4294967295", .finished (.exited 1)]
    capturedDigits [] (runEvents events) =
      ["4294967296".toList, "0".toList, "\u0663".toList, "4294967295".toList] ∧
    (collectRun ⟨"a.ksp"⟩ events).diagnostics.map (·.line + 1) = [1, 4294967295] := by
  intro events
  obtain ⟨-, hshown, -⟩ := line_numbers_survive ⟨"a.ksp"⟩ events
  have hcaptured : capturedDigits [] (runEvents events) =
      ["4294967296".toList, "0".toList, "\u0663".toList, "4294967295".toList] := by
    decide +kernel
  rw [hcaptured] at hshown
  exact ⟨hcaptured, hshown.trans (by decide +kernel)⟩

end KspWorkbench
