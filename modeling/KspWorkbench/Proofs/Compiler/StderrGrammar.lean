import Mathlib.Data.List.Induction
import KspWorkbench.Proofs.Compiler.RunReport
import KspWorkbench.Proofs.Compiler.StderrPatterns

/-!
# The grammar of the compiler's standard error

`feedStderr` reads one line after the other and keeps the block that is open. What it reports at a
line can be said without that state, from the lines before it (`stderr_grammar`): the last marker
that opens a block decides, unless a line behind it closes the kind that it names. `Inside` is that
condition, `closingItem` is what the lines between the markers say, and `openBlock_eq_some_iff` ties
both to the state.
-/

namespace KspWorkbench

/-! ## §1 — the rule -/

/-- A marker that opens a block of `kind`. -/
def Opens (kind line : List Char) : Prop :=
  match? (markerPattern ">>> BEGIN".toList) line = some [kind]

/-- A marker that closes a block of `kind`. -/
def Closes (kind line : List Char) : Prop :=
  match? (markerPattern ">>> END".toList) line = some [kind]

instance (kind line : List Char) : Decidable (Closes kind line) :=
  inferInstanceAs (Decidable (_ = _))

/-- The last marker among `before` that opens a block names `kind`, the lines behind it are
`inside`, and none of them closes the kind. -/
structure Inside (before : List (List Char)) (kind : List Char) (inside : List (List Char)) :
    Prop where
  marker : ∃ front opening, before = front ++ opening :: inside ∧ Opens kind opening
  last : ∀ line ∈ inside, ∀ other, ¬ Opens other line
  unclosed : ∀ line ∈ inside, ¬ Closes kind line

def commandOf? (line : List Char) : Option (List Char) :=
  (match? commandPattern line).bind List.head?

/-- The file and the digits that a line gives as the location. -/
def locationOf? (line : List Char) : Option (List Char × List Char) :=
  match match? locationPattern line with
  | some [file, digits] => some (file, digits)
  | _ => none

def lastCommand? (inside : List (List Char)) : Option (List Char) :=
  (inside.filterMap commandOf?).getLast?

def lastLocation? (inside : List (List Char)) : Option (List Char × List Char) :=
  (inside.filterMap locationOf?).getLast?

/-- The number of the last location, also if an earlier one has a good number and it has none. -/
def lastNumber? (inside : List (List Char)) : Option Nat :=
  (lastLocation? inside).bind fun location => lineNumber? location.2

/-- The lines that give neither a command nor a location. -/
def messageLines (inside : List (List Char)) : List (List Char) :=
  inside.filter fun line => commandOf? line = none ∧ locationOf? line = none

def closingMessage (kind : List Char) (inside : List (List Char)) : String :=
  if trim (['\n'].intercalate (messageLines inside)) = [] then
    "Compiler reported " ++ String.ofList kind
  else
    String.ofList (trim (['\n'].intercalate (messageLines inside)))

/-- The message with the command and the location. A location is given with its number, and the
number 0 as 1. -/
def closingNotice (kind : List Char) (inside : List (List Char)) : String :=
  closingMessage kind inside ++
    (match lastCommand? inside with
      | some command => "\nCommand: " ++ String.ofList command
      | none => "") ++
    match lastLocation? inside, lastNumber? inside with
    | some (file, _), some number =>
      "\nLocation: " ++ String.ofList file ++ ":" ++ toString (max number 1)
    | _, _ => ""

/-- What the lines between the markers of a block of `kind` report. -/
def closingItem (kind : List Char) (inside : List (List Char)) : StderrItem :=
  if kind = "Error".toList then
    match lastNumber? inside with
    | some number => .diagnostic (.ofCompiler .error (closingMessage kind inside) (number - 1))
    | none => .notice (.fatal "Error") (closingNotice kind inside)
  else if kind = "Exception".toList then
    .notice .exception (closingNotice kind inside)
  else
    .notice (.fatal (String.ofList kind)) (closingNotice kind inside)

/-- What a line outside of blocks reports on its own. -/
def singleLineItem? (line : List Char) : Option StderrItem :=
  match (search? lexicalErrorPattern line).or (search? parseExceptionPattern line) with
  | some [digits] => (lineNumber? digits).map fun number =>
    .diagnostic (.ofCompiler .error "FATAL: Check your script carefully again." (number - 1))
  | _ => none

/-! ## §2 — the fields of a block -/

/-- The reader recognises the lines that open a block by the pattern of the rule. -/
theorem opens_iff {kind line : List Char} (hline : '\n' ∉ line) :
    Opens kind line ↔ beginKind? line = some kind := by
  rw [Opens, match?_marker _ hline, beginKind?]
  cases markerKind? ">>> BEGIN".toList line <;> simp

theorem closes_iff {kind line : List Char} (hline : '\n' ∉ line) :
    Closes kind line ↔ endKind? line = some kind := by
  rw [Closes, match?_marker _ hline, endKind?]
  cases markerKind? ">>> END".toList line <;> simp

/-- The pattern of a command line captures what the reader takes for the command. -/
theorem commandOf?_eq {line : List Char} (hline : '\n' ∉ line) :
    commandOf? line = commandField? line := by
  rw [commandOf?, match?_command hline]
  cases commandField? line <;> rfl

/-- The pattern of a location line captures the file and the digits that the reader takes. -/
theorem locationOf?_eq {line : List Char} (hline : '\n' ∉ line) :
    locationOf? line = locationField? line := by
  rw [locationOf?, match?_location hline]
  cases locationField? line <;> rfl

/-- A line outside all blocks gives by the rule what it gives by the reader. -/
theorem singleLineItem?_eq {line : List Char} (hline : '\n' ∉ line) :
    singleLineItem? line = fatalLine? line := by
  rw [singleLineItem?, search?_fatalLine hline, fatalLine?]
  cases fatalLineNumber? line with
  | none => rfl
  | some digits =>
    simp only [Option.map_some, Option.bind_eq_bind, Option.bind_some, zeroBased?]
    cases lineNumber? digits <;> rfl

/-- A line does not give a command and a location both. -/
theorem locationField?_of_command {line command : List Char}
    (h : commandField? line = some command) : locationField? line = none := by
  rw [commandField?, Option.bind_eq_bind, Option.bind_eq_some_iff] at h
  obtain ⟨rest, hrest, -⟩ := h
  have hno : afterWord? ">>> Location:".toList line = none := by
    rw [afterWord?_eq_some_iff.mp hrest]
    rfl
  rw [locationField?, hno]
  rfl

/-- The block that the lines behind a marker make. -/
def blockOf (kind : List Char) (inside : List (List Char)) : ErrorBlock where
  kind := kind
  command := lastCommand? inside
  file := (lastLocation? inside).map Prod.fst
  line := (lastLocation? inside).bind fun location => zeroBased? location.2
  message := messageLines inside

@[simp] theorem kind_blockOf (kind : List Char) (inside : List (List Char)) :
    (blockOf kind inside).kind = kind :=
  rfl

theorem getLast?_filterMap_concat {α β : Type} (f : α → Option β) (xs : List α) (x : α) :
    ((xs ++ [x]).filterMap f).getLast? = (f x).or (xs.filterMap f).getLast? := by
  rw [List.filterMap_append, List.getLast?_append, List.filterMap_cons]
  cases f x <;> rfl

/-- Reading the lines behind a marker one after the other makes the block of these lines. -/
theorem foldl_add (kind : List Char) {inside : List (List Char)}
    (hinside : ∀ line ∈ inside, '\n' ∉ line) :
    inside.foldl ErrorBlock.add { kind := kind } = blockOf kind inside := by
  induction inside using List.reverseRecOn with
  | nil => rfl
  | append_singleton inside line ih =>
    have hline := hinside line (by simp)
    rw [List.foldl_concat, ih fun other h => hinside other (by simp [h]), ErrorBlock.add]
    simp only [blockOf, lastCommand?, lastLocation?, messageLines, getLast?_filterMap_concat,
      List.filter_append, commandOf?_eq hline, locationOf?_eq hline]
    cases hcommand : commandField? line with
    | some command => simp [hcommand, locationField?_of_command hcommand, commandOf?_eq hline]
    | none =>
      cases hlocation : locationField? line with
      | some location => simp [hlocation, locationOf?_eq hline]
      | none => simp [hcommand, hlocation, commandOf?_eq hline, locationOf?_eq hline]

/-- The message of a block is the one that the rule reads off its lines. -/
theorem messageText_blockOf (kind : List Char) (inside : List (List Char)) :
    (blockOf kind inside).messageText = closingMessage kind inside := by
  unfold ErrorBlock.messageText closingMessage blockOf
  split
  · next h => rw [if_pos h]
  · next h => rw [if_neg h]

/-- The line of a block is the number of its last location line, counted from zero. -/
theorem line_blockOf (kind : List Char) (inside : List (List Char)) :
    (blockOf kind inside).line = (lastNumber? inside).map (· - 1) := by
  rw [blockOf, lastNumber?]
  cases lastLocation? inside <;> rfl

/-- The text of a block without a line is the one that the rule reads off its lines. -/
theorem noticeText_blockOf (kind : List Char) (inside : List (List Char)) :
    (blockOf kind inside).noticeText = closingNotice kind inside := by
  have hone (number : Nat) : number - 1 + 1 = max number 1 := by omega
  rw [ErrorBlock.noticeText, messageText_blockOf, line_blockOf, closingNotice]
  congr 1
  simp only [blockOf]
  cases hlocation : lastLocation? inside with
  | none => rfl
  | some location =>
    cases hnumber : lastNumber? inside with
    | none => rfl
    | some number => simp only [Option.map_some, hone]

/-- What a block reports, from the lines between its markers. -/
theorem close_blockOf (kind : List Char) (inside : List (List Char)) :
    (blockOf kind inside).close = closingItem kind inside := by
  rw [ErrorBlock.close, closingItem, noticeText_blockOf, messageText_blockOf, line_blockOf,
    kind_blockOf]
  cases lastNumber? inside <;> rfl

/-! ## §3 — the block that is open -/

/-- The block that is open behind the lines. -/
def openBlock (block : Option ErrorBlock) (lines : List (List Char)) : Option ErrorBlock :=
  lines.foldl (fun block line => (feedStderr block line).1) block

theorem openBlock_concat (block : Option ErrorBlock) (lines : List (List Char)) (line : List Char) :
    openBlock block (lines ++ [line]) = (feedStderr (openBlock block lines) line).1 := by
  rw [openBlock, List.foldl_concat, openBlock]

/-- A begin line opens a block and drops the one that was open: nothing is reported of it. -/
theorem feedStderr_begin (block : Option ErrorBlock) {line kind : List Char}
    (h : beginKind? line = some kind) : feedStderr block line = (some { kind := kind }, none) := by
  simp only [feedStderr, h]

/-- Outside a block, a line is reported if it is a fatal one. -/
theorem feedStderr_outside {line : List Char} (h : beginKind? line = none) :
    feedStderr none line = (none, fatalLine? line) := by
  simp only [feedStderr, h]

/-- Inside a block, the end line of its kind closes it, and any other line belongs to it, end
lines of other kinds included. -/
theorem feedStderr_inside (block : ErrorBlock) {line : List Char} (h : beginKind? line = none) :
    feedStderr (some block) line =
      if endKind? line = some block.kind then (none, some block.close)
      else (some (block.add line), none) := by
  simp only [feedStderr, h]

/-- The opening line is the last one, or it is before it. -/
theorem concat_eq_split {before front inside : List (List Char)} {line opening : List Char}
    (h : before ++ [line] = front ++ opening :: inside) :
    (inside = [] ∧ opening = line) ∨
      ∃ inner, inside = inner ++ [line] ∧ before = front ++ opening :: inner := by
  rcases List.eq_nil_or_concat inside with rfl | ⟨inner, last, rfl⟩
  · obtain ⟨-, hlast⟩ := List.append_inj' h rfl
    exact Or.inl ⟨rfl, (List.cons.inj hlast).1.symm⟩
  · rw [List.concat_eq_append, ← List.cons_append, ← List.append_assoc] at h
    obtain ⟨hbefore, hlast⟩ := List.append_inj' h rfl
    exact Or.inr ⟨inner, by rw [List.concat_eq_append, hlast], hbefore⟩

/-- A marker that opens a block is the last one, and no line stands behind it yet. -/
theorem inside_concat_of_opens {before inside : List (List Char)} {kind other line : List Char}
    (hline : Opens kind line) :
    Inside (before ++ [line]) other inside ↔ other = kind ∧ inside = [] := by
  constructor
  · rintro ⟨⟨front, opening, hsplit, hopening⟩, hlast, -⟩
    rcases concat_eq_split hsplit with ⟨rfl, rfl⟩ | ⟨inner, rfl, -⟩
    · rw [Opens, hline] at hopening
      simp only [Option.some.injEq, List.cons.injEq, and_true] at hopening
      exact ⟨hopening.symm, rfl⟩
    · exact absurd hline (hlast line (by simp) kind)
  · rintro ⟨rfl, rfl⟩
    exact ⟨⟨before, line, rfl, hline⟩, by simp, by simp⟩

/-- Any other line stands behind the marker that was the last one before. -/
theorem inside_concat {before inside : List (List Char)} {kind line : List Char}
    (hline : ∀ other, ¬ Opens other line) :
    Inside (before ++ [line]) kind inside ↔
      ∃ inner, inside = inner ++ [line] ∧ Inside before kind inner ∧ ¬ Closes kind line := by
  -- a line that opens nothing cannot be the opening line of the block, so it is the last one
  -- inside.
  constructor
  · rintro ⟨⟨front, opening, hsplit, hopening⟩, hlast, hunclosed⟩
    rcases concat_eq_split hsplit with ⟨rfl, rfl⟩ | ⟨inner, rfl, hbefore⟩
    · exact absurd hopening (hline kind)
    · refine ⟨inner, rfl, ⟨⟨front, opening, hbefore, hopening⟩, ?_, ?_⟩, hunclosed line (by simp)⟩
      · exact fun other h => hlast other (by simp [h])
      · exact fun other h => hunclosed other (by simp [h])
  · rintro ⟨inner, rfl, ⟨⟨front, opening, rfl, hopening⟩, hlast, hunclosed⟩, hopen⟩
    refine ⟨⟨front, opening, by simp, hopening⟩, ?_, ?_⟩
    · intro other h
      rcases List.mem_append.mp h with h | h
      · exact hlast other h
      · rwa [List.mem_singleton.mp h]
    · intro other h
      rcases List.mem_append.mp h with h | h
      · exact hunclosed other h
      · rwa [List.mem_singleton.mp h]

theorem kind_foldl_add (block : ErrorBlock) (inside : List (List Char)) :
    (inside.foldl ErrorBlock.add block).kind = block.kind := by
  induction inside generalizing block with
  | nil => rfl
  | cons line inside ih =>
    rw [List.foldl_cons, ih, ErrorBlock.add]
    split
    · rfl
    · split <;> rfl

/-- **The state is what the lines say**: the block that is open is the one of the last marker that
is not closed, with the lines behind it. -/
theorem openBlock_eq_some_iff {before : List (List Char)} (hbefore : ∀ line ∈ before, '\n' ∉ line)
    {block : ErrorBlock} :
    openBlock none before = some block ↔
      ∃ kind inside, Inside before kind inside ∧
        block = inside.foldl ErrorBlock.add { kind := kind } := by
  induction before using List.reverseRecOn generalizing block with
  | nil =>
    constructor
    · intro h
      cases h
    · rintro ⟨kind, inside, ⟨⟨front, opening, hsplit, -⟩, -, -⟩, -⟩
      simp at hsplit
  | append_singleton before line ih =>
    have ih {block : ErrorBlock} := @ih (fun other h => hbefore other (by simp [h])) block
    have hline : '\n' ∉ line := hbefore line (by simp)
    rw [openBlock_concat]
    cases hbegin : beginKind? line with
    | some kind =>
      have hopens : Opens kind line := (opens_iff hline).mpr hbegin
      rw [feedStderr_begin _ hbegin]
      constructor
      · intro h
        cases h
        exact ⟨kind, [], (inside_concat_of_opens hopens).mpr ⟨rfl, rfl⟩, rfl⟩
      · rintro ⟨other, inside, hinside, rfl⟩
        obtain ⟨rfl, rfl⟩ := (inside_concat_of_opens hopens).mp hinside
        rfl
    | none =>
      have hno : ∀ kind, ¬ Opens kind line := by
        intro kind h
        rw [opens_iff hline, hbegin] at h
        cases h
      -- whatever the last marker is, the state holds its block.
      have hstate {kind : List Char} {inner : List (List Char)} (h : Inside before kind inner) :
          openBlock none before = some (inner.foldl ErrorBlock.add { kind := kind }) :=
        ih.mpr ⟨kind, inner, h, rfl⟩
      cases hopen : openBlock none before with
      | none =>
        rw [feedStderr_outside hbegin]
        constructor
        · intro h
          cases h
        · rintro ⟨kind, inside, hinside, -⟩
          obtain ⟨inner, -, hinner, -⟩ := (inside_concat hno).mp hinside
          rw [hstate hinner] at hopen
          cases hopen
      | some current =>
        rw [feedStderr_inside _ hbegin]
        split
        · next hclose =>
          constructor
          · intro h
            cases h
          · rintro ⟨kind, inside, hinside, -⟩
            obtain ⟨inner, -, hinner, hunclosed⟩ := (inside_concat hno).mp hinside
            rw [hstate hinner] at hopen
            cases hopen
            rw [kind_foldl_add] at hclose
            exact absurd ((closes_iff hline).mpr hclose) hunclosed
        · next hclose =>
          constructor
          · intro h
            cases h
            obtain ⟨kind, inner, hinner, rfl⟩ := ih.mp hopen
            refine ⟨kind, inner ++ [line], (inside_concat hno).mpr ⟨inner, rfl, hinner, ?_⟩, ?_⟩
            · rw [kind_foldl_add] at hclose
              rwa [closes_iff hline]
            · rw [List.foldl_concat]
          · rintro ⟨kind, inside, hinside, rfl⟩
            obtain ⟨inner, rfl, hinner, -⟩ := (inside_concat hno).mp hinside
            rw [hstate hinner] at hopen
            cases hopen
            rw [List.foldl_concat]

/-! ## §4 — what is reported at each line -/

/-- What each line reports, one after the other, from the block that is open. -/
def stderrReplies (block : Option ErrorBlock) : List (List Char) → List (Option StderrItem)
  | [] => []
  | line :: lines => (feedStderr block line).2 :: stderrReplies (feedStderr block line).1 lines

/-- The replies without the empty ones are what a run reports of its standard error. -/
theorem reduceOption_stderrReplies (block : Option ErrorBlock) (lines : List String) :
    (stderrReplies block (lines.map String.toList)).reduceOption = stderrItems block lines := by
  induction lines generalizing block with
  | nil => rfl
  | cons line lines ih =>
    rw [List.map_cons, stderrReplies, stderrItems, ← ih]
    cases (feedStderr block line.toList).2 <;> rfl

/-- The reply at a line depends on the lines before it through the block that they leave open, and
not at all on those after it. -/
theorem getElem?_stderrReplies (block : Option ErrorBlock) (before : List (List Char))
    (line : List Char) (after : List (List Char)) :
    (stderrReplies block (before ++ line :: after))[before.length]? =
      some (feedStderr (openBlock block before) line).2 := by
  induction before generalizing block with
  | nil => rfl
  | cons first before ih => exact ih (feedStderr block first).1

/-- **The grammar of the standard error.** A marker that opens a block reports nothing. At any other
line the last marker before it decides, unless a line in between closes the kind that it names: only
a line that closes the kind reports something, and that is made of the lines in between. Outside of
blocks a line counts on its own. -/
theorem stderr_grammar (before : List (List Char)) (line : List Char) (after : List (List Char))
    (hlines : ∀ text ∈ before ++ line :: after, '\n' ∉ text) :
    ∃ item, (stderrReplies none (before ++ line :: after))[before.length]? = some item ∧
      ((∃ kind, Opens kind line) → item = none) ∧
      ((∀ kind, ¬ Opens kind line) →
        (∀ kind inside, Inside before kind inside →
          item = if Closes kind line then some (closingItem kind inside) else none) ∧
        ((∀ kind inside, ¬ Inside before kind inside) → item = singleLineItem? line)) := by
  have hline : '\n' ∉ line := hlines line (by simp)
  have hbefore : ∀ text ∈ before, '\n' ∉ text := fun text h => hlines text (by simp [h])
  refine ⟨_, getElem?_stderrReplies none before line after, ?_, ?_⟩
  · rintro ⟨kind, hopens⟩
    rw [feedStderr_begin _ ((opens_iff hline).mp hopens)]
  · intro hno
    have hbegin : beginKind? line = none := by
      cases hkind : beginKind? line with
      | none => rfl
      | some kind => exact absurd ((opens_iff hline).mpr hkind) (hno kind)
    -- the block that the reader has open is the one that the rule finds by looking back.
    constructor
    · intro kind inside hinside
      have hlinesInside : ∀ text ∈ inside, '\n' ∉ text := by
        obtain ⟨front, opening, rfl, -⟩ := hinside.marker
        exact fun text h => hbefore text (by simp [h])
      have hopen := (openBlock_eq_some_iff hbefore).mpr ⟨kind, inside, hinside, rfl⟩
      rw [foldl_add kind hlinesInside] at hopen
      rw [hopen, feedStderr_inside _ hbegin, kind_blockOf]
      by_cases hclose : Closes kind line
      · rw [if_pos hclose, if_pos ((closes_iff hline).mp hclose), close_blockOf]
      · rw [if_neg hclose, if_neg fun h => hclose ((closes_iff hline).mpr h)]
    · intro houtside
      have hopen : openBlock none before = none := by
        apply Option.eq_none_iff_forall_ne_some.mpr
        intro block h
        obtain ⟨kind, inside, hinside, -⟩ := (openBlock_eq_some_iff hbefore).mp h
        exact houtside kind inside hinside
      rw [hopen, feedStderr_outside hbegin, singleLineItem?_eq hline]

/-- The first block is dropped when the second one is opened, and the end of another kind is a line
of the message. -/
theorem stderr_grammar_of_reopened_block :
    (stderrReplies none [">>> BEGIN Error".toList, ">>> Location: a.ksp: 3".toList,
      ">>> BEGIN Error".toList, ">>> Location: a.ksp: 9".toList, ">>> END Exception".toList,
      ">>> END Error".toList])[5]? =
      some (some (.diagnostic (.ofCompiler .error ">>> END Exception" 8))) := by
  obtain ⟨item, hitem, -, hrule⟩ := stderr_grammar
    [">>> BEGIN Error".toList, ">>> Location: a.ksp: 3".toList, ">>> BEGIN Error".toList,
      ">>> Location: a.ksp: 9".toList, ">>> END Exception".toList] ">>> END Error".toList []
    (by decide +kernel)
  have hno : ∀ kind, ¬ Opens kind ">>> END Error".toList := by
    intro kind h
    cases h
  have hinside : Inside [">>> BEGIN Error".toList, ">>> Location: a.ksp: 3".toList,
      ">>> BEGIN Error".toList, ">>> Location: a.ksp: 9".toList, ">>> END Exception".toList]
      "Error".toList [">>> Location: a.ksp: 9".toList, ">>> END Exception".toList] := by
    refine ⟨⟨[">>> BEGIN Error".toList, ">>> Location: a.ksp: 3".toList],
      ">>> BEGIN Error".toList, rfl, ?_⟩, ?_, ?_⟩
    · rfl
    · intro line hline other hopens
      rcases List.mem_pair.mp hline with rfl | rfl <;> cases hopens
    · decide +kernel
  rw [(hrule hno).1 _ _ hinside] at hitem
  exact hitem.trans (by decide +kernel)

end KspWorkbench
