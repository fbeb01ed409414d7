import KspWorkbench.Compiler.LineFraming
import KspWorkbench.Proofs.Sequences

/-!
# Lines do not depend on how bytes are delivered

A stream is delivered in chunks that may end anywhere, in the middle of a line or between the two
bytes that end it, and a delivery may fail. What counts for the lines are the byte strings between
the failures and nothing else. A delivery has at least one byte, since a read that gives none is the
end of the stream; the chunks of a stream are those before it.

* **`Stretches`** — a delivery without its cuts: the byte strings before each failure, and the last
  one. `Stretches.results` says line by line what is to come out of them.
* **`LineBuffer.holding`** — the buffer after some bytes of a line, said from these bytes alone. Every
  chunk takes it from the bytes before to the bytes after (`feed_holding`), so the cuts do not show.
* **`LineReader.pass?`** — one round of the loop that reads a line, with **`LineReader.Reads`** for any
  number of rounds. `frame` is what the rounds return until the end (`frameFrom_of_reads`), and the
  buffer is bounded in each of them.
-/

namespace KspWorkbench

/-! ## §1 — what is to come out -/

/-- The text of a line of which the compiler wrote `raw`. -/
def framedLine (raw : List UInt8) (terminated : Bool) : String :=
  String.ofList <| Utf8.decodeLossy <|
    if maxLineBytes < raw.length then raw.take maxLineBytes
    else if terminated ∧ raw.getLast? = some 13 then raw.dropLast
    else raw

/-- The lines of a byte string that a line feed ends. -/
def endedLines (bytes : List UInt8) : List (List UInt8) :=
  (bytes.splitOn 10).dropLast

/-- What stands behind the last line feed of a byte string. -/
def openTail (bytes : List UInt8) : List UInt8 :=
  (bytes.splitOn 10).getLastD []

def framedLines (bytes : List UInt8) : List (Except String String) :=
  (endedLines bytes).map fun raw => .ok (framedLine raw true)

def framedTail (bytes : List UInt8) : List (Except String String) :=
  if openTail bytes = [] then [] else [.ok (framedLine (openTail bytes) false)]

/-- The byte strings between the failures of a delivery: each that a failure follows, with the text
of the failure, and the last one. -/
structure Stretches where
  failed : List (List UInt8 × String) := []
  last : List UInt8 := []
  deriving DecidableEq

namespace Stretches

/-- Bytes in front of the first byte string. -/
def prepend (bytes : List UInt8) : Stretches → Stretches
  | ⟨[], last⟩ => ⟨[], bytes ++ last⟩
  | ⟨(first, text) :: failed, last⟩ => ⟨(bytes ++ first, text) :: failed, last⟩

/-- A byte string before a failure gives the lines that have ended, and the failure; the last one
gives its tail as well, if there is one. -/
def results (s : Stretches) : List (Except String String) :=
  s.failed.flatMap (fun stretch => framedLines stretch.1 ++ [.error stretch.2]) ++
    framedLines s.last ++ framedTail s.last

end Stretches

def stretches : List Chunk → Stretches
  | [] => {}
  | .bytes content :: rest => (stretches rest).prepend content
  | .failure text :: rest =>
    { failed := ([], text) :: (stretches rest).failed, last := (stretches rest).last }

/-! ## §2 — lines of a byte string -/

theorem splitOn_of_not_mem {tail : List UInt8} (h : 10 ∉ tail) : tail.splitOn 10 = [tail] :=
  List.splitOnP_eq_singleton fun b hb => by
    rw [beq_eq_false_iff_ne]
    rintro rfl
    exact h hb

/-- The first line feed ends the first line, and the rest is split on its own. -/
theorem splitOn_append_feed {body : List UInt8} (h : 10 ∉ body) (rest : List UInt8) :
    (body ++ 10 :: rest).splitOn 10 = body :: rest.splitOn 10 := by
  unfold List.splitOn
  rw [List.splitOnP_append_cons _ _ (by simp)]
  exact congrArg (· ++ _) (splitOn_of_not_mem h)

theorem endedLines_of_not_mem {tail : List UInt8} (h : 10 ∉ tail) : endedLines tail = [] := by
  rw [endedLines, splitOn_of_not_mem h]
  rfl

theorem openTail_of_not_mem {tail : List UInt8} (h : 10 ∉ tail) : openTail tail = tail := by
  rw [openTail, splitOn_of_not_mem h]
  rfl

theorem endedLines_append_feed {body : List UInt8} (h : 10 ∉ body) (rest : List UInt8) :
    endedLines (body ++ 10 :: rest) = body :: endedLines rest := by
  rw [endedLines, splitOn_append_feed h, List.dropLast_cons_of_ne_nil (List.splitOn_ne_nil _ _)]
  rfl

theorem openTail_append_feed {body : List UInt8} (h : 10 ∉ body) (rest : List UInt8) :
    openTail (body ++ 10 :: rest) = openTail rest := by
  rw [openTail, splitOn_append_feed h, openTail]
  cases hrest : rest.splitOn 10 with
  | nil => exact absurd hrest (List.splitOn_ne_nil _ _)
  | cons line lines => simp [List.getLastD]

/-- The tail has no line feed: it is a line that has not ended. -/
theorem not_mem_openTail (bytes : List UInt8) : 10 ∉ openTail bytes := by
  induction bytes using separator_induction (10 : UInt8) with
  | last tail htail => rwa [openTail_of_not_mem htail]
  | cut body rest hbody ih => rwa [openTail_append_feed hbody]

/-- What comes behind a byte string continues its last line. -/
theorem lines_append (bytes more : List UInt8) :
    endedLines (bytes ++ more) = endedLines bytes ++ endedLines (openTail bytes ++ more) ∧
    openTail (bytes ++ more) = openTail (openTail bytes ++ more) := by
  induction bytes using separator_induction (10 : UInt8) with
  | last tail htail => simp [endedLines_of_not_mem htail, openTail_of_not_mem htail]
  | cut body rest hbody ih =>
    obtain ⟨hlines, htail⟩ := ih
    rw [List.append_assoc, List.cons_append, endedLines_append_feed hbody,
      openTail_append_feed hbody, endedLines_append_feed hbody, openTail_append_feed hbody, hlines,
      htail]
    exact ⟨rfl, rfl⟩

namespace Stretches

@[simp] theorem prepend_nil (s : Stretches) : s.prepend [] = s := by
  obtain ⟨failed, last⟩ := s
  cases failed <;> rfl

theorem prepend_prepend (bytes more : List UInt8) (s : Stretches) :
    (s.prepend more).prepend bytes = s.prepend (bytes ++ more) := by
  obtain ⟨failed, last⟩ := s
  cases failed <;> simp [prepend]

/-- The lines that end in the bytes in front come out first. -/
theorem results_prepend (bytes : List UInt8) (s : Stretches) :
    (s.prepend bytes).results = framedLines bytes ++ (s.prepend (openTail bytes)).results := by
  obtain ⟨failed, last⟩ := s
  cases failed with
  | nil =>
    obtain ⟨hlines, htail⟩ := lines_append bytes last
    have hframed : framedTail (bytes ++ last) = framedTail (openTail bytes ++ last) := by
      rw [framedTail, framedTail, htail]
    simp [prepend, results, framedLines, hframed, hlines]
  | cons stretch failed =>
    obtain ⟨first, text⟩ := stretch
    obtain ⟨hlines, -⟩ := lines_append bytes first
    simp [prepend, results, framedLines, hlines]

end Stretches

/-! ## §3 — the buffer and the bytes of the line under way -/

namespace LineBuffer

/-- The buffer after the bytes `line` of a line that has not ended. -/
def holding (line : List UInt8) : LineBuffer :=
  ⟨line.take maxLineBytes, line.length - maxLineBytes⟩

theorem holding_nil : holding [] = {} := rfl

/-- A buffer that holds the first bytes of a line, fed with more of them, holds them all, up to
the bound. -/
theorem absorb_holding (line bytes : List UInt8) :
    (holding line).absorb bytes = holding (line ++ bytes) := by
  have hroom : maxLineBytes - (line.take maxLineBytes).length = maxLineBytes - line.length := by
    rw [List.length_take]
    omega
  simp only [absorb, holding, hroom, LineBuffer.mk.injEq]
  refine ⟨(List.take_append).symm, ?_⟩
  rw [List.length_append]
  omega

/-- The text of a buffer is that of the line whose bytes it was fed. -/
theorem text_holding (raw : List UInt8) (terminated : Bool) :
    (holding raw).text terminated = framedLine raw terminated := by
  have hbytes : (holding raw).bytes terminated =
      if maxLineBytes < raw.length then raw.take maxLineBytes
      else if terminated ∧ raw.getLast? = some 13 then raw.dropLast
      else raw := by
    by_cases hlong : maxLineBytes < raw.length
    · -- bytes were dropped, so that a carriage return at the end is one of the line itself.
      have hdropped : ¬ raw.length - maxLineBytes = 0 := by omega
      simp [bytes, holding, hlong, hdropped]
    · have hkept : raw.take maxLineBytes = raw := List.take_of_length_le (by omega)
      have hdropped : raw.length - maxLineBytes = 0 := by omega
      simp [bytes, holding, hlong, hkept, hdropped]
  rw [text, hbytes, framedLine]

/-- A buffer is empty just when the line under way is: the bound never cuts a line down to
nothing. -/
theorem kept_holding_eq_nil_iff {line : List UInt8} : (holding line).kept = [] ↔ line = [] := by
  simp [holding, maxLineBytes]

/-- Absorbing never takes a buffer over its bound. -/
theorem length_kept_absorb {b : LineBuffer} (h : b.kept.length ≤ maxLineBytes)
    (bytes : List UInt8) : (b.absorb bytes).kept.length ≤ maxLineBytes := by
  simp only [absorb, List.length_append, List.length_take]
  omega

/-! What one delivery does: its first line ends, or it only continues the line under way. -/

@[simp] theorem absorb_nil (b : LineBuffer) : b.absorb [] = b := by
  simp [absorb]

/-- A delivery without a line feed only continues the line under way. -/
theorem feed_of_not_mem (b : LineBuffer) {content : List UInt8} (h : 10 ∉ content) :
    b.feed content = ([], b.absorb content) := by
  by_cases hcontent : content = []
  · subst hcontent
    simp [feed, feedPieces]
  · rw [feed, pieces_of_not_mem h hcontent]
    rfl

/-- A delivery with a line feed ends the line under way there, and the rest is fed to an empty
buffer. -/
theorem feed_append_feed (b : LineBuffer) {body : List UInt8} (h : 10 ∉ body)
    (rest : List UInt8) :
    b.feed (body ++ 10 :: rest) =
      ((b.absorb body).text true :: (feed {} rest).1, (feed {} rest).2) := by
  rw [feed, pieces_append_separator h]
  rfl

/-- **A delivery** takes the buffer of the bytes before to the buffer of the bytes after. -/
theorem feed_holding {begun : List UInt8} (hbegun : 10 ∉ begun) (content : List UInt8) :
    (holding begun).feed content =
      ((endedLines (begun ++ content)).map (framedLine · true),
        holding (openTail (begun ++ content))) := by
  induction content using separator_induction (10 : UInt8) generalizing begun with
  | last tail htail =>
    have hopen : 10 ∉ begun ++ tail := by simp [hbegun, htail]
    rw [feed_of_not_mem _ htail, absorb_holding, endedLines_of_not_mem hopen,
      openTail_of_not_mem hopen]
    rfl
  | cut body rest hbody ih =>
    have hline : 10 ∉ begun ++ body := by simp [hbegun, hbody]
    have hrest := @ih [] List.not_mem_nil
    rw [holding_nil, List.nil_append] at hrest
    rw [feed_append_feed _ hbody, absorb_holding, text_holding, hrest, ← List.append_assoc,
      endedLines_append_feed hline, openTail_append_feed hline]
    rfl

end LineBuffer

/-! ## §4 — a whole delivery -/

/-- **The results are those of the byte strings**, with the line under way in front. -/
theorem frameFrom_holding {begun : List UInt8} (hbegun : 10 ∉ begun) (chunks : List Chunk) :
    frameFrom (.holding begun) chunks = ((stretches chunks).prepend begun).results := by
  induction chunks generalizing begun with
  | nil =>
    have hprepend : (stretches []).prepend begun = ⟨[], begun⟩ := by
      simp [stretches, Stretches.prepend]
    rw [frameFrom, hprepend, LineBuffer.text_holding]
    simp [Stretches.results, framedLines, framedTail, endedLines_of_not_mem hbegun,
      openTail_of_not_mem hbegun, LineBuffer.kept_holding_eq_nil_iff]
  | cons chunk rest ih =>
    cases chunk with
    | bytes content =>
      rw [frameFrom, LineBuffer.feed_holding hbegun, stretches, Stretches.prepend_prepend,
        Stretches.results_prepend, ← ih (not_mem_openTail _)]
      simp [framedLines]
    | failure text =>
      -- the line under way is lost.
      have hrest := @ih [] List.not_mem_nil
      rw [LineBuffer.holding_nil, Stretches.prepend_nil] at hrest
      rw [frameFrom, hrest, stretches, Stretches.prepend, Stretches.results, Stretches.results]
      simp [framedLines, endedLines_of_not_mem hbegun]

/-- **Reading is by stretches**: how the bytes between two failures were delivered is of no
account. -/
theorem frame_eq_results (chunks : List Chunk) : frame chunks = (stretches chunks).results := by
  rw [frame, ← LineBuffer.holding_nil, frameFrom_holding List.not_mem_nil, Stretches.prepend_nil]

/-! ## §5 — the loop -/

/-- A reader at work: the line under way, and what is still to be delivered. -/
structure LineReader where
  buffer : LineBuffer := {}
  script : List Chunk

namespace LineReader

/-- One round of the loop: a delivery is looked at up to its first line feed. A round that ends a line
or fails returns; `none` is the end of the stream. -/
def pass? (r : LineReader) : Option (LineReader × Option (Except String String)) :=
  match r.script with
  | [] =>
    if r.buffer.kept = [] then none
    else some ({ script := [] }, some (.ok (r.buffer.text false)))
  | .failure text :: rest => some ({ script := rest }, some (.error text))
  | .bytes content :: rest =>
    let buffer := r.buffer.absorb (content.takeWhile (· != 10))
    match content.dropWhile (· != 10) with
    | [] => some (⟨buffer, rest⟩, none)
    | _ :: after => some ({ script := .bytes after :: rest }, some (.ok (buffer.text true)))

/-- Any number of rounds, with what they return. -/
inductive Reads (start : LineReader) : List (Except String String) → LineReader → Prop where
  | refl : Reads start [] start
  | pass {results : List (Except String String)} {r r' : LineReader}
      {result : Option (Except String String)} (h : Reads start results r)
      (hpass : r.pass? = some (r', result)) : Reads start (results ++ result.toList) r'

/-- A delivery has no line feed, or it is cut at its first one. -/
theorem span_feed (content : List UInt8) :
    10 ∉ content.takeWhile (· != 10) ∧
    (content.dropWhile (· != 10) = [] ∧ content.takeWhile (· != 10) = content ∨
    ∃ after, content.dropWhile (· != 10) = 10 :: after ∧
      content = content.takeWhile (· != 10) ++ 10 :: after) := by
  have hnone : 10 ∉ content.takeWhile (· != 10) := fun hmem => by
    simpa using List.mem_takeWhile_imp hmem
  refine ⟨hnone, ?_⟩
  have hsplit := List.takeWhile_append_dropWhile (p := (· != (10 : UInt8))) (l := content)
  cases hdrop : content.dropWhile (· != 10) with
  | nil =>
    rw [hdrop, List.append_nil] at hsplit
    exact Or.inl ⟨rfl, hsplit⟩
  | cons b after =>
    have hb : b = 10 := by
      have hhead : b ∈ (content.dropWhile (· != 10)).head? := by rw [hdrop]; rfl
      simpa using stops_dropWhile hhead
    subst hb
    rw [hdrop] at hsplit
    exact Or.inr ⟨after, rfl, hsplit.symm⟩

/-- **One round** returns what comes next. -/
theorem frameFrom_of_pass? {r r' : LineReader} {result : Option (Except String String)}
    (h : r.pass? = some (r', result)) :
    frameFrom r.buffer r.script = result.toList ++ frameFrom r'.buffer r'.script := by
  obtain ⟨buffer, script⟩ := r
  -- the three things that a round can find: the end of the stream, a failure, and bytes.
  cases script with
  | nil =>
    simp only [pass?] at h
    split at h
    · cases h
    · next hkept =>
      cases h
      simp [frameFrom, hkept]
  | cons chunk rest =>
    cases chunk with
    | failure text =>
      cases h
      rfl
    | bytes content =>
      obtain ⟨hnone, ⟨hdrop, hall⟩ | ⟨after, hdrop, hcut⟩⟩ := span_feed content
      · simp only [pass?, hdrop] at h
        cases h
        rw [frameFrom, LineBuffer.feed_of_not_mem _ (hall ▸ hnone), hall]
        rfl
      · simp only [pass?, hdrop] at h
        cases h
        rw [frameFrom, hcut, LineBuffer.feed_append_feed _ hnone, frameFrom, ← hcut]
        rfl

/-- Where no round is left, nothing comes any more. -/
theorem frameFrom_of_pass?_eq_none {r : LineReader} (h : r.pass? = none) :
    frameFrom r.buffer r.script = [] := by
  obtain ⟨buffer, script⟩ := r
  cases script with
  | nil =>
    simp only [pass?] at h
    split at h
    · next hkept => rw [frameFrom, if_pos hkept]
    · cases h
  | cons chunk rest =>
    cases chunk with
    | failure text => cases h
    | bytes content =>
      simp only [pass?] at h
      split at h <;> cases h

/-- **Any number of rounds** return the first results. -/
theorem frameFrom_of_reads {start r : LineReader} {results : List (Except String String)}
    (h : Reads start results r) :
    frameFrom start.buffer start.script = results ++ frameFrom r.buffer r.script := by
  induction h with
  | refl => rfl
  | pass _ hpass ih => rw [ih, frameFrom_of_pass? hpass, List.append_assoc]

/-- How many rounds some deliveries take, at most. -/
def roundsFor : List Chunk → Nat
  | [] => 0
  | .bytes content :: rest => content.length + 1 + roundsFor rest
  | .failure _ :: rest => 1 + roundsFor rest

/-- How many rounds are left, at most. -/
def roundsLeft (r : LineReader) : Nat :=
  roundsFor r.script + if r.buffer.kept = [] then 0 else 1

/-- Every round uses up bytes or a delivery, so the reading ends. -/
theorem roundsLeft_lt {r r' : LineReader} {result : Option (Except String String)}
    (h : r.pass? = some (r', result)) : r'.roundsLeft < r.roundsLeft := by
  obtain ⟨buffer, script⟩ := r
  cases script with
  | nil =>
    simp only [pass?] at h
    split at h
    · cases h
    · next hkept =>
      cases h
      simp [roundsLeft, hkept]
  | cons chunk rest =>
    cases chunk with
    | failure text =>
      cases h
      simp only [roundsLeft, roundsFor, if_true]
      omega
    | bytes content =>
      obtain ⟨-, ⟨hdrop, hall⟩ | ⟨after, hdrop, hcut⟩⟩ := span_feed content
      · simp only [pass?, hdrop] at h
        cases h
        rw [hall]
        simp only [roundsLeft, roundsFor]
        -- only a delivery that is not empty can begin a line.
        by_cases hempty : content = []
        · subst hempty
          rw [LineBuffer.absorb_nil]
          omega
        · have hpos := List.length_pos_of_ne_nil hempty
          split <;> omega
      · simp only [pass?, hdrop] at h
        cases h
        have hlength := congrArg List.length hcut
        rw [List.length_append, List.length_cons] at hlength
        simp only [roundsLeft, roundsFor, if_true]
        omega

/-- The rounds come to an end. -/
theorem Reads.exists_end {start r : LineReader} {results : List (Except String String)}
    (h : Reads start results r) : ∃ results' last, Reads start results' last ∧ last.pass? = none := by
  induction hleft : r.roundsLeft using Nat.strongRecOn generalizing results r with
  | _ left ih =>
    subst hleft
    cases hpass : r.pass? with
    | none => exact ⟨results, r, h, hpass⟩
    | some next =>
      obtain ⟨r', result⟩ := next
      exact ih r'.roundsLeft (roundsLeft_lt hpass) (h.pass hpass) rfl

/-- A round keeps the buffer within its bound. -/
theorem bounded_of_pass? {r r' : LineReader} {result : Option (Except String String)}
    (h : r.pass? = some (r', result)) (hr : r.buffer.kept.length ≤ maxLineBytes) :
    r'.buffer.kept.length ≤ maxLineBytes := by
  unfold pass? at h
  split at h
  · split at h
    · cases h
    · cases h
      exact Nat.zero_le _
  · cases h
    exact Nat.zero_le _
  · split at h
    · cases h
      exact LineBuffer.length_kept_absorb hr _
    · cases h
      exact Nat.zero_le _

/-- **The buffer never exceeds its bound**, at any point of the reading. -/
theorem Reads.bounded {start r : LineReader} {results : List (Except String String)}
    (h : Reads start results r) (hstart : start.buffer.kept.length ≤ maxLineBytes) :
    r.buffer.kept.length ≤ maxLineBytes := by
  induction h with
  | refl => exact hstart
  | pass _ hpass ih => exact bounded_of_pass? hpass ih

end LineReader

/-- **Line framing does not depend on chunks.** Whatever is delivered, the results are those of the
byte strings between the failures, so deliveries that differ only in their cuts give the same. These
are the results that the rounds of the reader return until the end, which comes; and before every
round the buffer has no more than `maxLineBytes` bytes, and room for the rest of so many. The chunks
are deliveries of at least one byte each: an empty read ends the stream, and with it the list, so
nothing is said here of empty reads between others. -/
theorem framing_independent_of_chunks (chunks : List Chunk) :
    frame chunks = (stretches chunks).results ∧
    (∀ others, stretches others = stretches chunks → frame others = frame chunks) ∧
    (∃ last, LineReader.Reads { script := chunks } (frame chunks) last ∧ last.pass? = none) ∧
    ∀ results r, LineReader.Reads { script := chunks } results r →
      results <+: frame chunks ∧
      r.buffer.kept.length ≤ maxLineBytes ∧
      ∀ bytes, (r.buffer.absorb bytes).kept.length ≤ maxLineBytes := by
  refine ⟨frame_eq_results chunks, ?_, ?_, ?_⟩
  · intro others hsame
    rw [frame_eq_results, frame_eq_results, hsame]
  -- the reader of the loop comes to its end, and what it has read by then is all of it.
  · have hstart : LineReader.Reads { script := chunks } [] { script := chunks } := .refl
    obtain ⟨results, last, hreads, hend⟩ := hstart.exists_end
    have hframe := LineReader.frameFrom_of_reads hreads
    rw [LineReader.frameFrom_of_pass?_eq_none hend, List.append_nil] at hframe
    rw [frame, hframe]
    exact ⟨last, hreads, hend⟩
  · intro results r hreads
    have hbounded := hreads.bounded (Nat.zero_le _)
    exact ⟨⟨_, (LineReader.frameFrom_of_reads hreads).symm⟩, hbounded,
      LineBuffer.length_kept_absorb hbounded⟩

/-- The cut falls between the two bytes that end a line, or before them; then a delivery fails in the
middle of a line. -/
theorem framing_of_cut_line_end :
    let chunks : List Chunk := [.bytes [97, 13], .bytes [10, 98], .failure "broken", .bytes [99]]
    let others : List Chunk := [.bytes [97], .bytes [13, 10, 98], .failure "broken", .bytes [99]]
    stretches others = stretches chunks ∧
    frame others = frame chunks ∧ frame others = [.ok "a", .error "broken", .ok "c"] ∧
    ([] : List (Except String String)) <+: frame chunks ∧ [97, 13].length ≤ maxLineBytes := by
  intro chunks others
  have hsame : stretches others = stretches chunks := by decide
  have hround : LineReader.Reads { script := chunks } ([] ++ Option.toList none)
      ⟨⟨[97, 13], 0⟩, chunks.tail⟩ := .pass .refl rfl
  obtain ⟨-, hcuts, -, hrounds⟩ := framing_independent_of_chunks chunks
  obtain ⟨hpartial, hbounded, -⟩ := hrounds _ _ hround
  exact ⟨hsame, hcuts others hsame, by decide +kernel, hpartial, hbounded⟩

end KspWorkbench
