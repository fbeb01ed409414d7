import KspWorkbench.Text.Utf8
import Mathlib.Data.List.Basic

/-!
# UTF-8 and its bytes

The decoder looks at one byte at a time. What it has read of a character under way fixes the first
bytes of that character, and so a text that is decoded without an ill-formed stretch has only one
encoding.

* **`Promises`** — the bytes that a character under way began with are those of every character that
  it can become.
* **`Reads`** — what holds after every byte, as long as nothing was ill-formed.
* **`decode?_eq_some_iff`** — the strict decoder accepts exactly the encodings of texts.
* **`encode_lt_encode_iff`** — the order of texts by code points is the order of their bytes.
-/

namespace KspWorkbench.Utf8

/-! ## §1 — the bytes of a character -/

/-- Every number that is no surrogate and not too large is one of a character. -/
theorem toNat_ofNat {n : Nat} (h : n < 0xD800 ∨ 0xDFFF < n ∧ n < 0x110000) :
    (Char.ofNat n).val.toNat = n := by
  rw [Char.ofNat, dif_pos h]
  rfl

theorem encodeChar_one {a : UInt8} (ha : a.toNat < 0x80) :
    String.utf8EncodeChar (Char.ofNat a.toNat) = [a] := by
  simp only [String.utf8EncodeChar, toNat_ofNat (show a.toNat < 0xD800 ∨ _ by omega)]
  rw [if_pos (by omega)]
  simp

/-- A character of two bytes, from the bits of both. -/
theorem encodeChar_two {a b : UInt8} (ha : 0xC2 ≤ a.toNat) (ha' : a.toNat ≤ 0xDF)
    (hb : 0x80 ≤ b.toNat) (hb' : b.toNat ≤ 0xBF) :
    String.utf8EncodeChar (Char.ofNat ((a.toNat - 0xC0) * 64 + (b.toNat - 0x80))) = [a, b] := by
  have hv : (Char.ofNat ((a.toNat - 0xC0) * 64 + (b.toNat - 0x80))).val.toNat =
      (a.toNat - 0xC0) * 64 + (b.toNat - 0x80) := toNat_ofNat (by omega)
  simp only [String.utf8EncodeChar, hv]
  rw [if_neg (by omega), if_pos (by omega)]
  simp only [List.cons.injEq, and_true, ← UInt8.toNat_inj, UInt8.toNat_ofNat']
  omega

/-- The second byte excludes the longer encodings of small numbers and the surrogates. -/
theorem encodeChar_three {a b c : UInt8} (ha : 0xE0 ≤ a.toNat) (ha' : a.toNat ≤ 0xEF)
    (hb : 0x80 ≤ b.toNat) (hb' : b.toNat ≤ 0xBF) (hlow : a.toNat = 0xE0 → 0xA0 ≤ b.toNat)
    (hhigh : a.toNat = 0xED → b.toNat ≤ 0x9F) (hc : 0x80 ≤ c.toNat) (hc' : c.toNat ≤ 0xBF) :
    String.utf8EncodeChar (Char.ofNat
      (((a.toNat - 0xE0) * 64 + (b.toNat - 0x80)) * 64 + (c.toNat - 0x80))) = [a, b, c] := by
  have hv : (Char.ofNat
      (((a.toNat - 0xE0) * 64 + (b.toNat - 0x80)) * 64 + (c.toNat - 0x80))).val.toNat =
      ((a.toNat - 0xE0) * 64 + (b.toNat - 0x80)) * 64 + (c.toNat - 0x80) := toNat_ofNat (by omega)
  simp only [String.utf8EncodeChar, hv]
  rw [if_neg (by omega), if_neg (by omega), if_pos (by omega)]
  simp only [List.cons.injEq, and_true, ← UInt8.toNat_inj, UInt8.toNat_ofNat']
  omega

/-- The second byte excludes the longer encodings of small numbers and too great numbers. -/
theorem encodeChar_four {a b c d : UInt8} (ha : 0xF0 ≤ a.toNat) (ha' : a.toNat ≤ 0xF4)
    (hb : 0x80 ≤ b.toNat) (hb' : b.toNat ≤ 0xBF) (hlow : a.toNat = 0xF0 → 0x90 ≤ b.toNat)
    (hhigh : a.toNat = 0xF4 → b.toNat ≤ 0x8F) (hc : 0x80 ≤ c.toNat) (hc' : c.toNat ≤ 0xBF)
    (hd : 0x80 ≤ d.toNat) (hd' : d.toNat ≤ 0xBF) :
    String.utf8EncodeChar (Char.ofNat
      ((((a.toNat - 0xF0) * 64 + (b.toNat - 0x80)) * 64 + (c.toNat - 0x80)) * 64 +
        (d.toNat - 0x80))) = [a, b, c, d] := by
  have hv : (Char.ofNat
      ((((a.toNat - 0xF0) * 64 + (b.toNat - 0x80)) * 64 + (c.toNat - 0x80)) * 64 +
        (d.toNat - 0x80))).val.toNat =
      (((a.toNat - 0xF0) * 64 + (b.toNat - 0x80)) * 64 + (c.toNat - 0x80)) * 64 +
        (d.toNat - 0x80) := toNat_ofNat (by omega)
  simp only [String.utf8EncodeChar, hv]
  rw [if_neg (by omega), if_neg (by omega), if_neg (by omega)]
  simp only [List.cons.injEq, and_true, ← UInt8.toNat_inj, UInt8.toNat_ofNat']
  omega

/-! ## §2 — a character under way -/

/-- The bytes that can follow where some are owed, the next one between two limits. -/
inductive Follows : Nat → Nat → Nat → List UInt8 → Prop where
  | last {low high : Nat} {b : UInt8} (hlow : low ≤ b.toNat) (hhigh : b.toNat ≤ high) :
      Follows 1 low high [b]
  | more {owed low high : Nat} {b : UInt8} {rest : List UInt8} (hlow : low ≤ b.toNat)
      (hhigh : b.toNat ≤ high) (hrest : Follows (owed + 1) 0x80 0xBF rest) :
      Follows (owed + 2) low high (b :: rest)

/-- The number of a character whose first bytes gave `bits` and which ends with `rest`. -/
def number (bits : Nat) (rest : List UInt8) : Nat :=
  rest.foldl (fun bits b => bits * 64 + (b.toNat - 0x80)) bits

/-- Each byte that follows adds six bits. -/
theorem number_cons (bits : Nat) (b : UInt8) (rest : List UInt8) :
    number bits (b :: rest) = number (bits * 64 + (b.toNat - 0x80)) rest := by
  rw [number, List.foldl_cons, number]

/-- **What was read of a character** are the first bytes of whatever it becomes. -/
structure Promises (owed low high bits : Nat) (read : List UInt8) : Prop where
  owed_pos : 0 < owed
  encodeChar_eq : ∀ rest, Follows owed low high rest →
    String.utf8EncodeChar (Char.ofNat (number bits rest)) = read ++ rest

/-- A character under way is completed by the bytes that it is owed. -/
theorem foldl_step_follows {owed low high : Nat} {rest : List UInt8}
    (h : Follows owed low high rest) (bits : Nat) (done : List (Option Char)) :
    rest.foldl State.step ⟨done, some ⟨owed, low, high, bits⟩⟩ =
      ⟨some (Char.ofNat (number bits rest)) :: done, none⟩ := by
  induction h generalizing bits with
  | last hlow hhigh =>
    simp only [List.foldl_cons, List.foldl_nil, State.step, number]
    rw [if_pos ⟨hlow, hhigh⟩, if_pos (Nat.le_refl 1)]
  | more hlow hhigh _ ih =>
    simp only [List.foldl_cons, State.step]
    rw [if_pos ⟨hlow, hhigh⟩, if_neg (by omega), number_cons]
    exact ih _

/-- The first byte of two, with the range of the next one. -/
theorem promises_two {a : UInt8} (ha : 0xC2 ≤ a.toNat) (ha' : a.toNat ≤ 0xDF) :
    Promises 1 0x80 0xBF (a.toNat - 0xC0) [a] := by
  refine ⟨by omega, fun rest hrest => ?_⟩
  cases hrest with
  | last hb hb' => exact encodeChar_two ha ha' hb hb'

/-- The first byte of three. After `E0` the range excludes overlong forms, and after `ED`
surrogates. -/
theorem promises_three {a : UInt8} {low high : Nat} (ha : 0xE0 ≤ a.toNat) (ha' : a.toNat ≤ 0xEF)
    (hlow : 0x80 ≤ low) (hhigh : high ≤ 0xBF) (hlow' : a.toNat = 0xE0 → 0xA0 ≤ low)
    (hhigh' : a.toNat = 0xED → high ≤ 0x9F) :
    Promises 2 low high (a.toNat - 0xE0) [a] := by
  refine ⟨by omega, fun rest hrest => ?_⟩
  cases hrest with
  | more hb hb' hrest =>
    cases hrest with
    | last hc hc' =>
      exact encodeChar_three ha ha' (by omega) (by omega) (by omega) (by omega) hc hc'

/-- The first byte of four. After `F0` the range excludes overlong forms, and after `F4` numbers
that are too large. -/
theorem promises_four {a : UInt8} {low high : Nat} (ha : 0xF0 ≤ a.toNat) (ha' : a.toNat ≤ 0xF4)
    (hlow : 0x80 ≤ low) (hhigh : high ≤ 0xBF) (hlow' : a.toNat = 0xF0 → 0x90 ≤ low)
    (hhigh' : a.toNat = 0xF4 → high ≤ 0x8F) :
    Promises 3 low high (a.toNat - 0xF0) [a] := by
  refine ⟨by omega, fun rest hrest => ?_⟩
  cases hrest with
  | more hb hb' hrest =>
    cases hrest with
    | more hc hc' hrest =>
      cases hrest with
      | last hd hd' =>
        exact encodeChar_four ha ha' (by omega) (by omega) (by omega) (by omega) hc hc' hd hd'

/-! ## §3 — the first byte of a character -/

theorem first_one (done : List (Option Char)) {n : Nat} (h : n < 0x80) :
    State.first done n = ⟨some (Char.ofNat n) :: done, none⟩ := by
  rw [State.first, if_pos h]

theorem first_two (done : List (Option Char)) {n : Nat} (h : 0xC2 ≤ n) (h' : n ≤ 0xDF) :
    State.first done n = ⟨done, some ⟨1, 0x80, 0xBF, n - 0xC0⟩⟩ := by
  rw [State.first, if_neg (by omega), if_pos ⟨h, h'⟩]

theorem first_three (done : List (Option Char)) {n : Nat} (h : 0xE0 ≤ n) (h' : n ≤ 0xEF) :
    State.first done n =
      ⟨done, some ⟨2, if n = 0xE0 then 0xA0 else 0x80, if n = 0xED then 0x9F else 0xBF,
        n - 0xE0⟩⟩ := by
  rw [State.first, if_neg (by omega), if_neg (by omega)]
  by_cases hE0 : n = 0xE0
  · rw [if_pos hE0, hE0]
    rfl
  · by_cases hED : n = 0xED
    · rw [if_neg hE0, if_pos hED, hED]
      rfl
    · rw [if_neg hE0, if_neg hED, if_pos (by omega), if_neg hE0, if_neg hED]

theorem first_four (done : List (Option Char)) {n : Nat} (h : 0xF0 ≤ n) (h' : n ≤ 0xF4) :
    State.first done n =
      ⟨done, some ⟨3, if n = 0xF0 then 0x90 else 0x80, if n = 0xF4 then 0x8F else 0xBF,
        n - 0xF0⟩⟩ := by
  rw [State.first, if_neg (by omega), if_neg (by omega), if_neg (by omega), if_neg (by omega),
    if_neg (by omega)]
  by_cases hF0 : n = 0xF0
  · rw [if_pos hF0, hF0]
    rfl
  · by_cases hF4 : n = 0xF4
    · rw [if_neg hF0, if_pos hF4, hF4]
      rfl
    · rw [if_neg hF0, if_neg hF4, if_pos (by omega), if_neg hF0, if_neg hF4]

/-- A byte that begins no character is an error. -/
theorem first_none (done : List (Option Char)) {n : Nat} (h : 0x80 ≤ n)
    (h' : n < 0xC2 ∨ 0xF4 < n) : State.first done n = ⟨none :: done, none⟩ := by
  rw [State.first, if_neg (by omega), if_neg (by omega), if_neg (by omega), if_neg (by omega),
    if_neg (by omega), if_neg (by omega), if_neg (by omega), if_neg (by omega)]

/-- **The first byte of a character** is the whole of it, or begins one, or is ill-formed. -/
theorem first_cases (done : List (Option Char)) (a : UInt8) :
    (a.toNat < 0x80 ∧ State.first done a.toNat = ⟨some (Char.ofNat a.toNat) :: done, none⟩) ∨
    (∃ owed low high bits, State.first done a.toNat = ⟨done, some ⟨owed, low, high, bits⟩⟩ ∧
      Promises owed low high bits [a]) ∨
    State.first done a.toNat = ⟨none :: done, none⟩ := by
  rcases Nat.lt_or_ge a.toNat 0x80 with hone | hmore
  · exact Or.inl ⟨hone, first_one done hone⟩
  · by_cases htwo : 0xC2 ≤ a.toNat ∧ a.toNat ≤ 0xDF
    · exact Or.inr (Or.inl ⟨_, _, _, _, first_two done htwo.1 htwo.2, promises_two htwo.1 htwo.2⟩)
    · by_cases hthree : 0xE0 ≤ a.toNat ∧ a.toNat ≤ 0xEF
      · refine Or.inr (Or.inl ⟨_, _, _, _, first_three done hthree.1 hthree.2, ?_⟩)
        refine promises_three hthree.1 hthree.2 ?_ ?_ ?_ ?_ <;> split <;> omega
      · by_cases hfour : 0xF0 ≤ a.toNat ∧ a.toNat ≤ 0xF4
        · refine Or.inr (Or.inl ⟨_, _, _, _, first_four done hfour.1 hfour.2, ?_⟩)
          refine promises_four hfour.1 hfour.2 ?_ ?_ ?_ ?_ <;> split <;> omega
        · exact Or.inr (Or.inr (first_none done hmore (by omega)))

/-! ## §4 — decoding -/

/-- **What was read so far**, as long as nothing was ill-formed: the bytes of the finished
characters and the first bytes of the one under way. -/
inductive Reads : List UInt8 → State → Prop where
  | whole (chars : List Char) :
      Reads (chars.flatMap String.utf8EncodeChar) ⟨(chars.map some).reverse, none⟩
  | underway (chars : List Char) {read : List UInt8} {owed low high bits : Nat}
      (h : Promises owed low high bits read) :
      Reads (chars.flatMap String.utf8EncodeChar ++ read)
        ⟨(chars.map some).reverse, some ⟨owed, low, high, bits⟩⟩

theorem Reads.char {read : List UInt8} {chars : List Char} {c : Char} {bytes : List UInt8}
    (hread : read = chars.flatMap String.utf8EncodeChar ++ bytes)
    (hc : String.utf8EncodeChar c = bytes) :
    Reads read ⟨some c :: (chars.map some).reverse, none⟩ := by
  have hwhole := Reads.whole (chars ++ [c])
  simpa [hread, hc] using hwhole

theorem suffix_done_first (done : List (Option Char)) (a : UInt8) :
    done <:+ (State.first done a.toNat).done := by
  rcases first_cases done a with ⟨-, h⟩ | ⟨_, _, _, _, h, -⟩ | h
  · rw [h]
    exact List.suffix_cons _ _
  · simp [h]
  · rw [h]
    exact List.suffix_cons _ _

theorem suffix_done_step (s : State) (a : UInt8) : s.done <:+ (s.step a).done := by
  obtain ⟨done, underway⟩ := s
  cases underway with
  | none => exact suffix_done_first done a
  | some p =>
    simp only [State.step]
    split_ifs
    · exact List.suffix_cons _ done
    · exact List.suffix_refl done
    · exact (List.suffix_cons none done).trans (suffix_done_first _ a)

theorem suffix_done_foldl (bytes : List UInt8) (s : State) :
    s.done <:+ (bytes.foldl State.step s).done := by
  induction bytes generalizing s with
  | nil => exact List.suffix_refl _
  | cons a bytes ih => exact (suffix_done_step s a).trans (ih (s.step a))

/-- After whole characters, a byte begins the next one or is an error. -/
theorem Reads.first {chars : List Char} (a : UInt8) :
    none ∈ (State.first (chars.map some).reverse a.toNat).done ∨
      Reads (chars.flatMap String.utf8EncodeChar ++ [a])
        (State.first (chars.map some).reverse a.toNat) := by
  rcases first_cases (chars.map some).reverse a with ⟨hone, h⟩ | ⟨_, _, _, _, h, hpromises⟩ | h
  · rw [h]
    exact Or.inr (Reads.char rfl (encodeChar_one hone))
  · rw [h]
    exact Or.inr (Reads.underway chars hpromises)
  · rw [h]
    exact Or.inl List.mem_cons_self

/-- **One more byte** keeps what was read, or is ill-formed. -/
theorem Reads.step {read : List UInt8} {s : State} (h : Reads read s) (a : UInt8) :
    none ∈ (s.step a).done ∨ Reads (read ++ [a]) (s.step a) := by
  cases h with
  | whole chars => exact Reads.first a
  | @underway chars read owed low high bits hpromises =>
    simp only [State.step]
    -- a byte in range completes the character or takes it further, and any other byte is an
    -- error.
    by_cases hrange : low ≤ a.toNat ∧ a.toNat ≤ high
    · rw [if_pos hrange]
      have howed := hpromises.owed_pos
      refine Or.inr ?_
      match owed, howed with
      | 1, _ =>
        rw [if_pos (Nat.le_refl 1)]
        refine Reads.char (List.append_assoc _ _ _) ?_
        exact hpromises.encodeChar_eq [a] (.last hrange.1 hrange.2)
      | owed + 2, _ =>
        rw [if_neg (by omega), List.append_assoc]
        refine Reads.underway chars ⟨by omega, fun rest hrest => ?_⟩
        rw [List.append_assoc, ← number_cons]
        exact hpromises.encodeChar_eq (a :: rest) (.more hrange.1 hrange.2 hrest)
    · rw [if_neg hrange]
      exact Or.inl ((suffix_done_first _ a).subset List.mem_cons_self)

/-- **A whole run of bytes** keeps what was read, or is ill-formed. -/
theorem Reads.foldl {read : List UInt8} {s : State} (h : Reads read s) (bytes : List UInt8) :
    none ∈ (bytes.foldl State.step s).done ∨ Reads (read ++ bytes) (bytes.foldl State.step s) := by
  induction bytes generalizing read s with
  | nil =>
    rw [List.append_nil]
    exact Or.inr h
  | cons a bytes ih =>
    rcases h.step a with hnone | hread
    · exact Or.inl ((suffix_done_foldl bytes _).subset hnone)
    · rw [List.append_cons]
      exact ih hread

/-- A character is decoded from its first byte and those that follow. -/
theorem foldl_step_cons {a : UInt8} {rest : List UInt8} {owed low high bits : Nat} {c : Char}
    {done : List (Option Char)}
    (hfirst : State.first done a.toNat = ⟨done, some ⟨owed, low, high, bits⟩⟩)
    (hrest : Follows owed low high rest) (hnumber : number bits rest = c.val.toNat) :
    (a :: rest).foldl State.step ⟨done, none⟩ = ⟨some c :: done, none⟩ := by
  have hchar : Char.ofNat (number bits rest) = c := by
    rw [hnumber]
    exact Char.ofNat_toNat c
  rw [← hchar, ← foldl_step_follows hrest bits done, List.foldl_cons, State.step, hfirst]

theorem toNat_byte {n : Nat} (h : n < 256) : (UInt8.ofNat n).toNat = n := by
  rw [UInt8.toNat_ofNat']
  omega

/-- **The bytes of a character** are read as this character. -/
theorem foldl_step_encodeChar (c : Char) (done : List (Option Char)) :
    (String.utf8EncodeChar c).foldl State.step ⟨done, none⟩ = ⟨some c :: done, none⟩ := by
  have hvalid : c.val.toNat < 0xD800 ∨ 0xDFFF < c.val.toNat ∧ c.val.toNat < 0x110000 := c.valid
  simp only [String.utf8EncodeChar]
  generalize hv : c.val.toNat = v at hvalid
  have hlast : (UInt8.ofNat (v % 64 + 128)).toNat = v % 64 + 128 := toNat_byte (by omega)
  have hmiddle : (UInt8.ofNat (v / 64 % 64 + 128)).toNat = v / 64 % 64 + 128 :=
    toNat_byte (by omega)
  -- by the number of bytes; in each case the bits of the bytes make up the number again.
  split_ifs with hone htwo hthree
  · simp only [List.foldl_cons, List.foldl_nil, State.step, toNat_byte (show v < 256 by omega)]
    rw [first_one done (by omega), ← hv]
    exact congrArg (fun c => State.mk (some c :: done) none) (Char.ofNat_toNat c)
  · have hlead : (UInt8.ofNat (v / 64 % 32 + 192)).toNat = v / 64 % 32 + 192 :=
      toNat_byte (by omega)
    refine foldl_step_cons (first_two done (by omega) (by omega)) (.last (by omega) (by omega)) ?_
    simp only [number, List.foldl_cons, List.foldl_nil, hlead, hlast]
    omega
  · have hlead : (UInt8.ofNat (v / 4096 % 16 + 224)).toNat = v / 4096 % 16 + 224 :=
      toNat_byte (by omega)
    refine foldl_step_cons (first_three done (by omega) (by omega))
      (.more ?_ ?_ (.last (by omega) (by omega))) ?_
    · split <;> omega
    · split <;> omega
    · simp only [number, List.foldl_cons, List.foldl_nil, hlead, hmiddle, hlast]
      omega
  · have hlead : (UInt8.ofNat (v / 262144 % 8 + 240)).toNat = v / 262144 % 8 + 240 :=
      toNat_byte (by omega)
    have hsecond : (UInt8.ofNat (v / 4096 % 64 + 128)).toNat = v / 4096 % 64 + 128 :=
      toNat_byte (by omega)
    refine foldl_step_cons (first_four done (by omega) (by omega))
      (.more ?_ ?_ (.more (by omega) (by omega) (.last (by omega) (by omega)))) ?_
    · split <;> omega
    · split <;> omega
    · simp only [number, List.foldl_cons, List.foldl_nil, hlead, hsecond, hmiddle, hlast]
      omega

/-- **Decoding undoes encoding.** -/
theorem scan_flatMap (chars : List Char) :
    scan (chars.flatMap String.utf8EncodeChar) = chars.map some := by
  have hfold : ∀ done : List (Option Char),
      (chars.flatMap String.utf8EncodeChar).foldl State.step ⟨done, none⟩ =
        ⟨(chars.map some).reverse ++ done, none⟩ := by
    induction chars with
    | nil => exact fun _ => rfl
    | cons c chars ih =>
      intro done
      rw [List.flatMap_cons, List.foldl_append, foldl_step_encodeChar, ih]
      simp
  simp [scan, hfold]

/-- **Strict decoding** accepts exactly the bytes of texts. -/
theorem decode?_eq_some_iff {bytes : List UInt8} {chars : List Char} :
    decode? bytes = some chars ↔ bytes = chars.flatMap String.utf8EncodeChar := by
  constructor
  · intro h
    have hall : ∀ c ∈ scan bytes, c.isSome = true := by
      by_contra hnot
      rw [decode?, if_neg (by simpa using hnot)] at h
      cases h
    have hfold : none ∈ (bytes.foldl State.step ⟨[], none⟩).done ∨
        Reads bytes (bytes.foldl State.step ⟨[], none⟩) := (Reads.whole []).foldl bytes
    -- an ill-formed stretch or a character that was cut would have been refused.
    rcases hfold with hnone | hread
    · have hmem : none ∈ scan bytes := by
        unfold scan
        dsimp only
        split
        · exact List.mem_reverse.mpr hnone
        · exact List.mem_reverse.mpr (List.mem_cons_of_mem _ hnone)
      cases hall none hmem
    · generalize hlast : bytes.foldl State.step ⟨[], none⟩ = last at hread
      cases hread with
      | whole chars' =>
        have hchars : chars' = chars := by simpa [decode?, scan_flatMap] using h
        rw [hchars]
      | @underway chars' read owed low high bits hpromises =>
        have hmem : none ∈ scan (chars'.flatMap String.utf8EncodeChar ++ read) := by
          rw [scan, hlast]
          simp
        cases hall none hmem
  · rintro rfl
    simp [decode?, scan_flatMap]

theorem toList_loop_eq (bytes : ByteArray) (i : Nat) (acc : List UInt8) :
    ByteArray.toList.loop bytes i acc = acc.reverse ++ bytes.data.toList.drop i := by
  fun_induction ByteArray.toList.loop bytes i acc with
  | case1 i acc h ih =>
    have hi : i < bytes.data.toList.length := by simpa using h
    rw [ih, List.drop_eq_getElem_cons hi]
    simp [ByteArray.get!, h]
  | case2 i acc h =>
    rw [List.drop_eq_nil_of_le (by simpa using Nat.le_of_not_lt h)]
    simp

theorem encode_ofList (chars : List Char) :
    encode (String.ofList chars) = chars.flatMap String.utf8EncodeChar := by
  rw [encode, String.toUTF8_eq_toByteArray, ByteArray.toList, toList_loop_eq, List.drop_zero,
    String.toByteArray_ofList]
  exact List.toList_data_toByteArray

/-- A text is encoded character by character. -/
theorem encode_eq_flatMap (text : String) :
    encode text = text.toList.flatMap String.utf8EncodeChar := by
  rw [← encode_ofList, String.ofList_toList]

/-! ## §5 — the order of bytes -/

/-- Strings of the same length decide the order, whatever follows them. -/
theorem append_lt_append_of_lt {xs ys : List UInt8} (hlength : xs.length = ys.length)
    (hlt : xs < ys) (s t : List UInt8) : xs ++ s < ys ++ t := by
  induction xs generalizing ys with
  | nil =>
    cases ys with
    | nil => exact absurd hlt (by simp)
    | cons y ys => cases hlength
  | cons x xs ih =>
    cases ys with
    | nil => cases hlength
    | cons y ys =>
      rw [List.cons_append, List.cons_append, List.cons_lt_cons_iff]
      rcases List.cons_lt_cons_iff.mp hlt with hfirst | ⟨hfirst, hrest⟩
      · exact Or.inl hfirst
      · exact Or.inr ⟨hfirst, ih (Nat.succ.inj hlength) hrest⟩

/-- The order of byte strings, by their first bytes. -/
theorem byte_cons_lt_iff {m n : Nat} (hm : m < 256) (hn : n < 256) {xs ys : List UInt8} :
    UInt8.ofNat m :: xs < UInt8.ofNat n :: ys ↔ m < n ∨ m = n ∧ xs < ys := by
  rw [List.cons_lt_cons_iff, UInt8.lt_iff_toNat_lt, ← UInt8.toNat_inj, toNat_byte hm, toNat_byte hn]

/-- Where the first bytes differ, nothing else counts. -/
theorem cons_append_lt {m n : Nat} (hlt : m < n) (hn : n < 256) (xs ys s t : List UInt8) :
    UInt8.ofNat m :: xs ++ s < UInt8.ofNat n :: ys ++ t :=
  (byte_cons_lt_iff (Nat.lt_trans hlt hn) hn).mpr (Or.inl hlt)

/-- **A lower code point has lower bytes**, whatever follows. -/
theorem encodeChar_append_lt {c d : Char} (h : c < d) (s t : List UInt8) :
    String.utf8EncodeChar c ++ s < String.utf8EncodeChar d ++ t := by
  have hlt : c.val.toNat < d.val.toNat := h
  have hvalid : d.val.toNat < 0xD800 ∨ 0xDFFF < d.val.toNat ∧ d.val.toNat < 0x110000 := d.valid
  simp only [String.utf8EncodeChar]
  generalize c.val.toNat = v at hlt
  generalize d.val.toNat = w at hlt hvalid
  -- encodings of the same length differ in a digit; a longer one has a greater first byte.
  split_ifs
  · exact cons_append_lt hlt (by omega) [] [] s t
  · exact cons_append_lt (by omega) (by omega) [] _ s t
  · exact cons_append_lt (by omega) (by omega) [] _ s t
  · exact cons_append_lt (by omega) (by omega) [] _ s t
  · omega
  · refine append_lt_append_of_lt (by rfl) ?_ s t
    simp (disch := omega) only [byte_cons_lt_iff, List.not_lt_nil, and_false, or_false]
    omega
  · exact cons_append_lt (by omega) (by omega) _ _ s t
  · exact cons_append_lt (by omega) (by omega) _ _ s t
  · omega
  · omega
  · refine append_lt_append_of_lt (by rfl) ?_ s t
    simp (disch := omega) only [byte_cons_lt_iff, List.not_lt_nil, and_false, or_false]
    omega
  · exact cons_append_lt (by omega) (by omega) _ _ s t
  · omega
  · omega
  · omega
  · refine append_lt_append_of_lt (by rfl) ?_ s t
    have hlast : v / 64 < w / 64 ∨ v / 64 = w / 64 ∧ v % 64 < w % 64 := by omega
    have hthird : v / 64 < w / 64 → v / 4096 < w / 4096 ∨
        v / 4096 = w / 4096 ∧ v / 64 % 64 < w / 64 % 64 := by omega
    have hsecond : v / 4096 < w / 4096 → v / 262144 < w / 262144 ∨
        v / 262144 = w / 262144 ∧ v / 4096 % 64 < w / 4096 % 64 := by omega
    have hlead : v / 262144 % 8 = v / 262144 ∧ w / 262144 % 8 = w / 262144 := by omega
    simp (disch := omega) only [byte_cons_lt_iff, List.not_lt_nil, and_false, or_false]
    omega

/-- **Encoding keeps the order**: texts compare as their bytes do. -/
theorem flatMap_encodeChar_lt {cs ds : List Char} (h : cs < ds) :
    cs.flatMap String.utf8EncodeChar < ds.flatMap String.utf8EncodeChar := by
  induction cs generalizing ds with
  | nil =>
    cases ds with
    | nil => exact absurd h (by simp)
    | cons d ds =>
      have hne : String.utf8EncodeChar d ≠ [] := by simp
      obtain ⟨byte, bytes, hbytes⟩ := List.exists_cons_of_ne_nil hne
      rw [List.flatMap_cons, hbytes]
      exact List.nil_lt_cons byte _
  | cons c cs ih =>
    cases ds with
    | nil => exact absurd h (by simp)
    | cons d ds =>
      rw [List.flatMap_cons, List.flatMap_cons]
      rcases List.cons_lt_cons_iff.mp h with hlt | ⟨rfl, hlt⟩
      -- the first characters differ, and their bytes decide before either ends.
      · exact encodeChar_append_lt hlt _ _
      · exact List.append_left_lt (ih hlt)

/-- **The order of texts is the order of their bytes.** -/
theorem encode_lt_encode_iff {a b : String} : encode a < encode b ↔ a < b := by
  have himp : ∀ {a b : String}, a < b → encode a < encode b := by
    intro a b hlt
    rw [encode_eq_flatMap, encode_eq_flatMap]
    exact flatMap_encodeChar_lt hlt
  refine ⟨fun hlt => ?_, himp⟩
  by_contra hnot
  by_cases heq : a = b
  · rw [heq] at hlt
    exact List.lt_irrefl _ hlt
  · have hba : b < a := by
      by_contra hnot'
      exact heq (String.le_antisymm (String.not_lt.mp hnot') (String.not_lt.mp hnot))
    exact List.lt_asymm hlt (himp hba)

end KspWorkbench.Utf8
