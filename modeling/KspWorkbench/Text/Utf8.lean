/-!
# UTF-8

Decoding of bytes by an automaton that looks at one byte at a time. A byte that cannot continue
the character under way ends it as ill-formed and is looked at again as a first byte. Lossy
decoding writes one replacement character for each ill-formed stretch; strict decoding refuses.
-/

namespace KspWorkbench.Utf8

/-- A character of which some bytes are still owed: how many, the least and the greatest that may
come next, and the bits read so far. -/
structure Partial where
  owed : Nat
  low : Nat
  high : Nat
  bits : Nat
  deriving DecidableEq, Repr

/-- What the automaton has read: the characters so far, the last one first, where `none` stands
for an ill-formed stretch, and the character under way. -/
structure State where
  done : List (Option Char)
  open? : Option Partial
  deriving DecidableEq, Repr

/-- Reads a byte in the position of a first byte. -/
def State.first (done : List (Option Char)) (b : Nat) : State :=
  if b < 0x80 then ⟨some (Char.ofNat b) :: done, none⟩
  else if 0xC2 ≤ b ∧ b ≤ 0xDF then ⟨done, some ⟨1, 0x80, 0xBF, b - 0xC0⟩⟩
  else if b = 0xE0 then ⟨done, some ⟨2, 0xA0, 0xBF, 0⟩⟩
  else if b = 0xED then ⟨done, some ⟨2, 0x80, 0x9F, 0xD⟩⟩
  else if 0xE1 ≤ b ∧ b ≤ 0xEF then ⟨done, some ⟨2, 0x80, 0xBF, b - 0xE0⟩⟩
  else if b = 0xF0 then ⟨done, some ⟨3, 0x90, 0xBF, 0⟩⟩
  else if b = 0xF4 then ⟨done, some ⟨3, 0x80, 0x8F, 4⟩⟩
  else if 0xF1 ≤ b ∧ b ≤ 0xF3 then ⟨done, some ⟨3, 0x80, 0xBF, b - 0xF0⟩⟩
  else ⟨none :: done, none⟩

def State.step (s : State) (byte : UInt8) : State :=
  let b := byte.toNat
  match s.open? with
  | none => State.first s.done b
  | some p =>
    if p.low ≤ b ∧ b ≤ p.high then
      let bits := p.bits * 64 + (b - 0x80)
      if p.owed ≤ 1 then ⟨some (Char.ofNat bits) :: s.done, none⟩
      else ⟨s.done, some ⟨p.owed - 1, 0x80, 0xBF, bits⟩⟩
    else State.first (none :: s.done) b

/-- The characters of `bytes` in order, with `none` for each ill-formed stretch. -/
def scan (bytes : List UInt8) : List (Option Char) :=
  let s := bytes.foldl State.step ⟨[], none⟩
  match s.open? with
  | none => s.done.reverse
  | some _ => (none :: s.done).reverse

/-- Decodes `bytes`, writing U+FFFD for each ill-formed stretch. -/
def decodeLossy (bytes : List UInt8) : List Char :=
  (scan bytes).map (·.getD '\uFFFD')

/-- Decodes `bytes` if all of them are well-formed. -/
def decode? (bytes : List UInt8) : Option (List Char) :=
  let chars := scan bytes
  if chars.all Option.isSome then some (chars.filterMap id) else none

def encode (text : String) : List UInt8 :=
  text.toUTF8.toList

end KspWorkbench.Utf8
