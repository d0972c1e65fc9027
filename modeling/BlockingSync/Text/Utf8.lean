/-
Characters as sequences of one to four bytes, and back.

A leading byte tells how many continuation bytes follow and, to rule out longer
spellings and surrogates, the range of the first of them.  Decoding stops at the
first byte that does not fit; the fault tells where the sequence began and how many
of its bytes were good, or that the bytes ran out inside it.
-/

namespace BlockingSync.Text.Utf8

/-- The bytes of a character. -/
def encodeChar (c : Char) : List UInt8 :=
  let n := c.toNat
  if n < 0x80 then
    [UInt8.ofNat n]
  else if n < 0x800 then
    [UInt8.ofNat (0xC0 + n / 64), UInt8.ofNat (0x80 + n % 64)]
  else if n < 0x10000 then
    [UInt8.ofNat (0xE0 + n / 4096), UInt8.ofNat (0x80 + n / 64 % 64), UInt8.ofNat (0x80 + n % 64)]
  else
    [UInt8.ofNat (0xF0 + n / 262144), UInt8.ofNat (0x80 + n / 4096 % 64),
      UInt8.ofNat (0x80 + n / 64 % 64), UInt8.ofNat (0x80 + n % 64)]

/-- The bytes of a text. -/
def encode (cs : List Char) : List UInt8 :=
  cs.flatMap encodeChar

/-- What a leading byte announces. -/
structure Lead where
  /-- The bits it contributes. -/
  bits : Nat
  /-- How many continuation bytes follow. -/
  more : Nat
  /-- The least value of the first of them. -/
  low : Nat := 0x80
  /-- The greatest value of the first of them. -/
  high : Nat := 0xBF

/-- Reads a leading byte; continuation bytes and the bytes that never occur announce nothing. -/
def lead? (b : Nat) : Option Lead :=
  if b < 0x80 then some { bits := b, more := 0 }
  else if b < 0xC2 then none
  else if b < 0xE0 then some { bits := b - 0xC0, more := 1 }
  else if b = 0xE0 then some { bits := 0, more := 2, low := 0xA0 }
  else if b = 0xED then some { bits := 0xD, more := 2, high := 0x9F }
  else if b < 0xF0 then some { bits := b - 0xE0, more := 2 }
  else if b = 0xF0 then some { bits := 0, more := 3, low := 0x90 }
  else if b < 0xF4 then some { bits := b - 0xF0, more := 3 }
  else if b = 0xF4 then some { bits := 4, more := 3, high := 0x8F }
  else none

/-- The outcome of reading one character. -/
inductive Read where
  | char (c : Char) (rest : List UInt8)
  /-- The byte after the first `good` ones does not fit. -/
  | broken (good : Nat)
  /-- The bytes ran out. -/
  | incomplete

/-- Reads `more` continuation bytes, the first of them between `low` and `high`. -/
def readTail (bits : Nat) (good low high : Nat) : Nat → List UInt8 → Read
  | 0, rest => .char (Char.ofNat bits) rest
  | _ + 1, [] => .incomplete
  | more + 1, b :: rest =>
    if low ≤ b.toNat ∧ b.toNat ≤ high then
      readTail (bits * 64 + b.toNat % 64) (good + 1) 0x80 0xBF more rest
    else
      .broken good

/-- Reads the character that starts with the byte `b`. -/
def readChar (b : UInt8) (rest : List UInt8) : Read :=
  match lead? b.toNat with
  | none => .broken 1
  | some lead => readTail lead.bits 1 lead.low lead.high lead.more rest

theorem length_le_of_readTail {bits good low high more : Nat} {bytes rest : List UInt8} {c : Char}
    (h : readTail bits good low high more bytes = .char c rest) : rest.length ≤ bytes.length := by
  induction more generalizing bits good low high bytes with
  | zero =>
      simp only [readTail, Read.char.injEq] at h
      exact Nat.le_of_eq (by rw [h.2])
  | succ more ih =>
      cases bytes with
      | nil => simp [readTail] at h
      | cons b bytes =>
          simp only [readTail] at h
          split at h
          · exact Nat.le_succ_of_le (ih h)
          · cases h

theorem length_le_of_readChar {b : UInt8} {bytes rest : List UInt8} {c : Char}
    (h : readChar b bytes = .char c rest) : rest.length ≤ bytes.length := by
  unfold readChar at h
  split at h
  · cases h
  · exact length_le_of_readTail h

/-- Where and why bytes are no text. -/
structure Fault where
  /-- The index at which the bad sequence begins. -/
  index : Nat
  /-- How many of its bytes were good; none if the bytes ran out inside it. -/
  good? : Option Nat
  deriving DecidableEq

/-- The sentence that explains the fault. -/
def Fault.message : Fault → String
  | ⟨index, some good⟩ => s!"invalid utf-8 sequence of {good} bytes from index {index}"
  | ⟨index, none⟩ => s!"incomplete utf-8 byte sequence from index {index}"

/-- Reads characters up to the end; `index` counts the bytes read before. -/
def decodeFrom (index : Nat) (bytes : List UInt8) : Except Fault (List Char) :=
  match bytes with
  | [] => .ok []
  | b :: tail =>
    match _h : readChar b tail with
    | .char c rest => (decodeFrom (index + (tail.length + 1 - rest.length)) rest).map (c :: ·)
    | .broken good => .error ⟨index, some good⟩
    | .incomplete => .error ⟨index, none⟩
  termination_by bytes.length
  decreasing_by
    have := length_le_of_readChar _h
    simp only [List.length_cons]
    omega

/-- The text that the bytes spell. -/
def decode (bytes : List UInt8) : Except Fault (List Char) :=
  decodeFrom 0 bytes

end BlockingSync.Text.Utf8
