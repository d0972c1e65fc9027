/-
Reading back the bytes of a text.

The bytes of a character are a leading byte and the continuation bytes that it announces
(`exists_spelling`).  What the reader makes of continuation bytes is one fold (`gather`), so
reading them is one induction for all lengths.  If some of them are missing the reader says
that the bytes ran out, and never takes the rest for another character.  And no other bytes
are read as the character: a leading byte leaves only such continuation bytes as make a number
that is spelled with it.
-/
import BlockingSync.Text.Utf8
import Mathlib.Data.List.Basic
import Mathlib.Tactic.IntervalCases
import Mathlib.Tactic.SplitIfs

namespace BlockingSync.Text.Utf8

/-- The number that continuation bytes make of the bits before them. -/
def gather (bits : Nat) (tail : List UInt8) : Nat :=
  tail.foldl (fun n b => n * 64 + b.toNat % 64) bits

/-- Whether bytes are continuation bytes, the first of them between `low` and `high`. -/
def Continues (low high : Nat) : List UInt8 → Prop
  | [] => True
  | b :: tail => low ≤ b.toNat ∧ b.toNat ≤ high ∧ Continues 0x80 0xBF tail

variable {bits good low high more : Nat} {tail part : List UInt8}

theorem readTail_append (h : Continues low high tail) (rest : List UInt8) :
    readTail bits good low high tail.length (tail ++ rest) =
      .char (Char.ofNat (gather bits tail)) rest := by
  induction tail generalizing bits good low high with
  | nil => rfl
  | cons b tail ih =>
      obtain ⟨hlow, hhigh, htail⟩ := h
      simp only [List.length_cons, List.cons_append, readTail, hlow, hhigh, and_self, if_true]
      exact ih htail

/-- Continuation bytes that stop too early are not read. -/
theorem readTail_part (h : Continues low high tail) (hpart : part <+: tail) (hne : part ≠ tail) :
    readTail bits good low high tail.length part = .incomplete := by
  induction tail generalizing bits good low high part with
  | nil => exact absurd (List.prefix_nil.1 hpart) hne
  | cons b tail ih =>
      obtain ⟨hlow, hhigh, htail⟩ := h
      cases part with
      | nil => rfl
      | cons a part =>
          obtain ⟨rfl, hrest⟩ := List.cons_prefix_cons.1 hpart
          have hshort : part ≠ tail := fun hc => hne (by rw [hc])
          simp only [List.length_cons, readTail, hlow, hhigh, and_self, if_true]
          exact ih htail hrest hshort

/-! ### Characters -/

theorem toNat_ofNat_of_lt {n : Nat} (h : n < 256) : (UInt8.ofNat n).toNat = n := by
  simp [Nat.mod_eq_of_lt h]

theorem lead?_one {k : Nat} (h : k < 0x80) :
    lead? (UInt8.ofNat k).toNat = some { bits := k, more := 0 } := by
  rw [toNat_ofNat_of_lt (by omega), lead?, if_pos h]

theorem lead?_two {k : Nat} (hmin : 2 ≤ k) (hmax : k < 32) :
    lead? (UInt8.ofNat (0xC0 + k)).toNat = some { bits := k, more := 1 } := by
  rw [toNat_ofNat_of_lt (by omega), lead?, if_neg (by omega), if_neg (by omega),
    if_pos (by omega), Nat.add_sub_cancel_left]

/-- The longer spellings and the surrogates are ruled out by the first continuation byte. -/
theorem lead?_three {k : Nat} (h : k < 16) : lead? (UInt8.ofNat (0xE0 + k)).toNat = some
    { bits := k, more := 2, low := if k = 0 then 0xA0 else 0x80,
      high := if k = 13 then 0x9F else 0xBF } := by
  interval_cases k <;> rfl

theorem lead?_four {k : Nat} (h : k < 5) : lead? (UInt8.ofNat (0xF0 + k)).toNat = some
    { bits := k, more := 3, low := if k = 0 then 0x90 else 0x80,
      high := if k = 4 then 0x8F else 0xBF } := by
  interval_cases k <;> rfl

/-- A character is spelled with a leading byte and the continuation bytes that it announces. -/
theorem exists_spelling (c : Char) : ∃ b tail lead, encodeChar c = b :: tail ∧
    lead? b.toNat = some lead ∧ tail.length = lead.more ∧ Continues lead.low lead.high tail ∧
      gather lead.bits tail = c.toNat := by
  have hvalid : c.toNat < 0xD800 ∨ 0xDFFF < c.toNat ∧ c.toNat < 0x110000 := c.valid
  unfold encodeChar
  generalize c.toNat = n at hvalid
  have hlow : ∀ m, (UInt8.ofNat (0x80 + m % 64)).toNat = 0x80 + m % 64 :=
    fun m => toNat_ofNat_of_lt (by omega)
  simp only
  split
  · exact ⟨_, _, _, rfl, lead?_one (by omega), rfl, trivial, rfl⟩
  · split
    · refine ⟨_, _, _, rfl, lead?_two (by omega) (by omega), rfl, ?_⟩
      simp only [Continues, gather, hlow, List.foldl_cons, List.foldl_nil, and_true]
      omega
    · split
      · refine ⟨_, _, _, rfl, lead?_three (by omega), rfl, ?_⟩
        simp only [Continues, gather, hlow, List.foldl_cons, List.foldl_nil, and_true]
        split_ifs <;> omega
      · refine ⟨_, _, _, rfl, lead?_four (by omega), rfl, ?_⟩
        simp only [Continues, gather, hlow, List.foldl_cons, List.foldl_nil, and_true]
        split_ifs <;> omega

/-- A character is read back from its bytes, whatever follows them. -/
theorem readChar_encodeChar (c : Char) : ∃ b tail, encodeChar c = b :: tail ∧
    (∀ rest, readChar b (tail ++ rest) = .char c rest) ∧
      ∀ part, part <+: tail → part ≠ tail → readChar b part = .incomplete := by
  obtain ⟨b, tail, lead, hspelled, hlead, hmore, hcontinues, hgather⟩ := exists_spelling c
  refine ⟨b, tail, hspelled, fun rest => ?_, fun part hpart hne => ?_⟩
  · simp only [readChar, hlead, ← hmore, readTail_append hcontinues, hgather, Char.ofNat_toNat]
  · simp only [readChar, hlead, ← hmore, readTail_part hcontinues hpart hne]

theorem decodeFrom_of_char {b : UInt8} {index : Nat} {bytes rest : List UInt8} {c : Char}
    (h : readChar b bytes = .char c rest) : decodeFrom index (b :: bytes) =
      (decodeFrom (index + (bytes.length + 1 - rest.length)) rest).map (c :: ·) := by
  rw [decodeFrom]
  split <;> rename_i heq <;> rw [h] at heq <;> cases heq
  rfl

theorem decodeFrom_encode (cs : List Char) (index : Nat) :
    decodeFrom index (encode cs) = .ok cs := by
  induction cs generalizing index with
  | nil => rw [encode, List.flatMap_nil, decodeFrom]
  | cons c cs ih =>
      obtain ⟨b, tail, hspelled, hread, -⟩ := readChar_encodeChar c
      have hencode : encode (c :: cs) = b :: (tail ++ encode cs) := by
        rw [encode, List.flatMap_cons, hspelled]
        rfl
      rw [hencode, decodeFrom_of_char (hread _), ih]
      rfl

/-- A text is read back from its bytes. -/
theorem decode_encode (cs : List Char) : decode (encode cs) = .ok cs :=
  decodeFrom_encode cs 0

/-! ### Nothing else is read -/

/-- What is read as continuation bytes are continuation bytes. -/
theorem exists_of_readTail {bytes rest : List UInt8} {c : Char}
    (h : readTail bits good low high more bytes = .char c rest) :
    ∃ tail, bytes = tail ++ rest ∧ tail.length = more ∧ Continues low high tail ∧
      c = Char.ofNat (gather bits tail) := by
  induction more generalizing bits good low high bytes with
  | zero =>
      cases h
      exact ⟨[], rfl, rfl, trivial, rfl⟩
  | succ more ih =>
      cases bytes with
      | nil => cases h
      | cons b bytes =>
          simp only [readTail] at h
          split at h
          · rename_i hb
            obtain ⟨tail, rfl, hlength, hcontinues, hc⟩ := ih h
            exact ⟨b :: tail, rfl, congrArg (· + 1) hlength, ⟨hb.1, hb.2, hcontinues⟩, hc⟩
          · cases h

theorem toNat_ofNat_of_valid {n : Nat} (h : n < 0xD800 ∨ 0xDFFF < n ∧ n < 0x110000) :
    (Char.ofNat n).toNat = n := by
  have hvalid : n.isValidChar := h
  have hofNat : Char.ofNat n = Char.ofNatAux n hvalid := dif_pos hvalid
  rw [hofNat]
  rfl

theorem ofNat_eq_of_toNat {b : UInt8} {n : Nat} (h : n = b.toNat) : UInt8.ofNat n = b := by
  rw [h, UInt8.ofNat_toNat]

/-- What announces so many continuation bytes, and which first ones it rules out. -/
theorem cases_of_lead? {n : Nat} {lead : Lead} (h : lead? n = some lead) :
    (0x80 ≤ lead.low ∧ lead.high ≤ 0xBF) ∧
    (lead.more = 0 ∧ n = lead.bits ∧ lead.bits < 0x80 ∨
    lead.more = 1 ∧ n = 0xC0 + lead.bits ∧ 2 ≤ lead.bits ∧ lead.bits < 32 ∨
    lead.more = 2 ∧ n = 0xE0 + lead.bits ∧ lead.bits < 16 ∧
      (lead.bits = 0 → 0xA0 ≤ lead.low) ∧ (lead.bits = 13 → lead.high ≤ 0x9F) ∨
    lead.more = 3 ∧ n = 0xF0 + lead.bits ∧ lead.bits < 5 ∧
      (lead.bits = 0 → 0x90 ≤ lead.low) ∧ (lead.bits = 4 → lead.high ≤ 0x8F)) := by
  unfold lead? at h
  repeat' split at h
  all_goals simp only [Option.some.injEq, reduceCtorEq] at h
  all_goals subst h
  all_goals simp
  all_goals omega

/-- The bytes of a character are the only ones that are read as the character. -/
theorem eq_encodeChar_of_continues {b : UInt8} {lead : Lead} (hlead : lead? b.toNat = some lead)
    (hlength : tail.length = lead.more) (h : Continues lead.low lead.high tail) :
    encodeChar (Char.ofNat (gather lead.bits tail)) = b :: tail := by
  obtain ⟨hrange, hcases⟩ := cases_of_lead? hlead
  rcases hcases with ⟨hmore, hb, hbits⟩ | ⟨hmore, hb, hmin, hmax⟩ |
    ⟨hmore, hb, hmax, hlow, hhigh⟩ | ⟨hmore, hb, hmax, hlow, hhigh⟩
  · obtain rfl := List.length_eq_zero_iff.1 (hlength.trans hmore)
    simp only [gather, List.foldl_nil]
    rw [encodeChar, toNat_ofNat_of_valid (by omega), if_pos hbits, ofNat_eq_of_toNat hb.symm]
  · obtain ⟨x, rfl⟩ := List.length_eq_one_iff.1 (hlength.trans hmore)
    simp only [Continues, and_true] at h
    simp only [gather, List.foldl_nil, List.foldl_cons]
    rw [encodeChar, toNat_ofNat_of_valid (by omega), if_neg (by omega), if_pos (by omega),
      ofNat_eq_of_toNat (b := b) (by omega), ofNat_eq_of_toNat (b := x) (by omega)]
  · obtain ⟨x, y, rfl⟩ := List.length_eq_two.1 (hlength.trans hmore)
    simp only [Continues, and_true] at h
    simp only [gather, List.foldl_nil, List.foldl_cons]
    rw [encodeChar, toNat_ofNat_of_valid (by omega), if_neg (by omega), if_neg (by omega),
      if_pos (by omega),
      ofNat_eq_of_toNat (b := b) (by omega), ofNat_eq_of_toNat (b := x) (by omega),
      ofNat_eq_of_toNat (b := y) (by omega)]
  · obtain ⟨x, y, z, rfl⟩ := List.length_eq_three.1 (hlength.trans hmore)
    simp only [Continues, and_true] at h
    simp only [gather, List.foldl_nil, List.foldl_cons]
    rw [encodeChar, toNat_ofNat_of_valid (by omega), if_neg (by omega), if_neg (by omega),
      if_neg (by omega),
      ofNat_eq_of_toNat (b := b) (by omega), ofNat_eq_of_toNat (b := x) (by omega),
      ofNat_eq_of_toNat (b := y) (by omega), ofNat_eq_of_toNat (b := z) (by omega)]

/-- A character is read from its bytes and from no others. -/
theorem eq_encodeChar_of_readChar {b : UInt8} {bytes rest : List UInt8} {c : Char}
    (h : readChar b bytes = .char c rest) : b :: bytes = encodeChar c ++ rest := by
  unfold readChar at h
  split at h
  · cases h
  · rename_i lead hlead
    obtain ⟨tail, rfl, hlength, hcontinues, rfl⟩ := exists_of_readTail h
    rw [eq_encodeChar_of_continues hlead hlength hcontinues]
    rfl

theorem encode_of_decodeFrom {index : Nat} {bytes : List UInt8} {cs : List Char}
    (h : decodeFrom index bytes = .ok cs) : encode cs = bytes := by
  induction index, bytes using decodeFrom.induct generalizing cs with
  | case1 index =>
      rw [decodeFrom] at h
      cases h
      rfl
  | case2 index b tail c rest hread ih =>
      rw [decodeFrom_of_char hread] at h
      cases hrest : decodeFrom (index + (tail.length + 1 - rest.length)) rest with
      | error fault =>
          rw [hrest] at h
          cases h
      | ok cs' =>
          rw [hrest] at h
          cases h
          rw [eq_encodeChar_of_readChar hread, encode, List.flatMap_cons]
          exact congrArg (encodeChar c ++ ·) (ih hrest)
  | case3 index b tail good hread =>
      rw [decodeFrom] at h
      split at h <;> rename_i heq <;> rw [hread] at heq <;> cases heq
      cases h
  | case4 index b tail hread =>
      rw [decodeFrom] at h
      split at h <;> rename_i heq <;> rw [hread] at heq <;> cases heq
      cases h

/-- A text is read from its bytes and from no others. -/
theorem encode_of_decode {bytes : List UInt8} {cs : List Char} (h : decode bytes = .ok cs) :
    encode cs = bytes :=
  encode_of_decodeFrom h

end BlockingSync.Text.Utf8
