/-
The bytes that a reader takes in.

A reader returns its bytes if all that it reads is written as the bytes that it took
(`Reader.Returns`).  Readers of words and texts do, since no other bytes are read as the word or
the text, and so do readers that are put together from such readers.

What is made of the values that a reader reads can as well be made of the whole that is put
together from them (`readMany_map` and the like).
-/
import BlockingSync.Proofs.Wire

namespace BlockingSync

namespace Binary

variable {α β γ δ : Type}

namespace Reader

/-- Whether the bytes that a reader takes for a value are those that are written for it. -/
def Returns (reader : Reader α) (write : α → Except Refusal (List UInt8)) : Prop :=
  ∀ ⦃bytes v rest out⦄, reader bytes = .ok (v, rest) → write v = .ok out → bytes = out ++ rest

/-- Whether a reader reads only values with the property. -/
def Yields (reader : Reader α) (P : α → Prop) : Prop :=
  ∀ ⦃bytes v rest⦄, reader bytes = .ok (v, rest) → P v

/-- The reader that makes something of what another reads. -/
def map (f : α → β) (reader : Reader α) : Reader β := fun bytes =>
  reader bytes >>= fun p => .ok (f p.1, p.2)

end Reader

theorem Reader.Returns.of_total {reader : Reader α} {write : α → List UInt8}
    (h : ∀ {bytes v rest}, reader bytes = .ok (v, rest) → bytes = write v ++ rest) :
    reader.Returns fun v => .ok (write v) := by
  intro bytes v rest out hread hout
  cases hout
  exact h hread

variable {reader : Reader α} {write : α → Except Refusal (List UInt8)} {P : α → Prop}
variable {bytes rest : List UInt8} {v : α} {vs : List α} {count : Nat}

/-! ### Integers, truth values, characters and texts -/

theorem eq_of_readLittleEndian {n : Fin (byteLimit count)}
    (h : readLittleEndian count bytes = .ok (n, rest)) :
    bytes = littleEndian count n.val ++ rest := by
  induction count generalizing bytes with
  | zero =>
      cases h
      rfl
  | succ count ih =>
      cases bytes with
      | nil => cases h
      | cons b bytes =>
          obtain ⟨⟨m, rest'⟩, hm, h⟩ := eq_ok_of_bind h
          cases h
          have hb := b.toNat_lt
          have hlow : (b.toNat + 256 * m.val) % 256 = b.toNat := by omega
          have hhigh : (b.toNat + 256 * m.val) / 256 = m.val := by omega
          rw [ih hm, littleEndian, hlow, hhigh, UInt8.ofNat_toNat]
          rfl

theorem eq_of_readUnsigned {w : Width} {n : Unsigned w} (h : readUnsigned w bytes = .ok (n, rest)) :
    bytes = littleEndian w.bytes n.val ++ rest := by
  obtain ⟨⟨m, rest'⟩, hm, h⟩ := eq_ok_of_bind h
  cases h
  exact eq_of_readLittleEndian hm

theorem twosComplement_ofTwosComplement {w : Width} (n : Unsigned w) :
    twosComplement (ofTwosComplement n) = n.val := by
  obtain ⟨n, hn⟩ := n
  simp only [ofTwosComplement, twosComplement]
  cases w <;> simp only [Width.limit, Width.half] at hn ⊢ <;> split_ifs <;> omega

theorem eq_of_readSigned {w : Width} {n : Signed w} (h : readSigned w bytes = .ok (n, rest)) :
    bytes = littleEndian w.bytes (twosComplement n) ++ rest := by
  obtain ⟨⟨m, rest'⟩, hm, h⟩ := eq_ok_of_bind h
  cases h
  rw [twosComplement_ofTwosComplement]
  exact eq_of_readUnsigned hm

theorem eq_of_readByte {n : Nat} (h : readByte bytes = .ok (n, rest)) :
    bytes = UInt8.ofNat n :: rest := by
  cases bytes with
  | nil => cases h
  | cons b bytes =>
      cases h
      rw [UInt8.ofNat_toNat]

theorem eq_of_readBoolean {b : Bool} (h : readBoolean bytes = .ok (b, rest)) :
    bytes = writeBoolean b ++ rest := by
  obtain ⟨⟨n, rest'⟩, hn, h⟩ := eq_ok_of_bind h
  rw [eq_of_readByte hn]
  match n with
  | 0 => cases h; rfl
  | 1 => cases h; rfl
  | _ + 2 => cases h

theorem eq_of_readCharacter {c : Char} (h : readCharacter bytes = .ok (c, rest)) :
    bytes = Text.Utf8.encodeChar c ++ rest := by
  cases bytes with
  | nil => cases h
  | cons b bytes =>
      simp only [readCharacter] at h
      split at h <;> cases h
      exact Text.Utf8.eq_encodeChar_of_readChar ‹_›

theorem eq_of_readLetters {t : String} (h : readLetters count bytes = .ok (t, rest)) :
    (Text.Utf8.encode t.toList).length = count ∧ bytes = Text.Utf8.encode t.toList ++ rest := by
  unfold readLetters at h
  split at h
  · cases h
  · rename_i hlong
    split at h <;> cases h
    rename_i cs hcs
    rw [String.toList_ofList, Text.Utf8.encode_of_decode hcs, List.take_append_drop]
    exact ⟨by rw [List.length_take]; omega, rfl⟩

theorem length_of_readText {t : String} (h : readText bytes = .ok (t, rest)) :
    (Text.Utf8.encode t.toList).length < Width.w64.limit := by
  obtain ⟨⟨n, rest'⟩, -, h⟩ := eq_ok_of_bind h
  rw [(eq_of_readLetters h).1]
  exact n.isLt

theorem eq_of_readText {t : String} (h : readText bytes = .ok (t, rest)) :
    bytes = writeText t ++ rest := by
  obtain ⟨⟨n, rest'⟩, hn, h⟩ := eq_ok_of_bind h
  obtain ⟨hlength, hrest⟩ := eq_of_readLetters h
  rw [eq_of_readUnsigned hn, hrest, ← hlength, writeText, List.append_assoc]
  rfl

/-! ### Parts -/

theorem length_of_readMany (h : readMany reader count bytes = .ok (vs, rest)) :
    vs.length = count := by
  induction count generalizing bytes vs with
  | zero =>
      cases h
      rfl
  | succ count ih =>
      obtain ⟨⟨v, rest'⟩, -, h⟩ := eq_ok_of_bind h
      obtain ⟨⟨vs', rest''⟩, hvs, h⟩ := eq_ok_of_bind h
      cases h
      exact congrArg (· + 1) (ih hvs)

theorem many_yields (hreader : reader.Yields P) :
    (readMany reader count).Yields fun vs => ∀ v ∈ vs, P v := by
  induction count with
  | zero =>
      intro bytes vs rest h
      cases h
      exact List.forall_mem_nil _
  | succ count ih =>
      intro bytes vs rest h
      obtain ⟨⟨v, rest'⟩, hv, h⟩ := eq_ok_of_bind h
      obtain ⟨⟨vs', rest''⟩, hvs, h⟩ := eq_ok_of_bind h
      cases h
      exact List.forall_mem_cons.2 ⟨hreader hv, ih hvs⟩

theorem many_returns (hreader : reader.Returns write) {parts : List (List UInt8)}
    (h : readMany reader count bytes = .ok (vs, rest)) (hparts : vs.mapM write = .ok parts) :
    bytes = parts.flatten ++ rest := by
  induction count generalizing bytes vs parts with
  | zero =>
      cases h
      rw [List.mapM_nil] at hparts
      cases hparts
      rfl
  | succ count ih =>
      obtain ⟨⟨v, rest'⟩, hv, h⟩ := eq_ok_of_bind h
      obtain ⟨⟨vs', rest''⟩, hvs, h⟩ := eq_ok_of_bind h
      cases h
      rw [List.mapM_cons] at hparts
      obtain ⟨part, hpart, hparts⟩ := eq_ok_of_bind hparts
      obtain ⟨parts', hparts', hparts⟩ := eq_ok_of_bind hparts
      cases hparts
      rw [hreader hv hpart, ih hvs hparts', List.flatten_cons, List.append_assoc]

theorem counted_yields (hreader : reader.Yields P) :
    (readCounted reader).Yields fun vs => vs.length < Width.w64.limit ∧ ∀ v ∈ vs, P v := by
  intro bytes vs rest h
  obtain ⟨⟨n, rest'⟩, -, h⟩ := eq_ok_of_bind h
  refine ⟨?_, many_yields hreader h⟩
  rw [length_of_readMany h]
  exact n.isLt

theorem counted_returns (hreader : reader.Returns write) :
    (readCounted reader).Returns fun vs => do
      return writeCounted vs.length (← vs.mapM write) := by
  intro bytes vs rest out h hout
  obtain ⟨⟨n, rest'⟩, hn, h⟩ := eq_ok_of_bind h
  obtain ⟨parts, hparts, hout⟩ := eq_ok_of_bind hout
  cases hout
  rw [eq_of_readUnsigned hn, many_returns hreader h hparts, ← length_of_readMany h, writeCounted,
    List.append_assoc]
  rfl

theorem option_yields (hreader : reader.Yields P) :
    (readOption reader).Yields fun v => ∀ u, v = some u → P u := by
  rintro bytes _ rest h u rfl
  obtain ⟨⟨n, rest'⟩, -, h⟩ := eq_ok_of_bind h
  match n with
  | 0 => cases h
  | 1 =>
      obtain ⟨⟨v, rest''⟩, hv, h⟩ := eq_ok_of_bind h
      cases h
      exact hreader hv
  | _ + 2 => cases h

theorem option_returns {write' : Option α → Except Refusal (List UInt8)}
    (hreader : reader.Returns write) (hnone : write' none = .ok [0])
    (hsome : ∀ v, write' (some v) = (do return 1 :: (← write v))) :
    (readOption reader).Returns write' := by
  intro bytes v rest out h hout
  obtain ⟨⟨n, rest'⟩, hn, h⟩ := eq_ok_of_bind h
  rw [eq_of_readByte hn]
  match n with
  | 0 =>
      cases h
      rw [hnone] at hout
      cases hout
      rfl
  | 1 =>
      obtain ⟨⟨v, rest''⟩, hv, h⟩ := eq_ok_of_bind h
      cases h
      rw [hsome] at hout
      obtain ⟨part, hpart, hout⟩ := eq_ok_of_bind hout
      cases hout
      exact congrArg (1 :: ·) (hreader hv hpart)
  | _ + 2 => cases h

section Pair

variable {first : Reader α} {second : Reader β} {Q : β → Prop}
variable {write' : β → Except Refusal (List UInt8)}

theorem pair_yields (hfirst : first.Yields P) (hsecond : second.Yields Q) :
    (readPair first second).Yields fun p => P p.1 ∧ Q p.2 := by
  intro bytes p rest h
  obtain ⟨⟨v, rest'⟩, hv, h⟩ := eq_ok_of_bind h
  obtain ⟨⟨w, rest''⟩, hw, h⟩ := eq_ok_of_bind h
  cases h
  exact ⟨hfirst hv, hsecond hw⟩

theorem pair_returns (hfirst : first.Returns write) (hsecond : second.Returns write') :
    (readPair first second).Returns fun p => do return (← write p.1) ++ (← write' p.2) := by
  intro bytes p rest out h hout
  obtain ⟨⟨v, rest'⟩, hv, h⟩ := eq_ok_of_bind h
  obtain ⟨⟨w, rest''⟩, hw, h⟩ := eq_ok_of_bind h
  cases h
  obtain ⟨xs, hxs, hout⟩ := eq_ok_of_bind hout
  obtain ⟨ys, hys, hout⟩ := eq_ok_of_bind hout
  cases hout
  rw [hfirst hv hxs, hsecond hw hys, List.append_assoc]

end Pair

/-- A record is read as a count that is not zero, a capacity and the values. -/
theorem exists_of_readRecord {r : Record α} (h : readRecord reader bytes = .ok (r, rest)) :
    ∃ later, readMany reader r.values.length later = .ok (r.values, rest) ∧
      r.values.length + 1 < Width.w64.limit ∧
      bytes = writeWord (r.values.length + 1) ++ (writeWord r.capacity.val ++ later) := by
  obtain ⟨⟨n, rest'⟩, hn, h⟩ := eq_ok_of_bind h
  obtain ⟨n, hlimit⟩ := n
  cases n with
  | zero => cases h
  | succ count =>
      obtain ⟨⟨capacity, later⟩, hcapacity, h⟩ := eq_ok_of_bind h
      obtain ⟨⟨vs, rest''⟩, hvs, h⟩ := eq_ok_of_bind h
      cases h
      have hcount := length_of_readMany hvs
      subst hcount
      refine ⟨later, hvs, hlimit, ?_⟩
      rw [eq_of_readUnsigned hn, eq_of_readUnsigned hcapacity]
      rfl

theorem record_yields (hreader : reader.Yields P) : (readRecord reader).Yields fun r =>
    r.values.length + 1 < Width.w64.limit ∧ ∀ v ∈ r.values, P v := by
  intro bytes r rest h
  obtain ⟨later, hvs, hlength, -⟩ := exists_of_readRecord h
  exact ⟨hlength, many_yields hreader hvs⟩

theorem record_returns (hreader : reader.Returns write) : (readRecord reader).Returns fun r => do
    let parts ← r.values.mapM write
    return writeCounted (r.values.length + 1) (writeWord r.capacity.val :: parts) := by
  intro bytes r rest out h hout
  obtain ⟨later, hvs, -, rfl⟩ := exists_of_readRecord h
  obtain ⟨parts, hparts, hout⟩ := eq_ok_of_bind hout
  cases hout
  rw [many_returns hreader hvs hparts, writeCounted, List.flatten_cons]
  simp only [List.append_assoc]

/-! ### What is made of what was read -/

section Map

variable {f : α → β}

theorem Reader.map_eq_ok_iff {w : β} :
    reader.map f bytes = .ok (w, rest) ↔ ∃ v, reader bytes = .ok (v, rest) ∧ f v = w := by
  unfold Reader.map
  cases reader bytes with
  | error fault => simp [bind, Except.bind]
  | ok p =>
      obtain ⟨v, rest'⟩ := p
      simp only [bind, Except.bind, Except.ok.injEq, Prod.mk.injEq]
      exact ⟨fun ⟨hv, hrest⟩ => ⟨v, ⟨rfl, hrest⟩, hv⟩, fun ⟨u, ⟨hu, hrest⟩, hw⟩ => ⟨hu ▸ hw, hrest⟩⟩

theorem Reader.map_id : reader.map id = reader := by
  funext bytes
  unfold Reader.map
  cases reader bytes <;> rfl

theorem Reader.map_map {g : β → γ} : (reader.map f).map g = reader.map (g ∘ f) := by
  funext bytes
  unfold Reader.map
  cases reader bytes <;> rfl

theorem readMany_map (f : α → β) (reader : Reader α) (count : Nat) :
    readMany (reader.map f) count = (readMany reader count).map (List.map f) := by
  induction count with
  | zero => rfl
  | succ count ih =>
      funext bytes
      simp only [readMany, ih, Reader.map]
      cases reader bytes with
      | error fault => rfl
      | ok p =>
          simp only [bind, Except.bind]
          cases readMany reader count p.2 <;> rfl

theorem readCounted_map (f : α → β) (reader : Reader α) :
    readCounted (reader.map f) = (readCounted reader).map (List.map f) := by
  funext bytes
  simp only [readCounted, readMany_map, Reader.map]
  cases readUnsigned .w64 bytes <;> rfl

theorem readOption_map (f : α → β) (reader : Reader α) :
    readOption (reader.map f) = (readOption reader).map (Option.map f) := by
  funext bytes
  simp only [readOption, Reader.map]
  cases readByte bytes with
  | error fault => rfl
  | ok p =>
      obtain ⟨n, rest⟩ := p
      match n with
      | 0 => rfl
      | 1 =>
          simp only [bind, Except.bind]
          cases reader rest <;> rfl
      | _ + 2 => rfl

theorem readPair_map (f : α → β) (g : γ → δ) (first : Reader α) (second : Reader γ) :
    readPair (first.map f) (second.map g) = (readPair first second).map (Prod.map f g) := by
  funext bytes
  simp only [readPair, Reader.map]
  cases first bytes with
  | error fault => rfl
  | ok p =>
      simp only [bind, Except.bind]
      cases second p.2 <;> rfl

theorem readRecord_map (f : α → β) (reader : Reader α) : readRecord (reader.map f) =
    (readRecord reader).map fun r => ⟨r.capacity, r.values.map f⟩ := by
  funext bytes
  simp only [readRecord, Reader.map]
  cases readUnsigned .w64 bytes with
  | error fault => rfl
  | ok p =>
      obtain ⟨⟨n, hn⟩, rest⟩ := p
      cases n with
      | zero => rfl
      | succ count =>
          simp only [readElements, readMany_map, Reader.map, bind, Except.bind]
          cases readUnsigned .w64 rest with
          | error fault => rfl
          | ok p =>
              simp only
              cases readMany reader count p.2 <;> rfl

end Map

end Binary

end BlockingSync
