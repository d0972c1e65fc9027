/-
A queue is restored from its bytes as it was stored.

A reader takes certain bytes for a value if it reads the value whatever follows the bytes,
and reads nothing from fewer of them (`Takes`).  So no encoding is the beginning of another.
Readers that run one after the other take the bytes of the parts one after the other
(`Takes.bind`), which is the whole argument for everything that is put together from parts;
what is left is that each reader takes the bytes that the writer makes (`takes_toBytes`), by
induction on the shape.
-/
import BlockingSync.Machine.Persist
import BlockingSync.Proofs.Utf8

namespace BlockingSync

namespace Binary

variable {α β : Type}

namespace Reader

/-- Whether a reader reads the value from these bytes, and from no fewer of them. -/
structure Takes (reader : Reader α) (bytes : List UInt8) (v : α) : Prop where
  /-- What follows the bytes is left. -/
  reads : ∀ rest, reader (bytes ++ rest) = .ok (v, rest)
  /-- No value is read from a part of them. -/
  fails : ∀ part, part <+: bytes → part ≠ bytes → ∃ fault, reader part = .error fault

variable {reader first next : Reader α} {xs ys : List UInt8} {v : α} {w : β} {b : UInt8}

/-- A reader that needs no bytes. -/
theorem Takes.done (h : ∀ rest, reader rest = .ok (v, rest)) : reader.Takes [] v :=
  ⟨h, fun _ hpart hne => absurd (List.prefix_nil.1 hpart) hne⟩

/-- A reader that takes one byte and goes on as another. -/
theorem Takes.cons (hnil : ∃ fault, reader [] = .error fault)
    (hcons : ∀ rest, reader (b :: rest) = next rest) (h : next.Takes ys v) :
    reader.Takes (b :: ys) v := by
  refine ⟨fun rest => (hcons _).trans (h.reads rest), fun part hpart hne => ?_⟩
  cases part with
  | nil => exact hnil
  | cons a part =>
      obtain ⟨rfl, hrest⟩ := List.cons_prefix_cons.1 hpart
      rw [hcons]
      exact h.fails part hrest fun hc => hne (by rw [hc])

/-- A reader that runs one reader, and behind it another that may depend on what was read. -/
theorem Takes.bind {reader : Reader β} {k : α → Reader β}
    (heq : ∀ bytes, reader bytes = first bytes >>= fun p => k p.1 p.2)
    (hfirst : first.Takes xs v) (hnext : (k v).Takes ys w) :
    reader.Takes (xs ++ ys) w := by
  have hreads : ∀ rest, reader (xs ++ rest) = k v rest := fun rest => by
    rw [heq, hfirst.reads]
    rfl
  refine ⟨fun rest => ?_, fun part hpart hne => ?_⟩
  · rw [List.append_assoc, hreads, hnext.reads]
  · by_cases hshort : xs <+: part
    · obtain ⟨rest, rfl⟩ := hshort
      rw [hreads]
      exact hnext.fails rest ((List.prefix_append_right_inj xs).1 hpart)
        fun hc => hne (by rw [hc])
    · have hprefix : part <+: xs :=
        (List.prefix_or_prefix_of_prefix hpart (List.prefix_append xs ys)).resolve_right hshort
      obtain ⟨fault, hfault⟩ := hfirst.fails part hprefix
        fun hc => hshort (hc ▸ List.prefix_refl _)
      exact ⟨fault, by rw [heq, hfault]; rfl⟩

/-- A reader that makes something of what another reads. -/
theorem Takes.map {reader : Reader β} {f : α → β}
    (heq : ∀ bytes, reader bytes = first bytes >>= fun p => .ok (f p.1, p.2))
    (h : first.Takes xs v) : reader.Takes xs (f v) := by
  have hdone : Takes (fun rest => .ok (f v, rest)) [] (f v) := .done fun _ => rfl
  simpa using h.bind (k := fun v rest => .ok (f v, rest)) heq hdone

end Reader

variable {reader : Reader α}

/-! ### Integers -/

theorem below_lt {count : Nat} (b : UInt8) (n : Fin (byteLimit count)) :
    b.toNat + 256 * n.val < byteLimit (count + 1) := by
  have hb := b.toNat_lt
  have hn := n.isLt
  unfold byteLimit
  omega

/-- A number with one more byte below it. -/
def below {count : Nat} (b : UInt8) (n : Fin (byteLimit count)) : Fin (byteLimit (count + 1)) :=
  ⟨b.toNat + 256 * n.val, below_lt b n⟩

theorem littleEndian_takes {count n : Nat} (h : n < byteLimit count) :
    (readLittleEndian count).Takes (littleEndian count n) ⟨n, h⟩ := by
  induction count generalizing n with
  | zero =>
      have hzero : (⟨n, h⟩ : Fin (byteLimit 0)) = ⟨0, Nat.one_pos⟩ :=
        Fin.ext (Nat.lt_one_iff.1 h)
      rw [hzero]
      exact .done fun _ => rfl
  | succ count ih =>
      have hrest : n / 256 < byteLimit count := by
        unfold byteLimit at h
        omega
      have hvalue : (⟨n, h⟩ : Fin (byteLimit (count + 1))) =
          below (UInt8.ofNat (n % 256)) ⟨n / 256, hrest⟩ := by
        refine Fin.ext ?_
        simp only [below, Text.Utf8.toNat_ofNat_of_lt (Nat.mod_lt n (by decide : 0 < 256))]
        omega
      rw [hvalue]
      refine .cons ⟨.endOfBytes, rfl⟩ (fun _ => rfl) ?_
      exact (ih hrest).map (f := below (UInt8.ofNat (n % 256))) fun _ => rfl

/-- A number is read back from its bytes. -/
theorem unsigned_takes {w : Width} (n : Unsigned w) :
    (readUnsigned w).Takes (littleEndian w.bytes n.val) n := by
  have hn : n.val < byteLimit w.bytes := by
    rw [byteLimit_bytes]
    exact n.isLt
  exact (littleEndian_takes hn).map (f := fun n => n.cast (byteLimit_bytes w)) fun _ => rfl

theorem word_takes {n : Nat} (h : n < Width.w64.limit) :
    (readUnsigned .w64).Takes (writeWord n) ⟨n, h⟩ :=
  unsigned_takes (w := .w64) ⟨n, h⟩

theorem twosComplement_lt {w : Width} (n : Signed w) : twosComplement n < w.limit := by
  obtain ⟨n, hlow, hhigh⟩ := n
  cases w <;> simp only [twosComplement, Width.limit] <;> omega

theorem ofTwosComplement_twosComplement {w : Width} (n : Signed w) :
    ofTwosComplement ⟨twosComplement n, twosComplement_lt n⟩ = n := by
  obtain ⟨n, hlow, hhigh⟩ := n
  refine Subtype.ext ?_
  simp only [ofTwosComplement, twosComplement]
  cases w <;> simp only [Width.limit, Width.half] at hlow hhigh ⊢ <;> split_ifs <;> omega

theorem signed_takes {w : Width} (n : Signed w) :
    (readSigned w).Takes (littleEndian w.bytes (twosComplement n)) n := by
  have h : (readSigned w).Takes (littleEndian w.bytes (twosComplement n))
      (ofTwosComplement ⟨twosComplement n, twosComplement_lt n⟩) :=
    (unsigned_takes ⟨_, twosComplement_lt n⟩).map (f := ofTwosComplement) fun _ => rfl
  rwa [ofTwosComplement_twosComplement] at h

/-! ### Truth values, characters and texts -/

theorem boolean_takes (b : Bool) : readBoolean.Takes (writeBoolean b) b := by
  cases b with
  | false => exact .cons ⟨.endOfBytes, rfl⟩ (fun _ => rfl) (.done fun _ => rfl)
  | true => exact .cons ⟨.endOfBytes, rfl⟩ (fun _ => rfl) (.done fun _ => rfl)

theorem character_takes (c : Char) : readCharacter.Takes (Text.Utf8.encodeChar c) c := by
  obtain ⟨b, tail, hspelled, hread, hpart⟩ := Text.Utf8.readChar_encodeChar c
  rw [hspelled]
  refine ⟨fun rest => ?_, fun part hprefix hne => ?_⟩
  · simp only [List.cons_append, readCharacter, hread]
  · cases part with
    | nil => exact ⟨.endOfBytes, rfl⟩
    | cons a part =>
        obtain ⟨rfl, hrest⟩ := List.cons_prefix_cons.1 hprefix
        have hshort : part ≠ tail := fun hc => hne (by rw [hc])
        exact ⟨.notCharacter, by simp only [readCharacter, hpart part hrest hshort]⟩

theorem letters_takes (t : String) :
    (readLetters (Text.Utf8.encode t.toList).length).Takes (Text.Utf8.encode t.toList) t := by
  refine ⟨fun rest => ?_, fun part hpart hne => ?_⟩
  · simp [readLetters, Text.Utf8.decode_encode, pure, Except.pure]
  · have hlength : part.length < (Text.Utf8.encode t.toList).length :=
      Nat.lt_of_le_of_ne hpart.length_le fun hc => hne (hpart.eq_of_length hc)
    exact ⟨.textTooLong, by rw [readLetters, if_pos hlength]⟩

theorem text_takes {t : String} (h : (Text.Utf8.encode t.toList).length < Width.w64.limit) :
    readText.Takes (writeText t) t :=
  (word_takes h).bind (k := fun n => readLetters n.val) (fun _ => rfl) (letters_takes t)

/-! ### Parts -/

theorem none_takes : (readOption reader).Takes [0] none :=
  .cons ⟨.endOfBytes, rfl⟩ (fun _ => rfl) (.done fun _ => rfl)

theorem some_takes {bytes : List UInt8} {v : α} (h : reader.Takes bytes v) :
    (readOption reader).Takes (1 :: bytes) (some v) :=
  .cons ⟨.endOfBytes, rfl⟩ (fun _ => rfl) (h.map (f := some) fun _ => rfl)

theorem many_takes {vs : List α} {parts : List (List UInt8)}
    (h : List.Forall₂ reader.Takes parts vs) :
    (readMany reader vs.length).Takes parts.flatten vs := by
  induction h with
  | nil => exact .done fun _ => rfl
  | @cons part v parts vs hv hvs ih =>
      refine hv.bind (k := fun v bytes => readMany reader vs.length bytes >>= fun p =>
        .ok (v :: p.1, p.2)) (fun _ => rfl) ?_
      exact ih.map (f := (v :: ·)) fun _ => rfl

theorem counted_takes {vs : List α} {parts : List (List UInt8)}
    (hlength : vs.length < Width.w64.limit) (h : List.Forall₂ reader.Takes parts vs) :
    (readCounted reader).Takes (writeCounted vs.length parts) vs :=
  (word_takes hlength).bind (k := fun count => readMany reader count.val) (fun _ => rfl)
    (many_takes h)

theorem pair_takes {first : Reader α} {second : Reader β} {xs ys : List UInt8} {v : α} {w : β}
    (hfirst : first.Takes xs v) (hsecond : second.Takes ys w) :
    (readPair first second).Takes (xs ++ ys) (v, w) := by
  refine hfirst.bind (k := fun v bytes => second bytes >>= fun p => .ok ((v, p.1), p.2))
    (fun _ => rfl) ?_
  exact hsecond.map (f := (v, ·)) fun _ => rfl

/-- The count of a record counts its capacity, which is read as a word whatever the values are. -/
theorem record_takes {r : Record α} {parts : List (List UInt8)}
    (hlength : r.values.length + 1 < Width.w64.limit)
    (h : List.Forall₂ reader.Takes parts r.values) : (readRecord reader).Takes
      (writeCounted (r.values.length + 1) (writeWord r.capacity.val :: parts)) r := by
  have helements : (readElements reader (r.values.length + 1)).Takes
      (writeWord r.capacity.val ++ parts.flatten) r := by
    refine (word_takes r.capacity.isLt).bind (k := fun capacity bytes =>
      readMany reader r.values.length bytes >>= fun p => .ok (⟨capacity, p.1⟩, p.2))
      (fun _ => rfl) ?_
    exact (many_takes h).map (f := Record.mk r.capacity) fun _ => rfl
  exact (word_takes hlength).bind (k := fun count => readElements reader count.val) (fun _ => rfl)
    helements

end Binary

/-! ### Dictionaries -/

namespace Dict

variable {α : Type}

theorem insertSorted_of_greatest {key : String} {v : α} {entries : List (String × α)}
    (h : ∀ e ∈ entries, e.1 < key) : insertSorted key v entries = entries ++ [(key, v)] := by
  induction entries with
  | nil => rfl
  | cons e entries ih =>
      obtain ⟨k, w⟩ := e
      have hk : k < key := h _ List.mem_cons_self
      have hne : key ≠ k := fun hc => String.lt_irrefl k (hc ▸ hk)
      rw [insertSorted, if_neg (String.lt_asymm hk), if_neg hne,
        ih fun e he => h e (List.mem_cons_of_mem _ he), List.cons_append]

theorem sortedOf_of_sorted {entries : List (String × α)} (h : Sorted entries) :
    sortedOf entries = entries := by
  -- Each entry in turn has the greatest key so far.
  have hfold : ∀ (rest done : List (String × α)), Sorted (done ++ rest) →
      rest.foldl (fun sorted e => insertSorted e.1 e.2 sorted) done = done ++ rest := by
    intro rest
    induction rest with
    | nil => exact fun done _ => (List.append_nil done).symm
    | cons e rest ih =>
        intro done hsorted
        obtain ⟨key, v⟩ := e
        have hgreatest : ∀ d ∈ done, d.1 < key := fun d hd =>
          (List.pairwise_append.1 hsorted).2.2 d hd _ List.mem_cons_self
        have hmove : done ++ (key, v) :: rest = (done ++ [(key, v)]) ++ rest := by simp
        have hinsert : insertSorted key v done = done ++ [(key, v)] :=
          insertSorted_of_greatest hgreatest
        rw [hmove] at hsorted ⊢
        simp only [List.foldl_cons, hinsert]
        exact ih _ hsorted
  exact hfold entries [] h

theorem ofList_entries (d : Dict α) : ofList d.entries = d := by
  obtain ⟨entries, hsorted⟩ := d
  simp only [ofList, sortedOf_of_sorted hsorted]

end Dict

/-! ### Values -/

section Parts

variable {ε α β γ : Type} {x : Except ε α} {y : Except ε β}

theorem eq_ok_of_bind {f : α → Except ε β} {w : β} (h : x >>= f = .ok w) :
    ∃ v, x = .ok v ∧ f v = .ok w := by
  cases x with
  | ok v => exact ⟨v, rfl, h⟩
  | error e => cases h

theorem exists_ok_map {f : α → β} : (∃ w, (do return f (← x)) = .ok w) ↔ ∃ v, x = .ok v := by
  cases x <;> simp [bind, Except.bind, pure, Except.pure]

theorem exists_ok_map₂ {f : α → β → γ} :
    (∃ z, (do return f (← x) (← y)) = .ok z) ↔ (∃ v, x = .ok v) ∧ ∃ w, y = .ok w := by
  cases x <;> cases y <;> simp [bind, Except.bind, pure, Except.pure]

theorem forall₂_of_mapM {f : α → Except ε β} {R : β → α → Prop} {l : List α} {l' : List β}
    (hR : ∀ v ∈ l, ∀ w, f v = .ok w → R w v) (h : l.mapM f = .ok l') : List.Forall₂ R l' l := by
  induction l generalizing l' with
  | nil =>
      rw [List.mapM_nil] at h
      cases h
      exact .nil
  | cons v l ih =>
      rw [List.mapM_cons] at h
      obtain ⟨w, hw, h⟩ := eq_ok_of_bind h
      obtain ⟨ws, hws, h⟩ := eq_ok_of_bind h
      cases h
      obtain ⟨hv, hl⟩ := List.forall_mem_cons.1 hR
      exact .cons (hv w hw) (ih hl hws)

theorem exists_ok_mapM {f : α → Except ε β} {l : List α} :
    (∃ ws, l.mapM f = .ok ws) ↔ ∀ v ∈ l, ∃ w, f v = .ok w := by
  induction l with
  | nil => simp [pure, Except.pure]
  | cons v l ih =>
      rw [List.mapM_cons, List.forall_mem_cons, ← ih]
      exact exists_ok_map₂

end Parts

namespace Shape

open Binary

/-- Whether the counts that stand before texts and elements are words.  A record counts its
capacity too. -/
def Fits : (s : Shape) → s.Value → Prop
  | .unsigned _, _ | .signed _, _ | .boolean, _ | .character, _ | .unit, _ | .primitive _, _
  | .reluctant, _ => True
  | .text, t => (Text.Utf8.encode (String.toList t)).length < Width.w64.limit
  | .option s, v => ∀ u, v = some u → s.Fits u
  | .list s, (vs : List s.Value) => vs.length < Width.w64.limit ∧ ∀ v ∈ vs, s.Fits v
  | .pair first second, (v, w) => first.Fits v ∧ second.Fits w
  | .dict s, d => d.entries.length < Width.w64.limit ∧ ∀ e ∈ d.entries,
      (Text.Utf8.encode e.1.toList).length < Width.w64.limit ∧ s.Fits e.2
  | .queue s, r => r.values.length + 1 < Width.w64.limit ∧ ∀ v ∈ r.values, s.Fits v

/-- Whether some part of a value refuses to be written. -/
def Refuses : (s : Shape) → s.Value → Prop
  | .unsigned _, _ | .signed _, _ | .boolean, _ | .character, _ | .text, _ | .unit, _
  | .primitive _, _ => False
  | .reluctant, n => Subtype.val n < 0
  | .option s, v => ∃ u, v = some u ∧ s.Refuses u
  | .list s, (vs : List s.Value) => ∃ v ∈ vs, s.Refuses v
  | .pair first second, (v, w) => first.Refuses v ∨ second.Refuses w
  | .dict s, d => ∃ e ∈ d.entries, s.Refuses e.2
  | .queue s, r => ∃ v ∈ r.values, s.Refuses v

/-- A value is written unless part of it refuses. -/
theorem exists_toBytes_iff (s : Shape) (v : s.Value) :
    (∃ bytes, s.toBytes v = .ok bytes) ↔ ¬ s.Refuses v := by
  induction s with
  | unsigned | signed | boolean | character | text | unit | primitive => simp [toBytes, Refuses]
  | reluctant =>
      simp only [toBytes, Refuses]
      split <;> simp [*]
  | option s ih =>
      cases v with
      | none => simp [toBytes, Refuses]
      | some u =>
          refine exists_ok_map.trans ((ih u).trans (not_congr ⟨fun h => ⟨u, rfl, h⟩, ?_⟩))
          rintro ⟨_, hu, h⟩
          cases hu
          exact h
  | list s ih =>
      refine exists_ok_map.trans (exists_ok_mapM.trans ?_)
      simp only [Refuses, ih, not_exists, not_and]
  | pair first second ih₁ ih₂ =>
      obtain ⟨v, w⟩ := v
      refine exists_ok_map₂.trans ?_
      rw [ih₁, ih₂, Refuses, not_or]
  | dict s ih =>
      refine exists_ok_map.trans (exists_ok_mapM.trans ?_)
      simp only [Refuses, exists_ok_map, ih, not_exists, not_and]
  | queue s ih =>
      refine exists_ok_map.trans (exists_ok_mapM.trans ?_)
      simp only [Refuses, ih, not_exists, not_and]

/-- **The reader of a shape takes the bytes of a value for the value.** -/
theorem takes_toBytes (s : Shape) {v : s.Value} {bytes : List UInt8} (hfits : s.Fits v)
    (h : s.toBytes v = .ok bytes) : s.binaryReader.Takes bytes v := by
  induction s generalizing bytes with
  | unsigned w =>
      cases h
      exact unsigned_takes v
  | signed w =>
      cases h
      exact signed_takes v
  | boolean =>
      cases h
      exact boolean_takes v
  | character =>
      cases h
      exact character_takes v
  | text =>
      cases h
      exact text_takes hfits
  | unit | primitive =>
      cases h
      exact .done fun _ => rfl
  | reluctant =>
      simp only [toBytes] at h
      split at h <;> cases h
      exact signed_takes v
  | option s ih =>
      cases v with
      | none =>
          cases h
          exact none_takes
      | some u =>
          obtain ⟨part, hpart, h⟩ := eq_ok_of_bind h
          cases h
          exact some_takes (ih (hfits u rfl) hpart)
  | list s ih =>
      obtain ⟨parts, hparts, h⟩ := eq_ok_of_bind h
      cases h
      exact counted_takes hfits.1 (forall₂_of_mapM (fun v hv _ => ih (hfits.2 v hv)) hparts)
  | pair first second ih₁ ih₂ =>
      obtain ⟨v, w⟩ := v
      obtain ⟨xs, hxs, h⟩ := eq_ok_of_bind h
      obtain ⟨ys, hys, h⟩ := eq_ok_of_bind h
      cases h
      exact pair_takes (ih₁ hfits.1 hxs) (ih₂ hfits.2 hys)
  | dict s ih =>
      obtain ⟨parts, hparts, h⟩ := eq_ok_of_bind h
      cases h
      have hentries : List.Forall₂ (readPair readText s.binaryReader).Takes parts v.entries := by
        refine forall₂_of_mapM (fun e he part hpart => ?_) hparts
        obtain ⟨hkey, hvalue⟩ := hfits.2 e he
        obtain ⟨bytes, hbytes, hpart⟩ := eq_ok_of_bind hpart
        cases hpart
        exact pair_takes (text_takes hkey) (ih hvalue hbytes)
      have hself : Dict.ofList v.entries = v := Dict.ofList_entries v
      have hdict : (dict s).binaryReader.Takes (writeCounted v.entries.length parts)
          (Dict.ofList v.entries) :=
        (counted_takes hfits.1 hentries).map (f := Dict.ofList) fun _ => rfl
      rwa [hself] at hdict
  | queue s ih =>
      obtain ⟨parts, hparts, h⟩ := eq_ok_of_bind h
      cases h
      exact record_takes hfits.1 (forall₂_of_mapM (fun v hv _ => ih (hfits.2 v hv)) hparts)

end Shape

/-! ### Queues -/

namespace Record

variable {s : Shape} {r : Record s.Value} {bytes : List UInt8}

theorem toBytes_of_binary (h : r.binary = .ok bytes) : (Shape.queue s).toBytes r = .ok bytes := by
  unfold binary Shape.encode at h
  cases hbytes : (Shape.queue s).toBytes r with
  | ok bytes' =>
      rw [hbytes] at h
      exact congrArg Except.ok (Except.ok.inj h)
  | error refusal =>
      rw [hbytes] at h
      cases h

theorem exists_binary_iff : (∃ bytes, r.binary = .ok bytes) ↔ ¬ (Shape.queue s).Refuses r := by
  refine Iff.trans ⟨fun ⟨bytes, h⟩ => ⟨bytes, toBytes_of_binary h⟩, fun ⟨bytes, h⟩ => ⟨bytes, ?_⟩⟩
    ((Shape.queue s).exists_toBytes_iff r)
  simp only [binary, Shape.encode, h]

/-- A record is read back from its bytes. -/
theorem ofBinary_append (hfits : (Shape.queue s).Fits r) (h : r.binary = .ok bytes)
    (junk : List UInt8) : ofBinary s (bytes ++ junk) = .ok r := by
  have htakes := (Shape.queue s).takes_toBytes hfits (toBytes_of_binary h)
  simp only [ofBinary, Shape.decode, htakes.reads]

/-- Nothing is read from a part of the bytes of a record. -/
theorem ofBinary_part (hfits : (Shape.queue s).Fits r) (h : r.binary = .ok bytes)
    {part : List UInt8} (hpart : part <+: bytes) (hne : part ≠ bytes) :
    ∃ reason, ofBinary s part = .error (.format reason) := by
  obtain ⟨fault, hfault⟩ :=
    ((Shape.queue s).takes_toBytes hfits (toBytes_of_binary h)).fails part hpart hne
  refine ⟨"Deserialization error: " ++ fault.message, ?_⟩
  simp only [ofBinary, Shape.decode, hfault]

end Record

namespace Machine

/-- Whether a queue is as a record keeps it, and no task holds or awaits anything of it. -/
structure HasQueue {α : Type} (M : Machine α) (q : QueueId) (r : Record α) : Prop where
  record : (M.queue q).toRecord = r
  free : (M.mutex (M.queue q).mutex).owner = none
  unlocked : (M.waiters (.mutex (M.queue q).mutex)).toList = []
  unawaited : ∀ c, c = (M.queue q).valueAvailable ∨ c = (M.queue q).spaceAvailable →
    (M.waiters (.condition c)).toList = []

theorem hasQueue_addQueue {α : Type} (M : Machine α) (config : Config) (r : Record α) :
    (M.addQueue config r).1.HasQueue (M.addQueue config r).2 r := by
  have hqueue : (M.addQueue config r).1.queue (M.addQueue config r).2 =
      ⟨M.mutexes.size, M.conditions.size, (M.conditions.add (.empty config)).size,
        (WaitList.empty config).append r.values, r.capacity⟩ := Table.get_add_self ..
  have hmutex : (M.addQueue config r).1.mutex M.mutexes.size = ⟨none, .empty config⟩ :=
    Table.get_add_self ..
  refine ⟨?_, ?_, ?_, ?_⟩
  · simp [hqueue, Queue.toRecord]
  · rw [hqueue, hmutex]
  · rw [hqueue]
    exact congrArg (fun m => m.waiting.toList) hmutex
  · rw [hqueue]
    rintro c (rfl | rfl)
    · show (((M.conditions.add (.empty config)).add (.empty config)).get _).toList = []
      rw [Table.get_add_of_lt _ _ (by simp [Table.size_add]), Table.get_add_self]
      rfl
    · show (((M.conditions.add (.empty config)).add (.empty config)).get _).toList = []
      rw [Table.get_add_self]
      rfl

/-- **A queue is restored from its bytes as it was stored.**  It has bytes unless one of its
values refuses to be written.  From the bytes, whatever follows them, any machine gets a queue
with the same bound and the same values, which no task holds or awaits; from a part of them it
gets none. -/
theorem restored_as_stored {s : Shape} (M : Machine s.Value) (q : QueueId)
    (hfits : (Shape.queue s).Fits (M.queue q).toRecord) :
    ((∃ bytes, M.storeQueue q = .ok bytes) ↔ ¬ (Shape.queue s).Refuses (M.queue q).toRecord) ∧
      ∀ bytes, M.storeQueue q = .ok bytes → ∀ (N : Machine s.Value) (config : Config),
        (∀ junk, ∃ N' q', N.restoreQueue config (bytes ++ junk) = .ok (N', q') ∧
          N'.HasQueue q' (M.queue q).toRecord) ∧
        ∀ part, part <+: bytes → part ≠ bytes →
          ∃ reason, N.restoreQueue config part = .error (.format reason) := by
  refine ⟨Record.exists_binary_iff, fun bytes h N config => ⟨fun junk => ?_, ?_⟩⟩
  · refine ⟨_, _, ?_, hasQueue_addQueue N config (M.queue q).toRecord⟩
    simp only [restoreQueue, Record.ofBinary_append hfits h]
    rfl
  · intro part hpart hne
    obtain ⟨reason, hreason⟩ := Record.ofBinary_part hfits h hpart hne
    refine ⟨reason, ?_⟩
    simp only [restoreQueue, hreason]
    rfl

/-- The values of a queue of queues, whose values are a dictionary and a character each. -/
abbrev nested : Shape :=
  .queue (.pair (.dict (.option .reluctant)) .character)

/-- Two queues in a queue with room for one, the first of them without bound. -/
def archived : Record nested.Value where
  capacity := Word.wrap 1
  values :=
    [⟨Word.wrap 0, [(⟨[("é", some ⟨7, by decide⟩)], List.pairwise_singleton _ _⟩, '€')]⟩,
      ⟨Word.wrap 2, []⟩]

def archive : Machine nested.Value :=
  ((ofTasks []).addQueue {} archived).1

def archivedBytes : List UInt8 :=
  [3, 0, 0, 0, 0, 0, 0, 0, 1, 0, 0, 0, 0, 0, 0, 0,
    2, 0, 0, 0, 0, 0, 0, 0, 0, 0, 0, 0, 0, 0, 0, 0,
    1, 0, 0, 0, 0, 0, 0, 0, 2, 0, 0, 0, 0, 0, 0, 0, 195, 169, 1, 7, 0, 0, 0, 0, 0, 0, 0,
    226, 130, 172,
    1, 0, 0, 0, 0, 0, 0, 0, 2, 0, 0, 0, 0, 0, 0, 0]

theorem fits_archived : (Shape.queue nested).Fits archived := by
  have hentry : (Shape.dict (.option .reluctant)).Fits (⟨[("é", some ⟨7, by decide⟩)],
      List.pairwise_singleton _ _⟩ : Dict (Option (Signed .w64))) :=
    ⟨by decide, List.forall_mem_singleton.2 ⟨by decide, fun _ _ => trivial⟩⟩
  refine ⟨by decide, List.forall_mem_cons.2 ⟨⟨by decide, ?_⟩, List.forall_mem_singleton.2 ?_⟩⟩
  · exact List.forall_mem_singleton.2 ⟨hentry, trivial⟩
  · exact ⟨by decide, List.forall_mem_nil _⟩

theorem restored_as_stored_nested : archive.storeQueue 0 = .ok archivedBytes ∧
    ¬ (Shape.queue nested).Refuses (archive.queue 0).toRecord ∧
    (∃ N q, archive.restoreQueue {} (archivedBytes ++ [9]) = .ok (N, q) ∧ N.HasQueue q archived) ∧
    ∃ reason, archive.restoreQueue {} (archivedBytes.take 75) = .error (.format reason) := by
  have hstored : archive.storeQueue 0 = .ok archivedBytes := rfl
  obtain ⟨hwritten, hrestored⟩ := restored_as_stored archive 0 fits_archived
  obtain ⟨hjunk, hpart⟩ := hrestored _ hstored archive {}
  exact ⟨hstored, hwritten.1 ⟨_, hstored⟩, hjunk [9],
    hpart _ (List.take_prefix _ _) (by decide)⟩

end Machine

end BlockingSync
