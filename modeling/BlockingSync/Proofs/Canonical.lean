/-
The bytes of a queue are the only ones that are read as the queue.

Every reader but that of dictionaries returns its bytes, by induction on the shape
(`returns_toBytes`).  The reader of dictionaries takes entries in any order and keeps the last
of several with one key.  But it reads them as a list is read (`binaryReader_eq`), and the
dictionary that is made of the list has the same entries in the same order if their keys
ascend, so it is written as the list is (`toBytes_tidy`).
-/
import BlockingSync.Proofs.Intake

namespace BlockingSync

/-! ### Dictionaries as lists -/

namespace Dict

variable {α β : Type}

theorem length_insertSorted_le (key : String) (v : α) (entries : List (String × α)) :
    (insertSorted key v entries).length ≤ entries.length + 1 := by
  induction entries with
  | nil => exact Nat.le_refl _
  | cons e entries ih =>
      unfold insertSorted
      split
      · exact Nat.le_refl _
      · split
        · exact Nat.le_succ _
        · exact Nat.succ_le_succ ih

/-- Sorting adds no entries. -/
theorem of_sortedOf (entries : List (String × α)) :
    (sortedOf entries).length ≤ entries.length ∧ ∀ e ∈ sortedOf entries, e ∈ entries := by
  have hfold : ∀ rest done : List (String × α),
      let all := rest.foldl (fun sorted e => insertSorted e.1 e.2 sorted) done
      all.length ≤ done.length + rest.length ∧ ∀ e ∈ all, e ∈ done ∨ e ∈ rest := by
    intro rest
    induction rest with
    | nil => exact fun done => ⟨Nat.le_refl _, fun e he => .inl he⟩
    | cons e rest ih =>
        intro done
        obtain ⟨hlength, hmem⟩ := ih (insertSorted e.1 e.2 done)
        have := length_insertSorted_le e.1 e.2 done
        refine ⟨?_, fun d hd => ?_⟩
        · simp only [List.foldl_cons, List.length_cons]
          omega
        · rcases hmem d hd with hd | hd
          · rcases mem_insertSorted hd with rfl | hd
            · exact .inr List.mem_cons_self
            · exact .inl hd
          · exact .inr (List.mem_cons_of_mem _ hd)
  obtain ⟨hlength, hmem⟩ := hfold entries []
  rw [List.length_nil, Nat.zero_add] at hlength
  exact ⟨hlength, fun e he => (hmem e he).resolve_left List.not_mem_nil⟩

theorem Sorted.map {entries : List (String × α)} (h : Sorted entries) (f : α → β) :
    Sorted (entries.map (Prod.map id f)) :=
  List.pairwise_map.2 h

end Dict

theorem mapM_map_congr {α β γ ε : Type} {f : α → β} {g : β → Except ε γ} {g' : α → Except ε γ}
    {l : List α} (h : ∀ v ∈ l, g (f v) = g' v) : (l.map f).mapM g = l.mapM g' := by
  induction l with
  | nil => rfl
  | cons v l ih =>
      obtain ⟨hv, hl⟩ := List.forall_mem_cons.1 h
      rw [List.map_cons, List.mapM_cons, List.mapM_cons, hv, ih hl]

namespace Shape

open Binary

/-- Whether there is a dictionary in the values. -/
def hasDict : Shape → Bool
  | .unsigned _ | .signed _ | .boolean | .character | .text | .unit | .primitive _
  | .reluctant => false
  | .dict _ => true
  | .option s | .list s | .queue s => s.hasDict
  | .pair first second => first.hasDict || second.hasDict

/-- The shape with lists of entries in the place of its dictionaries. -/
def loose : Shape → Shape
  | .unsigned w => .unsigned w
  | .signed w => .signed w
  | .boolean => .boolean
  | .character => .character
  | .text => .text
  | .unit => .unit
  | .primitive kind => .primitive kind
  | .option s => .option s.loose
  | .list s => .list s.loose
  | .pair first second => .pair first.loose second.loose
  | .dict s => .list (.pair .text s.loose)
  | .queue s => .queue s.loose
  | .reluctant => .reluctant

/-- Makes a dictionary of each list of entries that stands for one. -/
def tidy : (s : Shape) → s.loose.Value → s.Value
  | .unsigned _, n => n
  | .signed _, n => n
  | .boolean, b => b
  | .character, c => c
  | .text, t => t
  | .unit, u => u
  | .primitive _, u => u
  | .option s, v => Option.map s.tidy v
  | .list s, vs => List.map s.tidy vs
  | .pair first second, p => Prod.map first.tidy second.tidy p
  | .dict s, entries => Dict.ofList (List.map (Prod.map id s.tidy) entries)
  | .queue s, r => ⟨Record.capacity r, (Record.values r).map s.tidy⟩
  | .reluctant, n => n

/-- Whether the keys ascend in each list of entries that stands for a dictionary. -/
def Ascends : (s : Shape) → s.loose.Value → Prop
  | .unsigned _, _ | .signed _, _ | .boolean, _ | .character, _ | .text, _ | .unit, _
  | .primitive _, _ | .reluctant, _ => True
  | .option s, v => ∀ u, v = some u → s.Ascends u
  | .list s, (vs : List s.loose.Value) => ∀ v ∈ vs, s.Ascends v
  | .pair first second, (v, w) => first.Ascends v ∧ second.Ascends w
  | .dict s, (entries : List (String × s.loose.Value)) =>
    Dict.Sorted entries ∧ ∀ e ∈ entries, s.Ascends e.2
  | .queue s, r => ∀ v ∈ Record.values r, s.Ascends v

theorem hasDict_loose (s : Shape) : s.loose.hasDict = false := by
  induction s with
  | option s ih | list s ih | dict s ih | queue s ih => simpa [loose, hasDict] using ih
  | pair first second ih₁ ih₂ => simp [loose, hasDict, ih₁, ih₂]
  | _ => rfl

theorem ascends_of_hasDict {s : Shape} (h : s.hasDict = false) (v : s.loose.Value) :
    s.Ascends v := by
  induction s with
  | option s ih => exact fun u _ => ih h u
  | list s ih => exact fun u _ => ih h u
  | queue s ih => exact fun u _ => ih h u
  | pair first second ih₁ ih₂ =>
      obtain ⟨h₁, h₂⟩ := Bool.or_eq_false_iff.1 h
      exact ⟨ih₁ h₁ v.1, ih₂ h₂ v.2⟩
  | dict s => cases h
  | _ => trivial

/-- Values are read by reading lists of entries, of which dictionaries are made. -/
theorem binaryReader_eq (s : Shape) : s.binaryReader = s.loose.binaryReader.map s.tidy := by
  induction s with
  | option s ih => rw [binaryReader, ih, readOption_map]; rfl
  | list s ih => rw [binaryReader, ih, readCounted_map]; rfl
  | pair first second ih₁ ih₂ => rw [binaryReader, ih₁, ih₂, readPair_map]; rfl
  | dict s ih =>
      have hdict : (dict s).binaryReader =
          (readCounted (readPair readText s.binaryReader)).map Dict.ofList := rfl
      have hentries : readPair readText s.binaryReader =
          (readPair readText s.loose.binaryReader).map (Prod.map id s.tidy) := by
        rw [← readPair_map, Reader.map_id, ih]
      rw [hdict, hentries, readCounted_map, Reader.map_map]
      rfl
  | queue s ih => rw [binaryReader, ih, readRecord_map]; rfl
  | _ => exact Reader.map_id.symm

/-- A dictionary writes its entries as they stood if their keys ascended. -/
theorem toBytes_tidy (s : Shape) {v : s.loose.Value} (h : s.Ascends v) :
    s.toBytes (s.tidy v) = s.loose.toBytes v := by
  induction s with
  | option s ih =>
      cases v with
      | none => rfl
      | some u => exact congrArg (fun part => do return 1 :: (← part)) (ih (h u rfl))
  | list s ih =>
      have hparts : (List.map s.tidy v).mapM s.toBytes = List.mapM s.loose.toBytes v :=
        mapM_map_congr fun u hu => ih (h u hu)
      have hlength : (List.map s.tidy v).length = List.length v := List.length_map ..
      exact congrArg₂ (fun n parts => do return writeCounted n (← parts)) hlength hparts
  | pair first second ih₁ ih₂ =>
      obtain ⟨u, w⟩ := v
      exact congrArg₂ (fun part part' => do return (← part) ++ (← part')) (ih₁ h.1) (ih₂ h.2)
  | dict s ih =>
      obtain ⟨hsorted, hvalues⟩ := h
      -- Sorting entries whose keys ascend leaves them where they are.
      have hentries : ((dict s).tidy v).entries = List.map (Prod.map id s.tidy) v :=
        Dict.sortedOf_of_sorted (hsorted.map s.tidy)
      have hparts : ((dict s).tidy v).entries.mapM (fun e => do
            return writeText e.1 ++ (← s.toBytes e.2)) =
          List.mapM (pair .text s.loose).toBytes v := by
        rw [hentries]
        exact mapM_map_congr fun e he =>
          congrArg (fun part => do return writeText e.1 ++ (← part)) (ih (hvalues e he))
      have hlength : ((dict s).tidy v).entries.length = List.length v := by
        rw [hentries]
        exact List.length_map ..
      exact congrArg₂ (fun n parts => do return writeCounted n (← parts)) hlength hparts
  | queue s ih =>
      have hparts : ((Record.values v).map s.tidy).mapM s.toBytes =
          (Record.values v).mapM s.loose.toBytes := mapM_map_congr fun u hu => ih (h u hu)
      have hlength : ((Record.values v).map s.tidy).length = (Record.values v).length :=
        List.length_map ..
      exact congrArg₂ (fun n parts => do
        return writeCounted (n + 1) (writeWord (Record.capacity v).val :: (← parts))) hlength hparts
  | _ => rfl

/-! ### What is read -/

/-- Without dictionaries the bytes of a value are the only ones that are read as the value. -/
theorem returns_toBytes {s : Shape} (h : s.hasDict = false) : s.binaryReader.Returns s.toBytes := by
  induction s with
  | unsigned w => exact .of_total eq_of_readUnsigned
  | signed w => exact .of_total eq_of_readSigned
  | boolean => exact .of_total eq_of_readBoolean
  | character => exact .of_total eq_of_readCharacter
  | text => exact .of_total eq_of_readText
  | unit | primitive =>
      intro bytes v rest out hread hout
      cases hread
      cases hout
      rfl
  | reluctant =>
      intro bytes v rest out hread hout
      simp only [toBytes] at hout
      split at hout <;> cases hout
      exact eq_of_readSigned hread
  | option s ih => exact option_returns (ih h) rfl fun v => rfl
  | list s ih => exact counted_returns (ih h)
  | pair first second ih₁ ih₂ =>
      obtain ⟨h₁, h₂⟩ := Bool.or_eq_false_iff.1 h
      exact pair_returns (ih₁ h₁) (ih₂ h₂)
  | dict s => cases h
  | queue s ih => exact record_returns (ih h)

/-- The counts of what is read are words. -/
theorem fits_of_read (s : Shape) : s.binaryReader.Yields s.Fits := by
  induction s with
  | unsigned | signed | boolean | character | unit | primitive | reluctant =>
      exact fun _ _ _ _ => trivial
  | text => exact fun _ _ _ h => length_of_readText h
  | option s ih => exact option_yields ih
  | list s ih => exact counted_yields ih
  | pair first second ih₁ ih₂ => exact pair_yields ih₁ ih₂
  | dict s ih =>
      intro bytes d rest h
      obtain ⟨⟨entries, rest'⟩, hentries, h⟩ := eq_ok_of_bind h
      cases h
      have hkey : readText.Yields fun t => (Text.Utf8.encode t.toList).length < Width.w64.limit :=
        fun _ _ _ h => length_of_readText h
      obtain ⟨hlength, hvalues⟩ := counted_yields (pair_yields hkey ih) hentries
      obtain ⟨hle, hmem⟩ := Dict.of_sortedOf entries
      exact ⟨Nat.lt_of_le_of_lt hle hlength, fun e he => hvalues e (hmem e he)⟩
  | queue s ih => exact record_yields ih

/-- What is read is written as the bytes that it was read from, if the keys of its dictionaries
stood there in ascending order. -/
theorem eq_of_read {s : Shape} {bytes rest out : List UInt8} {v : s.Value}
    (hread : s.binaryReader bytes = .ok (v, rest))
    (hascends : ∀ u, s.loose.binaryReader bytes = .ok (u, rest) → s.Ascends u)
    (hout : s.toBytes v = .ok out) : bytes = out ++ rest := by
  rw [binaryReader_eq, Reader.map_eq_ok_iff] at hread
  obtain ⟨u, hread, rfl⟩ := hread
  rw [toBytes_tidy s (hascends u hread)] at hout
  exact returns_toBytes s.hasDict_loose hread hout

end Shape

/-! ### Queues -/

namespace Record

variable {s : Shape} {r : Record s.Value} {bytes out : List UInt8}

/-- Whether the keys of each dictionary stand in ascending order in the bytes of a record, as they
are found when each dictionary is read as the list of its entries. -/
def Ordered (s : Shape) (bytes : List UInt8) : Prop :=
  ∀ r, ofBinary s.loose bytes = .ok r → (Shape.queue s).Ascends r

theorem exists_read_of_ofBinary (h : ofBinary s bytes = .ok r) :
    ∃ rest, (Shape.queue s).binaryReader bytes = .ok (r, rest) := by
  unfold ofBinary Shape.decode at h
  cases hread : (Shape.queue s).binaryReader bytes with
  | ok p =>
      rw [hread] at h
      cases h
      exact ⟨p.2, rfl⟩
  | error fault =>
      rw [hread] at h
      cases h

theorem ofBinary_of_read {rest : List UInt8}
    (h : (Shape.queue s).binaryReader bytes = .ok (r, rest)) : ofBinary s bytes = .ok r := by
  simp only [ofBinary, Shape.decode, h]

/-- Without dictionaries there are no keys. -/
theorem ordered_of_hasDict (h : s.hasDict = false) (bytes : List UInt8) : Ordered s bytes :=
  fun r _ => Shape.ascends_of_hasDict (s := .queue s) h r

theorem fits_of_ofBinary (h : ofBinary s bytes = .ok r) : (Shape.queue s).Fits r := by
  obtain ⟨rest, hread⟩ := exists_read_of_ofBinary h
  exact (Shape.queue s).fits_of_read hread

/-- Behind the bytes of the record that was read stands nothing that was read. -/
theorem exists_append_of_ofBinary (h : ofBinary s bytes = .ok r) (hordered : Ordered s bytes)
    (hout : r.binary = .ok out) : ∃ junk, bytes = out ++ junk := by
  obtain ⟨rest, hread⟩ := exists_read_of_ofBinary h
  refine ⟨rest, Shape.eq_of_read hread (fun u hu => ?_) (toBytes_of_binary hout)⟩
  exact hordered u (ofBinary_of_read (s := s.loose) hu)

end Record

namespace Machine

theorem exists_of_restoreQueue {s : Shape} {M N : Machine s.Value} {config : Config}
    {bytes : List UInt8} {q : QueueId} (h : M.restoreQueue config bytes = .ok (N, q)) :
    Record.ofBinary s bytes = .ok (N.queue q).toRecord := by
  obtain ⟨r, hr, h⟩ := eq_ok_of_bind h
  have hadded := hasQueue_addQueue M config r
  rw [show M.addQueue config r = (N, q) from Except.ok.inj h] at hadded
  rw [hr, hadded.record]

theorem exists_restoreQueue {s : Shape} {bytes : List UInt8} {r : Record s.Value}
    (h : Record.ofBinary s bytes = .ok r) (M : Machine s.Value) (config : Config) :
    ∃ N q, M.restoreQueue config bytes = .ok (N, q) ∧ N.HasQueue q r := by
  refine ⟨_, _, ?_, hasQueue_addQueue M config r⟩
  simp only [restoreQueue, h]
  rfl

/-- **Bytes that are read as the same queue differ only in what stands behind it.**  A queue that
was restored from any bytes can be stored again, unless one of its values refuses to be written,
and what it is stored as restores it.  If the keys of each dictionary stood in the bytes in
ascending order, as all keys do where there are no dictionaries, then it is stored as these very
bytes, less those that nothing was read from. -/
theorem stored_as_restored {s : Shape} {M N : Machine s.Value} {config : Config}
    {bytes : List UInt8} {q : QueueId} (hrestored : M.restoreQueue config bytes = .ok (N, q))
    (hwilling : ¬ (Shape.queue s).Refuses (N.queue q).toRecord) :
    ∃ out, N.storeQueue q = .ok out ∧
      (∀ (M' : Machine s.Value) (config' : Config), ∃ N' q',
        M'.restoreQueue config' out = .ok (N', q') ∧ N'.HasQueue q' (N.queue q).toRecord) ∧
      (Record.Ordered s bytes → out <+: bytes ∧
        ∀ (M' N' : Machine s.Value) (config' : Config) (bytes' : List UInt8) (q' : QueueId),
          M'.restoreQueue config' bytes' = .ok (N', q') →
          (N'.queue q').toRecord = (N.queue q).toRecord → Record.Ordered s bytes' →
          ∃ junk junk', bytes = out ++ junk ∧ bytes' = out ++ junk') ∧
      (s.hasDict = false → ∀ bytes', Record.Ordered s bytes') := by
  have hread := exists_of_restoreQueue hrestored
  obtain ⟨out, hout⟩ := Record.exists_binary_iff.2 hwilling
  refine ⟨out, hout, fun M' config' => ?_, fun hordered => ?_, Record.ordered_of_hasDict⟩
  · have hagain := Record.ofBinary_append (Record.fits_of_ofBinary hread) hout []
    rw [List.append_nil] at hagain
    exact exists_restoreQueue hagain M' config'
  · obtain ⟨junk, hjunk⟩ := Record.exists_append_of_ofBinary hread hordered hout
    refine ⟨⟨junk, hjunk.symm⟩, fun M' N' config' bytes' q' hrestored' hsame hordered' => ?_⟩
    have hread' := exists_of_restoreQueue hrestored'
    rw [hsame] at hread'
    obtain ⟨junk', hjunk'⟩ := Record.exists_append_of_ofBinary hread' hordered' hout
    exact ⟨junk, junk', hjunk, hjunk'⟩

/-- A dictionary, and a character that may be absent. -/
abbrev labelled : Shape :=
  .pair (.dict (.unsigned .w8)) (.option .character)

/-- A queue with room for five that holds one value. -/
def labels : Record labelled.Value where
  capacity := Word.wrap 5
  values := [(⟨[("a", ⟨8, by decide⟩), ("b", ⟨9, by decide⟩)], List.pairwise_pair.2 (by decide)⟩,
    some 'é')]

def labelBytes : List UInt8 :=
  [2, 0, 0, 0, 0, 0, 0, 0, 5, 0, 0, 0, 0, 0, 0, 0,
    2, 0, 0, 0, 0, 0, 0, 0, 1, 0, 0, 0, 0, 0, 0, 0, 97, 8, 1, 0, 0, 0, 0, 0, 0, 0, 98, 9,
    1, 195, 169]

/-- The same with another entry in front, which gives way to the last one, and a byte behind. -/
def disorderedBytes : List UInt8 :=
  [2, 0, 0, 0, 0, 0, 0, 0, 5, 0, 0, 0, 0, 0, 0, 0,
    3, 0, 0, 0, 0, 0, 0, 0, 1, 0, 0, 0, 0, 0, 0, 0, 98, 7, 1, 0, 0, 0, 0, 0, 0, 0, 97, 8,
    1, 0, 0, 0, 0, 0, 0, 0, 98, 9, 1, 195, 169, 4]

def labelShelf : Machine labelled.Value :=
  ((ofTasks []).addQueue {} labels).1

theorem ordered_labelBytes : Record.Ordered labelled (labelBytes ++ [4]) := by
  have hread : Record.ofBinary labelled.loose (labelBytes ++ [4]) = .ok
      ⟨Word.wrap 5, [([("a", ⟨8, by decide⟩), ("b", ⟨9, by decide⟩)], some 'é')]⟩ := by
    with_unfolding_all rfl
  intro r hr
  cases hread.symm.trans hr
  have hentries : (Shape.dict (.unsigned .w8)).Ascends
      [("a", ⟨8, by decide⟩), ("b", ⟨9, by decide⟩)] :=
    ⟨List.pairwise_pair.2 (by decide), fun _ _ => trivial⟩
  exact List.forall_mem_singleton.2 ⟨hentries, fun _ _ => trivial⟩

/-- Bytes with an entry too many are read as the queue, but are not those that it is stored as;
the latter are, also with a byte behind. -/
theorem stored_as_restored_disordered :
    ¬ (Shape.queue labelled).Refuses (labelShelf.queue 0).toRecord ∧
    labelShelf.storeQueue 0 = .ok labelBytes ∧
    (ofTasks []).restoreQueue {} disorderedBytes = .ok (labelShelf, 0) ∧
    ¬ labelBytes <+: disorderedBytes ∧
    (∃ N q, labelShelf.restoreQueue {} labelBytes = .ok (N, q) ∧ N.HasQueue q labels) ∧
    (ofTasks []).restoreQueue {} (labelBytes ++ [4]) = .ok (labelShelf, 0) ∧
    Record.Ordered labelled (labelBytes ++ [4]) ∧ labelBytes <+: labelBytes ++ [4] := by
  have hwilling : ¬ (Shape.queue labelled).Refuses (labelShelf.queue 0).toRecord :=
    (Shape.exists_toBytes_iff _ _).1 ⟨labelBytes, rfl⟩
  have hstored : labelShelf.storeQueue 0 = .ok labelBytes := rfl
  have hread : Record.ofBinary labelled disorderedBytes = .ok labels := by
    with_unfolding_all rfl
  have hread' : Record.ofBinary labelled (labelBytes ++ [4]) = .ok labels := by
    with_unfolding_all rfl
  have hrestored : (ofTasks []).restoreQueue {} disorderedBytes = .ok (labelShelf, 0) := by
    simp only [restoreQueue, hread]
    rfl
  have hrestored' : (ofTasks []).restoreQueue {} (labelBytes ++ [4]) = .ok (labelShelf, 0) := by
    simp only [restoreQueue, hread']
    rfl
  obtain ⟨out, hout, hagain, -⟩ := stored_as_restored hrestored hwilling
  obtain ⟨out', hout', -, hsame, -⟩ := stored_as_restored hrestored' hwilling
  cases hstored.symm.trans hout
  cases hstored.symm.trans hout'
  exact ⟨hwilling, hstored, hrestored, by decide, hagain labelShelf {}, hrestored',
    ordered_labelBytes, (hsame ordered_labelBytes).1⟩

end Machine

end BlockingSync
