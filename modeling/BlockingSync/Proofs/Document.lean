/-
JSON values of any kind are read back from their text.

A reader of any kind of value counts down how deep values may be nested, and what a value is
inside is read by the reader for one bracket less.  So the induction is on that number, and
the values inside are told apart from the whole only by their depth: a value that is not
nested too deep is taken (`reader_takes`), and any other is refused (`reader_refuses`).
Decimal numbers are left out; they are kept as they are written.
-/
import BlockingSync.Proofs.Reading

namespace BlockingSync.Json

variable {α β : Type}

/-! ### Values -/

mutual

/-- The greatest number of brackets that are open at once. -/
def depth : Json → Nat
  | .array vs => elementsDepth vs + 1
  | .object ms => membersDepth ms + 1
  | _ => 0

def elementsDepth : List Json → Nat
  | [] => 0
  | v :: vs => max v.depth (elementsDepth vs)

def membersDepth : List (String × Json) → Nat
  | [] => 0
  | (_, v) :: ms => max v.depth (membersDepth ms)

end

mutual

/-- Whether a value has no decimal numbers in it, every integer fits a word, and every object
lists its keys in order. -/
def IsPlain : Json → Prop
  | .integer n => IsWord n
  | .decimal _ => False
  | .array vs => ArePlain vs
  | .object ms => Dict.Sorted ms ∧ MembersPlain ms
  | _ => True

def ArePlain : List Json → Prop
  | [] => True
  | v :: vs => v.IsPlain ∧ ArePlain vs

def MembersPlain : List (String × Json) → Prop
  | [] => True
  | (_, v) :: ms => v.IsPlain ∧ MembersPlain ms

end

theorem arePlain_iff {vs : List Json} : ArePlain vs ↔ ∀ v ∈ vs, v.IsPlain := by
  induction vs with
  | nil => simp [ArePlain]
  | cons v vs ih => rw [ArePlain, ih, List.forall_mem_cons]

theorem membersPlain_iff {ms : List (String × Json)} :
    MembersPlain ms ↔ ∀ m ∈ ms, m.2.IsPlain := by
  induction ms with
  | nil => simp [MembersPlain]
  | cons m ms ih =>
      obtain ⟨key, v⟩ := m
      rw [MembersPlain, ih, List.forall_mem_cons]

theorem elementsDepth_le {vs : List Json} {d : Nat} :
    elementsDepth vs ≤ d ↔ ∀ v ∈ vs, v.depth ≤ d := by
  induction vs with
  | nil => simp [elementsDepth]
  | cons v vs ih => rw [elementsDepth, Nat.max_le, ih, List.forall_mem_cons]

theorem membersDepth_le {ms : List (String × Json)} {d : Nat} :
    membersDepth ms ≤ d ↔ ∀ m ∈ ms, m.2.depth ≤ d := by
  induction ms with
  | nil => simp [membersDepth]
  | cons m ms ih =>
      obtain ⟨key, v⟩ := m
      rw [membersDepth, Nat.max_le, ih, List.forall_mem_cons]

theorem lt_elementsDepth {vs : List Json} {d : Nat} :
    d < elementsDepth vs ↔ ∃ v ∈ vs, d < v.depth := by
  rw [← Nat.not_le, elementsDepth_le]
  simp

theorem lt_membersDepth {ms : List (String × Json)} {d : Nat} :
    d < membersDepth ms ↔ ∃ m ∈ ms, d < m.2.depth := by
  rw [← Nat.not_le, membersDepth_le]
  simp

/-! ### What is read -/

theorem readerOver_piece {inner : Option (Reader Json)} {cs : List Char} {head : Head} {v : Json}
    (h : Reader.Takes readHead cs head)
    (hreads : ∀ text rest, readHead text = .ok (head, rest) →
      readerOver inner text = .ok (v, rest)) : (readerOver inner).Takes cs v := by
  refine h.piece hreads fun text w rest hread => ?_
  obtain ⟨⟨head, rest'⟩, hhead, hread⟩ := eq_ok_of_bind hread
  refine ⟨head, rest', hhead, ?_⟩
  rintro rfl
  cases head with
  | number n written =>
      cases n <;> cases hread <;> rfl
  | array | object => cases inner <;> cases hread
  | _ => cases hread; rfl

/-- A scalar is read at any depth. -/
theorem scalar_takes {inner : Option (Reader Json)} {j : Json} (hplain : j.IsPlain)
    (hdepth : j.depth = 0) : (readerOver inner).Takes j.chars j := by
  cases j with
  | null =>
      refine readerOver_piece (null_closes.takes rfl) fun text rest hhead => ?_
      simp only [readerOver, hhead]
      rfl
  | boolean b =>
      refine readerOver_piece (boolean_takes b) fun text rest hhead => ?_
      simp only [readerOver, hhead]
      rfl
  | integer n =>
      refine readerOver_piece (integer_takes hplain) fun text rest hhead => ?_
      simp only [readerOver, hhead]
      rfl
  | decimal written => exact absurd hplain id
  | text t =>
      refine readerOver_piece (text_takes t.toList) fun text rest hhead => ?_
      simp only [readerOver, hhead, bind, Except.bind, String.ofList_toList]
      rfl
  | array vs => cases hdepth
  | object ms => cases hdepth

theorem readerOver_array {value : Reader Json} {vs : List Json}
    (h : List.Forall₂ value.Takes (elementChars vs) vs) :
    (readerOver (some value)).Closes (array vs).chars (.array vs) := by
  have hbody : Reader.Closes (fun cs => readerOver (some value) ('[' :: cs)) _ (.array vs) :=
    (elements_closes h).map (f := Json.array) fun _ => rfl
  exact hbody.cons ⟨.endInValue, rfl⟩ fun _ => rfl

theorem readerOver_object {value : Reader Json} {ms : List (String × Json)}
    (hsorted : Dict.Sorted ms) (h : ∀ m ∈ ms, value.Takes m.2.chars m.2) :
    (readerOver (some value)).Closes (object ms).chars (.object ms) := by
  have hentries : List.Forall₂ (fun part e => ∃ text, part = memberText e.1 text ∧
      value.Takes text e.2) (memberChars ms) ms := by
    rw [memberChars_eq, List.forall₂_map_left_iff]
    exact List.forall₂_same.2 fun m hm => ⟨m.2.chars, rfl, h m hm⟩
  have hbody : Reader.Closes (fun cs => readerOver (some value) ('\x7b' :: cs)) _
      (.object (Dict.sortedOf ms)) :=
    (members_closes hentries).map (f := fun ms => Json.object (Dict.sortedOf ms)) fun _ => rfl
  rw [Dict.sortedOf_of_sorted hsorted] at hbody
  exact hbody.cons ⟨.endInValue, rfl⟩ fun _ => rfl

/-- **A value that is not nested too deep is read back from its text.** -/
theorem reader_takes {j : Json} {d : Nat} (hplain : j.IsPlain) (hdepth : j.depth ≤ d) :
    (reader (d + 1)).Takes j.chars j := by
  induction d generalizing j with
  | zero => exact scalar_takes hplain (Nat.le_zero.1 hdepth)
  | succ d ih =>
      cases j with
      | array vs =>
          have hvs : ∀ v ∈ vs, (reader (d + 1)).Takes v.chars v := by
            intro v hv
            exact ih (arePlain_iff.1 hplain v hv)
              (elementsDepth_le.1 (Nat.le_of_succ_le_succ hdepth) v hv)
          refine (readerOver_array ?_).takes rfl
          rw [elementChars_eq, List.forall₂_map_left_iff]
          exact List.forall₂_same.2 hvs
      | object ms =>
          have hms : ∀ m ∈ ms, (reader (d + 1)).Takes m.2.chars m.2 := by
            intro m hm
            exact ih (membersPlain_iff.1 hplain.2 m hm)
              (membersDepth_le.1 (Nat.le_of_succ_le_succ hdepth) m hm)
          exact (readerOver_object hplain.1 hms).takes rfl
      | _ => exact scalar_takes hplain rfl

/-! ### What is refused -/

/-- Whether a reader reads nothing from these characters, unless they go on with a number. -/
def Reader.Refuses (reader : Reader α) (cs : List Char) : Prop :=
  ∀ rest, Ends rest → ∃ fault, reader (cs ++ rest) = .error fault

theorem Reader.Refuses.cons {reader next : Reader α} {c : Char} {cs : List Char}
    (h : next.Refuses cs) (hcons : ∀ rest, reader (c :: rest) = next rest) :
    reader.Refuses (c :: cs) := by
  intro rest hrest
  rw [List.cons_append, hcons]
  exact h rest hrest

theorem Reader.Refuses.bind {reader : Reader β} {first : Reader α} {cs : List Char}
    {f : α × List Char → Except Fault (β × List Char)} (h : first.Refuses cs)
    (heq : ∀ cs, reader cs = first cs >>= f) : reader.Refuses cs := by
  intro rest hrest
  obtain ⟨fault, hfault⟩ := h rest hrest
  exact ⟨fault, by rw [heq, hfault]; rfl⟩

namespace Row

variable {row : Row α} {parts : List (List Char)}

/-- Whether a part is read, as the first or a later one. -/
def Picks (row : Row α) (part : List Char) : Prop :=
  ∃ v, (row.pick true).Scans part (some v) ∧ (row.pick false).Scans (',' :: part) (some v)

/-- Whether a part is not read, neither as the first nor as a later one. -/
def Refuses (row : Row α) (part : List Char) : Prop :=
  (row.pick true).Refuses part ∧ (row.pick false).Refuses (',' :: part)

variable {first : Bool} {xs : List Char}

/-- A row is not read past a part that is refused. -/
theorem part_refuses (h : (row.pick first).Refuses xs) (fuel : Nat) :
    (row.readFrom fuel first).Refuses (xs ++ later row.closer parts) := by
  intro rest hrest
  cases fuel with
  | zero => exact ⟨row.fault, rfl⟩
  | succ fuel =>
      obtain ⟨fault, hfault⟩ := h _ (row.ends_later parts rest)
      exact ⟨fault, by rw [readFrom, List.append_assoc, hfault]; rfl⟩

/-- Nor is it if what follows a part is refused. -/
theorem rest_refuses {v : α} (hv : (row.pick first).Scans xs (some v))
    (h : ∀ fuel, (row.readFrom fuel false).Refuses (later row.closer parts)) (fuel : Nat) :
    (row.readFrom fuel first).Refuses (xs ++ later row.closer parts) := by
  intro rest hrest
  cases fuel with
  | zero => exact ⟨row.fault, rfl⟩
  | succ fuel =>
      obtain ⟨fault, hfault⟩ := h fuel rest hrest
      refine ⟨fault, ?_⟩
      rw [readFrom, List.append_assoc, hv.reads _ (row.ends_later parts rest)]
      show row.readFrom fuel false _ >>= _ = _
      rw [hfault]
      rfl

theorem later_refuses (h : ∀ part ∈ parts, row.Picks part ∨ row.Refuses part)
    (hbad : ∃ part ∈ parts, row.Refuses part) (fuel : Nat) :
    (row.readFrom fuel false).Refuses (later row.closer parts) := by
  induction parts generalizing fuel with
  | nil =>
      obtain ⟨bad, hmem, -⟩ := hbad
      exact absurd hmem List.not_mem_nil
  | cons part parts ih =>
      obtain ⟨hpart, hparts⟩ := List.forall_mem_cons.1 h
      obtain ⟨bad, hmem, hrefuses⟩ := hbad
      rw [later_cons]
      rcases hpart with ⟨v, -, hscans⟩ | hpart
      · rcases List.mem_cons.1 hmem with rfl | hmem
        · exact part_refuses hrefuses.2 fuel
        · exact rest_refuses hscans (ih hparts ⟨bad, hmem, hrefuses⟩) fuel
      · exact part_refuses hpart.2 fuel

/-- **A row is read only if all its parts are.** -/
theorem read_refuses (h : ∀ part ∈ parts, row.Picks part ∨ row.Refuses part)
    (hbad : ∃ part ∈ parts, row.Refuses part) :
    (row.read true).Refuses (commaSeparated parts ++ [row.closer]) := by
  intro rest
  cases parts with
  | nil =>
      obtain ⟨bad, hmem, -⟩ := hbad
      exact absurd hmem List.not_mem_nil
  | cons part parts =>
      obtain ⟨hpart, hparts⟩ := List.forall_mem_cons.1 h
      obtain ⟨bad, hmem, hrefuses⟩ := hbad
      rw [commaSeparated_later]
      rcases hpart with ⟨v, hscans, -⟩ | hpart
      · rcases List.mem_cons.1 hmem with rfl | hmem
        · exact part_refuses hrefuses.1 _ rest
        · exact rest_refuses hscans (later_refuses hparts ⟨bad, hmem, hrefuses⟩) _ rest
      · exact part_refuses hpart.1 _ rest

end Row

variable {element value : Reader α} {part : List Char} {v : α}

theorem elementRow_picks (h : element.Takes part v) : (elementRow element).Picks part :=
  ⟨v, pickElement_first h, pickElement_later h⟩

theorem pickElement_fails {first : Bool} {cs text : List Char} {fault : Fault}
    (hnext : nextElement first cs = .ok (some text)) (h : element text = .error fault) :
    pickElement element first cs = .error fault := by
  rw [pickElement_of_next hnext, h]
  rfl

theorem elementRow_refuses {c : Char} {tail : List Char} (hpart : part = c :: tail)
    (hc : isOpening c = true) (h : element.Refuses part) : (elementRow element).Refuses part := by
  subst hpart
  refine ⟨fun rest hrest => ?_, fun rest hrest => ?_⟩
  · obtain ⟨fault, hfault⟩ := h rest hrest
    exact ⟨fault, pickElement_fails (nextElement_first hc _) hfault⟩
  · obtain ⟨fault, hfault⟩ := h rest hrest
    exact ⟨fault, pickElement_fails (nextElement_later hc _) hfault⟩

theorem memberRow_picks (key : String) (h : value.Takes part v) :
    (memberRow value).Picks (memberText key part) :=
  ⟨(key, v), pickMember_first key h, pickMember_later key h⟩

theorem pickMember_fails {first : Bool} {cs text : List Char} {fault : Fault}
    (hnext : nextKey first cs = .ok (some text)) (h : memberReader value text = .error fault) :
    pickMember value first cs = .error fault := by
  rw [pickMember_of_next hnext, h]
  rfl

theorem memberRow_refuses (key : String) (h : value.Refuses part) :
    (memberRow value).Refuses (memberText key part) := by
  let text : List Char → List Char := fun rest =>
    key.toList.flatMap escapeChar ++ ['"'] ++ (':' :: part ++ rest)
  have htext : ∀ rest, memberText key part ++ rest = '"' :: text rest := fun rest => by
    simp [text, memberText, writeText]
  have hmember : ∀ rest, Ends rest → ∃ fault, memberReader value (text rest) = .error fault := by
    intro rest hrest
    obtain ⟨fault, hfault⟩ := h rest hrest
    refine ⟨fault, ?_⟩
    rw [memberReader, (readText_closes key.toList).reads]
    show value (part ++ rest) >>= _ = _
    rw [hfault]
    rfl
  refine ⟨fun rest hrest => ?_, fun rest hrest => ?_⟩
  · obtain ⟨fault, hfault⟩ := hmember rest hrest
    rw [htext]
    exact ⟨fault, pickMember_fails rfl hfault⟩
  · obtain ⟨fault, hfault⟩ := hmember rest hrest
    rw [List.cons_append, htext]
    exact ⟨fault, pickMember_fails rfl hfault⟩

/-! ### Too deep -/

theorem isOpening_of_plain {j : Json} (hplain : j.IsPlain) :
    ∃ c tail, j.chars = c :: tail ∧ isOpening c = true :=
  (reader_takes hplain (Nat.le_refl j.depth)).opens

/-- Each value of a list is read or not, by its depth. -/
theorem elements_pick {d : Nat} {vs : List Json} (hplain : ∀ v ∈ vs, v.IsPlain)
    (h : ∀ v ∈ vs, d < v.depth → (reader (d + 1)).Refuses v.chars) :
    (∀ part ∈ elementChars vs, (elementRow (reader (d + 1))).Picks part ∨
        (elementRow (reader (d + 1))).Refuses part) ∧
      ((∃ v ∈ vs, d < v.depth) →
        ∃ part ∈ elementChars vs, (elementRow (reader (d + 1))).Refuses part) := by
  have hrefuses : ∀ v ∈ vs, d < v.depth → (elementRow (reader (d + 1))).Refuses v.chars := by
    intro v hv hdeep
    obtain ⟨c, tail, hchars, hc⟩ := isOpening_of_plain (hplain v hv)
    exact elementRow_refuses hchars hc (h v hv hdeep)
  rw [elementChars_eq]
  refine ⟨fun part hpart => ?_, fun ⟨v, hv, hdeep⟩ =>
    ⟨v.chars, List.mem_map_of_mem hv, hrefuses v hv hdeep⟩⟩
  obtain ⟨v, hv, rfl⟩ := List.mem_map.1 hpart
  rcases Nat.lt_or_ge d v.depth with hdeep | hdepth
  · exact .inr (hrefuses v hv hdeep)
  · exact .inl (elementRow_picks (reader_takes (hplain v hv) hdepth))

/-- The same of the members of an object. -/
theorem members_pick {d : Nat} {ms : List (String × Json)} (hplain : ∀ m ∈ ms, m.2.IsPlain)
    (h : ∀ m ∈ ms, d < m.2.depth → (reader (d + 1)).Refuses m.2.chars) :
    (∀ part ∈ memberChars ms, (memberRow (reader (d + 1))).Picks part ∨
        (memberRow (reader (d + 1))).Refuses part) ∧
      ((∃ m ∈ ms, d < m.2.depth) →
        ∃ part ∈ memberChars ms, (memberRow (reader (d + 1))).Refuses part) := by
  rw [memberChars_eq]
  refine ⟨fun part hpart => ?_, fun ⟨m, hm, hdeep⟩ =>
    ⟨_, List.mem_map_of_mem hm, memberRow_refuses m.1 (h m hm hdeep)⟩⟩
  obtain ⟨m, hm, rfl⟩ := List.mem_map.1 hpart
  rcases Nat.lt_or_ge d m.2.depth with hdeep | hdepth
  · exact .inr (memberRow_refuses m.1 (h m hm hdeep))
  · exact .inl (memberRow_picks m.1 (reader_takes (hplain m hm) hdepth))

/-- **A value that is nested too deep is not read.** -/
theorem reader_refuses {j : Json} {d : Nat} (hplain : j.IsPlain) (hdepth : d < j.depth) :
    (reader (d + 1)).Refuses j.chars := by
  induction d generalizing j with
  | zero =>
      cases j with
      | array vs => exact fun _ _ => ⟨.tooDeep, rfl⟩
      | object ms => exact fun _ _ => ⟨.tooDeep, rfl⟩
      | _ => cases hdepth
  | succ d ih =>
      cases j with
      | array vs =>
          have hplain := arePlain_iff.1 hplain
          obtain ⟨hparts, hbad⟩ := elements_pick (d := d) hplain fun v hv => ih (hplain v hv)
          have hdeep : ∃ v ∈ vs, d < v.depth :=
            lt_elementsDepth.1 (Nat.lt_of_succ_lt_succ hdepth)
          have hrow : (elements (reader (d + 1)) true).Refuses
              (commaSeparated (elementChars vs) ++ [']']) := by
            rw [elements_eq]
            exact Row.read_refuses hparts (hbad hdeep)
          have hbody : Reader.Refuses (fun cs => reader (d + 2) ('[' :: cs)) _ :=
            hrow.bind fun _ => rfl
          exact hbody.cons fun _ => rfl
      | object ms =>
          have hplain := membersPlain_iff.1 hplain.2
          obtain ⟨hparts, hbad⟩ := members_pick (d := d) hplain fun m hm => ih (hplain m hm)
          have hdeep : ∃ m ∈ ms, d < m.2.depth :=
            lt_membersDepth.1 (Nat.lt_of_succ_lt_succ hdepth)
          have hrow : (members (reader (d + 1))).Refuses
              (commaSeparated (memberChars ms) ++ ['\x7d']) := by
            rw [members_eq]
            exact Row.read_refuses hparts (hbad hdeep)
          have hbody : Reader.Refuses (fun cs => reader (d + 2) ('\x7b' :: cs)) _ :=
            hrow.bind fun _ => rfl
          exact hbody.cons fun _ => rfl
      | _ => cases hdepth

/-! ### Records -/

theorem record_takes {r : Record Json} {d : Nat} (hplain : ∀ v ∈ r.values, v.IsPlain)
    (hdepth : ∀ v ∈ r.values, v.depth ≤ d) :
    (recordReader (reader (d + 1))).Closes r.toJson.chars r := by
  refine record_closes ?_
  rw [elementChars_eq, List.forall₂_map_left_iff]
  exact List.forall₂_same.2 fun v hv => reader_takes (hplain v hv) (hdepth v hv)

theorem record_refuses {r : Record Json} {d : Nat} (hplain : ∀ v ∈ r.values, v.IsPlain)
    (hdeep : ∃ v ∈ r.values, d < v.depth) :
    (recordReader (reader (d + 1))).Refuses r.toJson.chars := by
  obtain ⟨hparts, hbad⟩ := elements_pick (d := d) hplain fun v hv => reader_refuses (hplain v hv)
  have hcapacity := pickElement_first (unsigned_takes (w := .w64) r.capacity)
  intro rest hrest
  have hvalues : ∃ fault, elements (reader (d + 1)) false
      (Row.later ']' (elementChars r.values) ++ rest) = .error fault := by
    rw [elements_eq]
    exact Row.later_refuses hparts (hbad hdeep) _ rest hrest
  have hends : Ends (Row.later ']' (elementChars r.values) ++ rest) :=
    (elementRow (reader (d + 1))).ends_later _ _
  obtain ⟨fault, hfault⟩ := hvalues
  refine ⟨fault, ?_⟩
  show recordReader _ ('[' :: (commaSeparated ((Json.integer r.capacity.val).chars ::
    elementChars r.values) ++ [']'] ++ rest)) = _
  rw [recordReader_cons, Row.commaSeparated_later, List.append_assoc, hcapacity.reads _ hends]
  show elements (reader (d + 1)) false _ >>= _ = _
  rw [hfault]
  rfl

end BlockingSync.Json

namespace BlockingSync.Record

open Json

variable {r : Record Json} {d : Nat}

/-- A record is read back from its text if no value is nested too deep. -/
theorem ofJsonText_toJson (hplain : ∀ v ∈ r.values, v.IsPlain)
    (hdepth : ∀ v ∈ r.values, v.depth ≤ d) :
    ofJsonText (reader (d + 1)) r.toJson.compact = .ok r := by
  have hread := (record_takes hplain hdepth).reads []
  rw [List.append_nil] at hread
  unfold ofJsonText readWhole compact
  rw [String.toList_ofList, hread]
  rfl

/-- **Only such a record is read back.** -/
theorem ofJsonText_eq_ok_iff (hplain : ∀ v ∈ r.values, v.IsPlain) (r' : Record Json) :
    ofJsonText (reader (d + 1)) r.toJson.compact = .ok r' ↔
      (∀ v ∈ r.values, v.depth ≤ d) ∧ r' = r := by
  by_cases hdepth : ∀ v ∈ r.values, v.depth ≤ d
  · rw [ofJsonText_toJson hplain hdepth]
    refine ⟨fun h => ⟨hdepth, (Except.ok.inj h).symm⟩, fun h => by rw [h.2]⟩
  · refine ⟨fun h => ?_, fun h => absurd h.1 hdepth⟩
    obtain ⟨fault, hfault⟩ := record_refuses (d := d) hplain (by simpa using hdepth) [] ends_nil
    rw [List.append_nil] at hfault
    unfold ofJsonText readWhole compact at h
    rw [String.toList_ofList, hfault] at h
    cases h

end BlockingSync.Record
