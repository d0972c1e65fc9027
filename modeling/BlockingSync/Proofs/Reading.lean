/-
A queue is restored from its JSON text as it was written.

Lists, objects and records are rows: parts with a comma between each two, and a closing
bracket.  How a row goes on is one loop for all of them (`Row`), and a row shows its own end
if each of its parts is scanned (`Row.read_closes`), by induction on the parts.  So what is
left is that each reader takes the text that the writer makes (`takes_chars`), by induction
on the shape.  An optional value is told from an absent one by what it opens with, so what
may be absent must not be written as nothing itself (`Shape.isClear`).
-/
import BlockingSync.Proofs.Spelling
import Mathlib.Data.List.Forall2
import Mathlib.Data.List.TakeWhile

namespace BlockingSync

namespace Json

variable {α β : Type}

/-! ### Rows -/

/-- How the parts between two brackets are read. -/
structure Row (α : Type) where
  /-- Reads the next part, the first or a later one, or nothing at the closing bracket. -/
  pick : Bool → Reader (Option α)
  close : List Char → Except Fault (List Char)
  /-- The fault of a text that is too short to count its parts. -/
  fault : Fault
  closer : Char
  pick_closer : ∀ first rest, pick first (closer :: rest) = .ok (none, closer :: rest)
  pick_nil : ∀ first, ∃ fault, pick first [] = .error fault
  close_closer : ∀ rest, close (closer :: rest) = .ok rest
  close_nil : ∃ fault, close [] = .error fault
  ends : inNumber closer = false

namespace Row

/-- Reads the parts up to the closing bracket. -/
def readFrom (row : Row α) : Nat → Bool → Reader (List α)
  | 0, _, _ => .error row.fault
  | fuel + 1, first, cs => do
    let (next, rest) ← row.pick first cs
    match next with
    | none => return ([], ← row.close rest)
    | some v =>
      let (vs, rest) ← row.readFrom fuel false rest
      return (v :: vs, rest)

/-- Reads the parts, of which there are no more than characters. -/
def read (row : Row α) (first : Bool) : Reader (List α) := fun cs =>
  row.readFrom (cs.length + 1) first cs

/-- What follows the first part of a row. -/
def later (closer : Char) (parts : List (List Char)) : List Char :=
  parts.flatMap (',' :: ·) ++ [closer]

theorem commaSeparated_cons (part : List Char) (parts : List (List Char)) :
    commaSeparated (part :: parts) = part ++ parts.flatMap (',' :: ·) := by
  induction parts generalizing part with
  | nil => simp [commaSeparated]
  | cons next parts ih => simp [commaSeparated, ih]

theorem later_cons (closer : Char) (part : List Char) (parts : List (List Char)) :
    later closer (part :: parts) = (',' :: part) ++ later closer parts := by
  simp [later]

theorem commaSeparated_later (closer : Char) (part : List Char) (parts : List (List Char)) :
    commaSeparated (part :: parts) ++ [closer] = part ++ later closer parts := by
  rw [commaSeparated_cons, List.append_assoc]
  rfl

variable {row : Row α} {first : Bool} {fuel : Nat} {parts : List (List Char)} {vs : List α}

theorem ends_later (row : Row α) (parts : List (List Char)) (rest : List Char) :
    Ends (later row.closer parts ++ rest) := by
  cases parts with
  | nil => exact ends_cons row.ends
  | cons part parts => exact ends_cons rfl

/-- More fuel than needed makes no difference. -/
theorem readFrom_of_le {more : Nat} {cs : List Char} {p : List α × List Char} (hle : fuel ≤ more)
    (h : row.readFrom fuel first cs = .ok p) : row.readFrom more first cs = .ok p := by
  induction fuel generalizing more first cs p with
  | zero => cases h
  | succ fuel ih =>
      obtain ⟨more, rfl⟩ : ∃ k, more = k + 1 := ⟨more - 1, by omega⟩
      unfold readFrom at h ⊢
      obtain ⟨⟨next, rest⟩, hpick, h⟩ := eq_ok_of_bind h
      rw [hpick]
      cases next with
      | none => exact h
      | some v =>
          obtain ⟨q, hq, h⟩ := eq_ok_of_bind h
          show row.readFrom more false rest >>= _ = _
          rw [ih (by omega) hq]
          exact h

theorem nil_closes (row : Row α) (first : Bool) (fuel : Nat) :
    (row.readFrom (fuel + 1) first).Closes [row.closer] [] := by
  refine ⟨fun rest => ?_, fun part hpart hne => ?_⟩
  · show row.pick first (row.closer :: rest) >>= _ = _
    rw [row.pick_closer]
    show row.close (row.closer :: rest) >>= _ = _
    rw [row.close_closer]
    rfl
  · cases part with
    | nil =>
        obtain ⟨fault, hfault⟩ := row.pick_nil first
        refine ⟨fault, ?_⟩
        rw [readFrom, hfault]
        rfl
    | cons c part =>
        obtain ⟨rfl, hrest⟩ := List.cons_prefix_cons.1 hpart
        exact absurd (by rw [List.prefix_nil.1 hrest]) hne

/-- A row goes on behind a part that is scanned. -/
theorem cons_closes {v : α} {xs : List Char} (hpick : (row.pick first).Scans xs (some v))
    (hrest : (row.readFrom fuel false).Closes (later row.closer parts) vs) :
    (row.readFrom (fuel + 1) first).Closes (xs ++ later row.closer parts) (v :: vs) := by
  let k : Option α → Reader (List α) := fun next rest =>
    match next with
    | none => do return ([], ← row.close rest)
    | some v => do
      let (vs, rest) ← row.readFrom fuel false rest
      return (v :: vs, rest)
  have hnext : (k (some v)).Closes (later row.closer parts) (v :: vs) :=
    hrest.map (f := (v :: ·)) fun _ => rfl
  have hstops : ∀ next, ∃ fault, k next [] = .error fault := by
    intro next
    cases next with
    | none =>
        obtain ⟨fault, hfault⟩ := row.close_nil
        exact ⟨fault, by simp only [k, hfault]; rfl⟩
    | some v =>
        obtain ⟨fault, hfault⟩ := hrest.fails [] List.nil_prefix (by simp [later])
        exact ⟨fault, by simp only [k, hfault]; rfl⟩
  exact hpick.bind (k := k) (fun _ => rfl) hnext (row.ends_later parts) hstops

theorem later_closes (h : List.Forall₂ (fun part v =>
    (row.pick false).Scans (',' :: part) (some v)) parts vs) (hfuel : parts.length < fuel) :
    (row.readFrom fuel false).Closes (later row.closer parts) vs := by
  induction h generalizing fuel with
  | nil =>
      obtain ⟨fuel, rfl⟩ : ∃ k, fuel = k + 1 := ⟨fuel - 1, by simp at hfuel; omega⟩
      exact row.nil_closes false fuel
  | @cons part v parts vs hv hvs ih =>
      obtain ⟨fuel, rfl⟩ : ∃ k, fuel = k + 1 := ⟨fuel - 1, by omega⟩
      have hrest : (row.readFrom fuel false).Closes (later row.closer parts) vs :=
        ih (by simp at hfuel; omega)
      rw [later_cons]
      exact cons_closes hv hrest

/-- Fuel enough for the parts is enough for the characters. -/
theorem read_closes {cs : List Char} {count : Nat} (hlength : count ≤ cs.length)
    (h : ∀ fuel, count < fuel → (row.readFrom fuel first).Closes cs vs) :
    (row.read first).Closes cs vs := by
  refine ⟨fun rest => (h _ ?_).reads rest, fun part hpart hne => ?_⟩
  · simp only [List.length_append]
    omega
  · cases hread : row.read first part with
    | error fault => exact ⟨fault, rfl⟩
    | ok p =>
        have hmore := readFrom_of_le (Nat.le_add_right _ count) hread
        obtain ⟨fault, hfault⟩ := (h (part.length + 1 + count) (by omega)).fails part hpart hne
        rw [hmore] at hfault
        cases hfault

theorem length_lt_later (closer : Char) (parts : List (List Char)) :
    parts.length < (later closer parts).length := by
  induction parts with
  | nil => exact Nat.one_pos
  | cons part parts ih =>
      simp only [later, List.flatMap_cons, List.length_append, List.length_cons] at ih ⊢
      omega

/-- The later parts of a row are read up to its closing bracket. -/
theorem read_later (h : List.Forall₂ (fun part v =>
    (row.pick false).Scans (',' :: part) (some v)) parts vs) :
    (row.read false).Closes (later row.closer parts) vs :=
  read_closes (Nat.le_of_lt (length_lt_later _ parts)) fun _ => later_closes h

/-- The parts of a row are read up to its closing bracket. -/
theorem read_parts (h : List.Forall₂ (fun part v => (row.pick true).Scans part (some v) ∧
    (row.pick false).Scans (',' :: part) (some v)) parts vs) :
    (row.read true).Closes (commaSeparated parts ++ [row.closer]) vs := by
  cases h with
  | nil =>
      refine read_closes (Nat.zero_le _) fun fuel hfuel => ?_
      obtain ⟨fuel, rfl⟩ : ∃ k, fuel = k + 1 := ⟨fuel - 1, by omega⟩
      exact row.nil_closes true fuel
  | @cons part v parts vs hv hvs =>
      rw [commaSeparated_later]
      have hlength : parts.length + 1 ≤ (part ++ later row.closer parts).length := by
        have hlater := length_lt_later row.closer parts
        rw [List.length_append]
        omega
      refine read_closes hlength fun fuel hfuel => ?_
      obtain ⟨fuel, rfl⟩ : ∃ k, fuel = k + 1 := ⟨fuel - 1, by omega⟩
      have hlater := hvs.imp fun _ _ h => h.2
      exact cons_closes hv.1 (later_closes hlater (by omega))

end Row

/-! ### Lists -/

theorem elementChars_eq (vs : List Json) : elementChars vs = vs.map Json.chars := by
  induction vs with
  | nil => rfl
  | cons v vs ih => rw [elementChars, List.map_cons, ih]

/-- What stands where a value can open is not space, nor does a bracket close there. -/
theorem ne_of_isOpening {c : Char} (h : isOpening c = true) :
    isSpace c = false ∧ c ≠ ']' ∧ c ≠ ',' := by
  simpa [isOpening, and_assoc] using h

theorem skipSpace_of_not {c : Char} (h : isSpace c = false) (cs : List Char) :
    skipSpace (c :: cs) = c :: cs :=
  List.dropWhile_cons_of_neg (by simp [h])

theorem nextElement_first {c : Char} (hc : isOpening c = true) (cs : List Char) :
    nextElement true (c :: cs) = .ok (some (c :: cs)) := by
  obtain ⟨hspace, hclose, -⟩ := ne_of_isOpening hc
  simp [nextElement, skipSpace_of_not hspace, hclose]

theorem nextElement_later {c : Char} (hc : isOpening c = true) (cs : List Char) :
    nextElement false (',' :: c :: cs) = .ok (some (c :: cs)) := by
  obtain ⟨hspace, hclose, -⟩ := ne_of_isOpening hc
  have hcomma : isSpace ',' = false := rfl
  simp [nextElement, skipSpace_of_not hcomma, skipSpace_of_not hspace, hclose]

/-- Reads the next element of a list. -/
def pickElement (element : Reader α) (first : Bool) : Reader (Option α) := fun cs => do
  match ← nextElement first cs with
  | none => return (none, cs)
  | some cs =>
    let (v, rest) ← element cs
    return (some v, rest)

variable {element : Reader α} {part : List Char} {v : α}

theorem pickElement_of_next {first : Bool} {cs text : List Char}
    (h : nextElement first cs = .ok (some text)) :
    pickElement element first cs = element text >>= fun p => .ok (some p.1, p.2) := by
  simp only [pickElement, h]
  rfl

theorem pickElement_bind {f : Option α × List Char → Except Fault β} (first : Bool)
    (cs : List Char) : pickElement element first cs >>= f = nextElement first cs >>= fun next =>
      match next with
      | none => f (none, cs)
      | some opened => element opened >>= fun p => f (some p.1, p.2) := by
  unfold pickElement
  cases nextElement first cs with
  | error fault => rfl
  | ok next =>
      cases next with
      | none => rfl
      | some opened =>
          show (element opened >>= _) >>= _ = element opened >>= _
          cases element opened <;> rfl

theorem pickElement_first (h : element.Takes part v) :
    (pickElement element true).Scans part (some v) :=
  h.scans (f := some) ⟨.endInList, rfl⟩ fun _ cs hc =>
    pickElement_of_next (nextElement_first hc cs)

theorem pickElement_later (h : element.Takes part v) :
    (pickElement element false).Scans (',' :: part) (some v) := by
  have hrest : Reader.Scans (fun cs => pickElement element false (',' :: cs)) part (some v) :=
    h.scans (f := some) ⟨.endInValue, rfl⟩ fun _ cs hc =>
      pickElement_of_next (nextElement_later hc cs)
  exact hrest.cons ⟨.endInList, rfl⟩ fun _ => rfl

/-- The elements of a list. -/
def elementRow (element : Reader α) : Row α where
  pick := pickElement element
  close := closeList
  fault := .endInList
  closer := ']'
  pick_closer first rest := by cases first <;> rfl
  pick_nil _ := ⟨.endInList, rfl⟩
  close_closer _ := rfl
  close_nil := ⟨.endInList, rfl⟩
  ends := rfl

theorem elementsFrom_eq (element : Reader α) (fuel : Nat) :
    elementsFrom element fuel = (elementRow element).readFrom fuel := by
  induction fuel with
  | zero => rfl
  | succ fuel ih =>
      funext first cs
      rw [elementsFrom, Row.readFrom, ih]
      refine Eq.trans ?_ (pickElement_bind first cs).symm
      rfl

theorem elements_eq (element : Reader α) (first : Bool) :
    elements element first = (elementRow element).read first := by
  funext cs
  rw [elements, elementsFrom_eq]
  rfl

theorem elements_closes {parts : List (List Char)} {vs : List α}
    (h : List.Forall₂ element.Takes parts vs) :
    (elements element true).Closes (commaSeparated parts ++ [']']) vs := by
  rw [elements_eq]
  exact (elementRow element).read_parts
    (h.imp fun _ _ hv => ⟨pickElement_first hv, pickElement_later hv⟩)

/-- A list is read from its elements in brackets. -/
theorem list_closes {parts : List (List Char)} {vs : List α}
    (h : List.Forall₂ element.Takes parts vs) :
    (listReader element).Closes ('[' :: commaSeparated parts ++ [']']) vs :=
  (elements_closes h).cons ⟨.endInValue, rfl⟩ fun _ => rfl

/-- Goes on with the values of a record behind its capacity. -/
def readValues (element : Reader α) : Option (Unsigned .w64) → Reader (Record α)
  | none, _ => .error .missingCapacity
  | some capacity, rest => do
    let (values, rest) ← elements element false rest
    return (⟨capacity, values⟩, rest)

theorem recordReader_cons (element : Reader α) (cs : List Char) : recordReader element ('[' :: cs) =
    pickElement (unsignedReader .w64) true cs >>= fun p => readValues element p.1 p.2 := by
  refine Eq.trans ?_ (pickElement_bind true cs).symm
  rfl

/-- A record is read from its capacity and its values in brackets. -/
theorem record_closes {parts : List (List Char)} {r : Record α}
    (h : List.Forall₂ element.Takes parts r.values) : (recordReader element).Closes
      ('[' :: commaSeparated ((Json.integer r.capacity.val).chars :: parts) ++ [']']) r := by
  let body : Reader (Record α) := fun cs =>
    pickElement (unsignedReader .w64) true cs >>= fun p => readValues element p.1 p.2
  have hvalues : (elements element false).Closes (Row.later ']' parts) r.values := by
    rw [elements_eq]
    exact (elementRow element).read_later (h.imp fun _ _ hv => pickElement_later hv)
  have hnext : (readValues element (some r.capacity)).Closes (Row.later ']' parts) r :=
    hvalues.map (f := Record.mk r.capacity) fun _ => rfl
  have hstops : ∀ next, ∃ fault, readValues element next [] = .error fault := by
    intro next
    cases next with
    | none => exact ⟨.missingCapacity, rfl⟩
    | some capacity => exact ⟨.endInList, rfl⟩
  have hbody : body.Closes _ r :=
    (pickElement_first (unsigned_takes (w := .w64) r.capacity)).bind (k := readValues element)
      (fun _ => rfl) hnext ((elementRow element).ends_later parts) hstops
  rw [List.cons_append, Row.commaSeparated_later]
  exact hbody.cons ⟨.endInValue, rfl⟩ (recordReader_cons element)

/-- A pair is read from its two parts in brackets. -/
theorem pair_closes {first : Reader α} {second : Reader β} {xs ys : List Char} {v : α} {w : β}
    (hfirst : first.Takes xs v) (hsecond : second.Takes ys w) :
    (pairReader first second).Closes ('[' :: commaSeparated [xs, ys] ++ [']']) (v, w) := by
  let expected := "a tuple of size 2"
  let finish : α → Option β → Reader (α × β) := fun v next rest =>
    match next with
    | none => .error (.wrongLength 1 expected)
    | some w => do return ((v, w), ← closeList rest)
  let k : Option α → Reader (α × β) := fun next rest =>
    match next with
    | none => .error (.wrongLength 0 expected)
    | some v => pickElement second false rest >>= fun p => finish v p.1 p.2
  let body : Reader (α × β) := fun cs => pickElement first true cs >>= fun p => k p.1 p.2
  have hclose : (finish v (some w)).Closes [']'] (v, w) :=
    Reader.Closes.cons (.done fun _ => rfl) ⟨.endInList, rfl⟩ fun _ => rfl
  have hfinish : ∀ u next, ∃ fault, finish u next [] = .error fault := by
    intro u next
    cases next with
    | none => exact ⟨.wrongLength 1 expected, rfl⟩
    | some w => exact ⟨.endInList, rfl⟩
  have hnext : (k (some v)).Closes (',' :: ys ++ [']']) (v, w) :=
    (pickElement_later hsecond).bind (k := finish v) (fun _ => rfl) hclose
      (fun _ => ends_cons rfl) (hfinish v)
  have hstops : ∀ next, ∃ fault, k next [] = .error fault := by
    intro next
    cases next with
    | none => exact ⟨.wrongLength 0 expected, rfl⟩
    | some v => exact ⟨.endInList, rfl⟩
  have hbody : body.Closes (xs ++ (',' :: ys ++ [']'])) (v, w) :=
    (pickElement_first hfirst).bind (k := k) (fun _ => rfl) hnext (fun _ => ends_cons rfl) hstops
  have htext : '[' :: commaSeparated [xs, ys] ++ [']'] = '[' :: (xs ++ (',' :: ys ++ [']'])) := by
    simp [commaSeparated]
  rw [htext]
  refine hbody.cons ⟨.endInValue, rfl⟩ fun rest => ?_
  have hsecond : ∀ v rest, pickElement second false rest >>= (fun p => finish v p.1 p.2) = _ :=
    fun v rest => pickElement_bind false rest
  refine Eq.trans ?_ (pickElement_bind true rest).symm
  simp only [k, hsecond]
  rfl

/-! ### Objects -/

/-- Reads a member of an object whose opening quote has been read. -/
def memberReader (value : Reader α) : Reader (String × α) := fun cs => do
  let (key, rest) ← readText cs
  let (v, rest) ← value (← pastColon rest)
  return ((String.ofList key, v), rest)

/-- Reads the next member of an object. -/
def pickMember (value : Reader α) (first : Bool) : Reader (Option (String × α)) := fun cs => do
  match ← nextKey first cs with
  | none => return (none, cs)
  | some cs =>
    let (member, rest) ← memberReader value cs
    return (some member, rest)

theorem pickMember_of_next {value : Reader α} {first : Bool} {cs text : List Char}
    (h : nextKey first cs = .ok (some text)) : pickMember value first cs =
      memberReader value text >>= fun p => .ok (some p.1, p.2) := by
  simp only [pickMember, h]
  rfl

/-- The members of an object. -/
def memberRow (value : Reader α) : Row (String × α) where
  pick := pickMember value
  close := closeObject
  fault := .endInObject
  closer := '\x7d'
  pick_closer first rest := by cases first <;> rfl
  pick_nil _ := ⟨.endInObject, rfl⟩
  close_closer _ := rfl
  close_nil := ⟨.endInObject, rfl⟩
  ends := rfl

theorem membersFrom_eq (value : Reader α) (fuel : Nat) :
    membersFrom value fuel = (memberRow value).readFrom fuel := by
  induction fuel with
  | zero => rfl
  | succ fuel ih =>
      funext first cs
      rw [membersFrom, Row.readFrom, ih]
      show _ = pickMember value first cs >>= _
      cases hnext : nextKey first cs with
      | error fault => simp only [pickMember, hnext]; rfl
      | ok next =>
          cases next with
          | none => simp only [pickMember, hnext]; rfl
          | some opened =>
              rw [pickMember_of_next hnext]
              simp only [memberReader, bind_assoc]
              rfl

theorem members_eq (value : Reader α) : members value = (memberRow value).read true := by
  funext cs
  rw [members, membersFrom_eq]
  rfl

/-- A member is read from its key and its value. -/
theorem member_scans {value : Reader α} (key : String) (h : value.Takes part v) :
    (memberReader value).Scans (key.toList.flatMap escapeChar ++ ['"'] ++ ':' :: part)
      (key, v) := by
  let k : List Char → Reader (String × α) := fun key rest => do
    let (v, rest) ← value (← pastColon rest)
    return ((String.ofList key, v), rest)
  have hvalue : (k key.toList).Scans (':' :: part) (String.ofList key.toList, v) :=
    (h.toScans.map (f := (String.ofList key.toList, ·)) fun _ => rfl).cons
      ⟨.endInObject, rfl⟩ fun _ => rfl
  rw [String.ofList_toList] at hvalue
  exact (readText_closes key.toList).bind (k := k) (fun _ => rfl) hvalue

/-- The text of a member. -/
def memberText (key : String) (part : List Char) : List Char :=
  writeText key.toList ++ ':' :: part

theorem memberChars_eq (members : List (String × Json)) :
    memberChars members = members.map fun m => memberText m.1 m.2.chars := by
  induction members with
  | nil => rfl
  | cons m members ih =>
      obtain ⟨key, v⟩ := m
      rw [memberChars, List.map_cons, ih]
      rfl

variable {value : Reader α}

theorem pickMember_first (key : String) (h : value.Takes part v) :
    (pickMember value true).Scans (memberText key part) (some (key, v)) := by
  have hmember : Reader.Scans (fun cs => pickMember value true ('"' :: cs)) _ (some (key, v)) :=
    (member_scans key h).map (f := some) fun _ => rfl
  exact hmember.cons ⟨.endInObject, rfl⟩ fun _ => rfl

theorem pickMember_later (key : String) (h : value.Takes part v) :
    (pickMember value false).Scans (',' :: memberText key part) (some (key, v)) := by
  have hmember : Reader.Scans (fun cs => pickMember value false (',' :: '"' :: cs)) _
      (some (key, v)) := (member_scans key h).map (f := some) fun _ => rfl
  have hquoted : Reader.Scans (fun cs => pickMember value false (',' :: cs)) (memberText key part)
      (some (key, v)) := hmember.cons ⟨.endInValue, rfl⟩ fun _ => rfl
  exact hquoted.cons ⟨.endInObject, rfl⟩ fun _ => rfl

theorem members_closes {parts : List (List Char)} {entries : List (String × α)}
    (h : List.Forall₂ (fun part e => ∃ text, part = memberText e.1 text ∧ value.Takes text e.2)
      parts entries) : (members value).Closes (commaSeparated parts ++ ['\x7d']) entries := by
  rw [members_eq]
  refine (memberRow value).read_parts (h.imp fun part e hpart => ?_)
  obtain ⟨text, rfl, htext⟩ := hpart
  exact ⟨pickMember_first e.1 htext, pickMember_later e.1 htext⟩

/-- A dictionary is read from its entries in braces. -/
theorem dict_closes {parts : List (List Char)} {d : Dict α}
    (h : List.Forall₂ (fun part e => ∃ text, part = memberText e.1 text ∧ value.Takes text e.2)
      parts d.entries) :
    (dictReader value).Closes ('\x7b' :: commaSeparated parts ++ ['\x7d']) d := by
  have hbody :
      Reader.Closes (fun cs => dictReader value ('\x7b' :: cs)) _ (Dict.ofList d.entries) :=
    (members_closes h).map (f := Dict.ofList) fun _ => rfl
  rw [Dict.ofList_entries] at hbody
  exact hbody.cons ⟨.endInValue, rfl⟩ fun _ => rfl

/-! ### Values that may be absent -/

theorem none_closes : (optionReader element).Closes Json.null.chars none := by
  refine ⟨fun rest => ?_, fun part hpart hne => ?_⟩
  · have hread := null_closes.reads rest
    simp only [optionReader, Json.chars, hread]
    rfl
  · obtain ⟨fault, hfault⟩ := null_closes.fails part hpart hne
    exact ⟨fault, by simp only [optionReader, hfault]; rfl⟩

/-- Only the literal for nothing opens with its letter. -/
theorem eq_of_readHead_null {c : Char} {cs rest : List Char} (hc : isSpace c = false)
    (h : readHead (c :: cs) = .ok (.null, rest)) : c = 'n' := by
  rw [readHead, skipSpace_of_not hc, readHeadAt] at h
  split_ifs at h with hn
  · exact hn
  · cases hword : readLiteral ['r', 'u', 'e'] cs <;> rw [hword] at h <;> cases h
  · cases hword : readLiteral ['a', 'l', 's', 'e'] cs <;> rw [hword] at h <;> cases h
  · cases htext : readText cs <;> rw [htext] at h <;> cases h
  · cases h
  · cases h
  · cases hnumber : readNumber (c :: cs) <;> rw [hnumber] at h <;> cases h

theorem eq_null_of_readHead {cs rest : List Char} {head : Head}
    (h : readHead ('n' :: cs) = .ok (head, rest)) : head = .null := by
  have hread : (readLiteral ['u', 'l', 'l'] cs).map (fun rest => (Head.null, rest)) =
      .ok (head, rest) := h
  cases hword : readLiteral ['u', 'l', 'l'] cs <;> rw [hword] at hread <;> cases hread
  rfl

/-- A value that is not written as nothing is present. -/
theorem some_takes (h : element.Takes part v) (hhead : ∀ rest, Ends rest →
    ∃ head rest', readHead (part ++ rest) = .ok (head, rest') ∧ head ≠ .null) :
    (optionReader element).Takes part (some v) := by
  have hpresent : ∀ {cs rest head}, readHead cs = .ok (head, rest) → head ≠ .null →
      optionReader element cs = element cs >>= fun p => .ok (some p.1, p.2) := by
    intro cs rest head hread hne
    simp only [optionReader, hread]
    cases head with
    | null => exact absurd rfl hne
    | _ => rfl
  obtain ⟨c, tail, hpart, hc⟩ := h.opens
  refine ⟨⟨fun rest hrest => ?_, fun text htext hne w rest hw => ?_⟩, c, tail, hpart, hc⟩
  · obtain ⟨head, rest', hread, hne⟩ := hhead rest hrest
    rw [hpresent hread hne, h.reads rest hrest]
    rfl
  · cases hread : readHead text with
    | error fault =>
        simp only [optionReader, hread] at hw
        cases hw
    | ok p =>
        obtain ⟨head, rest'⟩ := p
        by_cases hnull : head = .null
        · -- Then the whole text would open with the letter of the literal too.
          obtain ⟨head', rest'', hwhole, hne'⟩ := hhead [] ends_nil
          cases text with
          | nil => cases hread
          | cons d text =>
              rw [hpart] at htext hwhole
              obtain ⟨rfl, -⟩ := List.cons_prefix_cons.1 htext
              rw [hnull] at hread
              obtain rfl := eq_of_readHead_null (ne_of_isOpening hc).1 hread
              exact absurd (eq_null_of_readHead hwhole) hne'
        · rw [hpresent hread hnull] at hw
          obtain ⟨q, hq, hw⟩ := eq_ok_of_bind hw
          cases hw
          exact h.exhausts text htext hne _ _ hq

end Json

namespace Shape

/-- Whether a value of the shape may be written as nothing. -/
def isNullable : Shape → Bool
  | .unit | .primitive _ | .option _ => true
  | _ => false

/-- Whether an absent value is never written like one that is present. -/
def isClear : Shape → Bool
  | .unsigned _ | .signed _ | .boolean | .character | .text | .unit | .primitive _
  | .reluctant => true
  | .option s => !s.isNullable && s.isClear
  | .list s | .dict s | .queue s => s.isClear
  | .pair first second => first.isClear && second.isClear

/-- All the types of values that queues are kept of are clear. -/
example : [.unsigned .w8, .unsigned .w16, .unsigned .w32, .unsigned .w64, .signed .w8, .signed .w16,
    .signed .w32, .signed .w64, .boolean, .character, .text, .unit, .option (.unsigned .w32),
    .option .text, .list (.unsigned .w16), .list .text, .pair (.unsigned .w8) .text,
    .dict (.unsigned .w32), .queue (.unsigned .w32), .queue .text,
    .queue (.queue (.unsigned .w8)), .primitive .mutex, .primitive .conditionVariable,
    .reluctant].all isClear = true := by
  decide

/-- Of a shape that is not clear two values have one text. -/
example : toJson (.option .unit) (some ()) = toJson (.option .unit) none := by
  rfl

open Json

theorem exists_head {α : Type} {reader : Reader α}
    {k : Head × List Char → Except Fault (α × List Char)} {cs rest : List Char} {v : α}
    (heq : ∀ cs, reader cs = readHead cs >>= k)
    (hnull : ∀ rest, ∃ fault, k (.null, rest) = .error fault) (h : reader cs = .ok (v, rest)) :
    ∃ head rest', readHead cs = .ok (head, rest') ∧ head ≠ .null := by
  rw [heq] at h
  obtain ⟨⟨head, rest'⟩, hread, h⟩ := eq_ok_of_bind h
  refine ⟨head, rest', hread, fun hc => ?_⟩
  subst hc
  obtain ⟨fault, hfault⟩ := hnull rest'
  rw [hfault] at h
  cases h

/-- What is not written as nothing is not read from it. -/
theorem exists_head_of_jsonReader {s : Shape} (hs : s.isNullable = false) {cs rest : List Char}
    {v : s.Value} (h : s.jsonReader cs = .ok (v, rest)) :
    ∃ head rest', readHead cs = .ok (head, rest') ∧ head ≠ .null := by
  cases s with
  | unit | primitive | option => cases hs
  | unsigned w => exact exists_head (fun _ => rfl) (fun _ => ⟨_, rfl⟩) h
  | signed w => exact exists_head (fun _ => rfl) (fun _ => ⟨_, rfl⟩) h
  | boolean => exact exists_head (fun _ => rfl) (fun _ => ⟨_, rfl⟩) h
  | character => exact exists_head (fun _ => rfl) (fun _ => ⟨_, rfl⟩) h
  | text => exact exists_head (fun _ => rfl) (fun _ => ⟨_, rfl⟩) h
  | list s => exact exists_head (fun _ => rfl) (fun _ => ⟨_, rfl⟩) h
  | pair first second => exact exists_head (fun _ => rfl) (fun _ => ⟨_, rfl⟩) h
  | dict s => exact exists_head (fun _ => rfl) (fun _ => ⟨_, rfl⟩) h
  | queue s => exact exists_head (fun _ => rfl) (fun _ => ⟨_, rfl⟩) h
  | reluctant => exact exists_head (fun _ => rfl) (fun _ => ⟨_, rfl⟩) h

/-- A value is written unless part of it refuses. -/
theorem exists_toJson_iff (s : Shape) (v : s.Value) :
    (∃ j, s.toJson v = .ok j) ↔ ¬ s.Refuses v := by
  induction s with
  | unsigned | signed | boolean | character | text | unit | primitive => simp [toJson, Refuses]
  | reluctant =>
      simp only [toJson, Refuses]
      split <;> simp [*]
  | option s ih =>
      cases v with
      | none => simp [toJson, Refuses]
      | some u =>
          refine (ih u).trans (not_congr ⟨fun h => ⟨u, rfl, h⟩, ?_⟩)
          rintro ⟨_, hu, h⟩
          cases hu
          exact h
  | list s ih =>
      refine exists_ok_map.trans (exists_ok_mapM.trans ?_)
      simp only [Refuses, ih, not_exists, not_and]
  | pair first second ih₁ ih₂ =>
      obtain ⟨v, w⟩ := v
      refine exists_ok_map₂.trans ?_
      rw [ih₁, ih₂, Refuses, not_or]
  | dict s ih =>
      refine exists_ok_map.trans (exists_ok_mapM.trans ?_)
      simp only [Refuses, exists_ok_map, ih, not_exists, not_and]
  | queue s ih =>
      refine exists_ok_map.trans (exists_ok_mapM.trans ?_)
      simp only [Refuses, ih, not_exists, not_and]

theorem forall₂_elementChars {s : Shape} {vs : List s.Value} {js : List Json}
    (htakes : ∀ {v : s.Value} {j : Json}, s.toJson v = .ok j → s.jsonReader.Takes j.chars v)
    (h : vs.mapM s.toJson = .ok js) : List.Forall₂ s.jsonReader.Takes (elementChars js) vs := by
  rw [elementChars_eq, List.forall₂_map_left_iff]
  exact forall₂_of_mapM (fun _ _ _ => htakes) h

/-- **The reader of a shape takes the text of a value for the value.** -/
theorem takes_chars (s : Shape) (hclear : s.isClear = true) {v : s.Value} {j : Json}
    (h : s.toJson v = .ok j) : s.jsonReader.Takes j.chars v := by
  induction s generalizing j with
  | unsigned w =>
      cases h
      exact unsigned_takes v
  | signed w =>
      cases h
      exact signed_takes v
  | boolean =>
      cases h
      exact truth_takes v
  | character =>
      cases h
      exact character_takes v
  | text =>
      cases h
      exact string_takes v
  | unit | primitive =>
      cases h
      exact unit_takes
  | reluctant =>
      simp only [toJson] at h
      split at h <;> cases h
      exact signed_takes v
  | option s ih =>
      simp only [isClear, Bool.and_eq_true, Bool.not_eq_true'] at hclear
      cases v with
      | none =>
          cases h
          exact none_closes.takes rfl
      | some u =>
          have htakes := ih hclear.2 h
          exact some_takes htakes fun rest hrest =>
            exists_head_of_jsonReader hclear.1 (htakes.reads rest hrest)
  | list s ih =>
      obtain ⟨js, hjs, h⟩ := eq_ok_of_bind h
      cases h
      exact (list_closes (forall₂_elementChars (ih hclear) hjs)).takes rfl
  | pair first second ih₁ ih₂ =>
      obtain ⟨v, w⟩ := v
      simp only [isClear, Bool.and_eq_true] at hclear
      obtain ⟨x, hx, h⟩ := eq_ok_of_bind h
      obtain ⟨y, hy, h⟩ := eq_ok_of_bind h
      cases h
      exact (pair_closes (ih₁ hclear.1 hx) (ih₂ hclear.2 hy)).takes rfl
  | dict s ih =>
      obtain ⟨ms, hms, h⟩ := eq_ok_of_bind h
      cases h
      have hentries : List.Forall₂ (fun part e => ∃ text, part = memberText e.1 text ∧
          s.jsonReader.Takes text e.2) (memberChars ms) v.entries := by
        rw [memberChars_eq, List.forall₂_map_left_iff]
        refine forall₂_of_mapM (fun e _ m hm => ?_) hms
        obtain ⟨j, hj, hm⟩ := eq_ok_of_bind hm
        cases hm
        exact ⟨j.chars, rfl, ih hclear hj⟩
      exact (dict_closes hentries).takes rfl
  | queue s ih =>
      obtain ⟨js, hjs, h⟩ := eq_ok_of_bind h
      cases h
      exact (record_closes (forall₂_elementChars (ih hclear) hjs)).takes rfl

end Shape

/-! ### Queues -/

namespace Record

open Json

variable {s : Shape} {r : Record s.Value} {text : String}

theorem exists_jsonText_iff : (∃ text, r.jsonText = .ok text) ↔ ¬ (Shape.queue s).Refuses r := by
  rw [← (Shape.queue s).exists_toJson_iff r]
  unfold jsonText
  cases (Shape.queue s).toJson r with
  | error refusal => simp
  | ok j => simp

/-- The text of a record is the record in brackets. -/
theorem closes_of_jsonText (hclear : s.isClear = true) (h : r.jsonText = .ok text) :
    (recordReader s.jsonReader).Closes text.toList r := by
  unfold jsonText at h
  cases hj : (Shape.queue s).toJson r with
  | error refusal =>
      rw [hj] at h
      cases h
  | ok j =>
      rw [hj] at h
      cases h
      obtain ⟨js, hjs, hj⟩ := eq_ok_of_bind hj
      cases hj
      rw [compact, String.toList_ofList]
      exact record_closes (Shape.forall₂_elementChars (fun hv => s.takes_chars hclear hv) hjs)

/-- Space before a value is skipped. -/
theorem recordReader_skip {α : Type} (value : Reader α) {space : List Char}
    (hspace : ∀ c ∈ space, isSpace c = true) (cs : List Char) :
    recordReader value (space ++ cs) = recordReader value cs := by
  have hskip : skipSpace (space ++ cs) = skipSpace cs := List.dropWhile_append_of_pos hspace
  simp only [recordReader, readHead, hskip]

/-- Whether a text is space to its end. -/
def IsBlank (text : String) : Prop :=
  ∀ c ∈ text.toList, isSpace c = true

instance (text : String) : Decidable (IsBlank text) :=
  decidable_of_iff (text.toList.all isSpace = true) List.all_eq_true

/-- A record is read back from its text, with space around it. -/
theorem ofJsonText_blank (hclear : s.isClear = true) (h : r.jsonText = .ok text)
    {before after : String} (hbefore : IsBlank before) (hafter : IsBlank after) :
    ofJsonText s.jsonReader (before ++ text ++ after) = .ok r := by
  have hread := (closes_of_jsonText hclear h).reads after.toList
  have hrest : skipSpace after.toList = [] := List.dropWhile_eq_nil_iff.2 hafter
  unfold ofJsonText readWhole
  rw [String.toList_append, String.toList_append, List.append_assoc,
    recordReader_skip _ hbefore, hread]
  simp only [bind, Except.bind, hrest]
  rfl

/-- Nothing is read from a part of the text of a record. -/
theorem ofJsonText_part (hclear : s.isClear = true) (h : r.jsonText = .ok text)
    {part : String} (hpart : part.toList <+: text.toList) (hne : part ≠ text) :
    ∃ reason, ofJsonText s.jsonReader part = .error (.format reason) := by
  obtain ⟨fault, hfault⟩ := (closes_of_jsonText hclear h).fails part.toList hpart
    fun hc => hne (String.toList_inj.1 hc)
  refine ⟨fault.message, ?_⟩
  unfold ofJsonText readWhole
  rw [hfault]
  rfl

/-- Nothing may follow the text of a record. -/
theorem ofJsonText_more (hclear : s.isClear = true) (h : r.jsonText = .ok text)
    {more : String} {c : Char} {tail : List Char} (hmore : more.toList = c :: tail)
    (hc : isSpace c = false) :
    ∃ reason, ofJsonText s.jsonReader (text ++ more) = .error (.format reason) := by
  have hread := (closes_of_jsonText hclear h).reads more.toList
  refine ⟨Fault.trailingCharacters.message, ?_⟩
  unfold ofJsonText readWhole
  rw [String.toList_append, hread]
  simp only [bind, Except.bind, hmore, skipSpace_of_not hc]
  rfl

end Record

namespace Machine

/-- **A queue is restored from its text as it was written.**  It has a text exactly if it has
bytes.  From the text, with space before and after it, any machine gets a queue with the same
bound and the same values, which no task holds or awaits; from a part of the text, or from a
text that goes on behind it, it gets none. -/
theorem restored_as_written {s : Shape} (hclear : s.isClear = true) (M : Machine s.Value)
    (q : QueueId) :
    ((∃ text, M.writeQueue q = .ok text) ↔ ∃ bytes, M.storeQueue q = .ok bytes) ∧
      ∀ text, M.writeQueue q = .ok text → ∀ (N : Machine s.Value) (config : Config),
        (∀ before after, Record.IsBlank before → Record.IsBlank after →
          ∃ N' q', N.readQueue config (before ++ text ++ after) = .ok (N', q') ∧
            N'.HasQueue q' (M.queue q).toRecord) ∧
        (∀ part : String, part.toList <+: text.toList → part ≠ text →
          ∃ reason, N.readQueue config part = .error (.format reason)) ∧
        ∀ (more : String) c tail, more.toList = c :: tail → Json.isSpace c = false →
          ∃ reason, N.readQueue config (text ++ more) = .error (.format reason) := by
  refine ⟨Record.exists_jsonText_iff.trans Record.exists_binary_iff.symm,
    fun text h N config => ⟨fun before after hbefore hafter => ?_, fun part hpart hne => ?_,
      fun more c tail hmore hc => ?_⟩⟩
  · refine ⟨_, _, ?_, hasQueue_addQueue N config (M.queue q).toRecord⟩
    simp only [readQueue, Record.ofJsonText_blank hclear h hbefore hafter]
    rfl
  · obtain ⟨reason, hreason⟩ := Record.ofJsonText_part hclear h hpart hne
    exact ⟨reason, by simp only [readQueue, hreason]; rfl⟩
  · obtain ⟨reason, hreason⟩ := Record.ofJsonText_more hclear h hmore hc
    exact ⟨reason, by simp only [readQueue, hreason]; rfl⟩

/-- The values of a queue of queues, whose values are a dictionary and a character each. -/
abbrev quoted : Shape :=
  .queue (.pair (.dict (.option .text)) .character)

/-- Two queues in a queue with room for one, with all that has to be escaped. -/
def manuscript : Record quoted.Value where
  capacity := Word.wrap 1
  values :=
    [⟨Word.wrap 0,
      [(⟨[("\"\\", some "é\n\x01€")], List.pairwise_singleton _ _⟩, '\\'),
        (⟨[("null", none)], List.pairwise_singleton _ _⟩, 'n')]⟩,
      ⟨Word.wrap 2, []⟩]

def scriptorium : Machine quoted.Value :=
  ((ofTasks []).addQueue {} manuscript).1

def manuscriptText : String :=
  "[1,[0,[\x7b\"\\\"\\\\\":\"é\\n\\u0001€\"\x7d,\"\\\\\"],[\x7b\"null\":null\x7d,\"n\"]],[2]]"

theorem restored_as_written_escaped : scriptorium.writeQueue 0 = .ok manuscriptText ∧
    (∃ bytes, scriptorium.storeQueue 0 = .ok bytes) ∧
    (∃ N q, scriptorium.readQueue {} (" \n" ++ manuscriptText ++ "\t") = .ok (N, q) ∧
      N.HasQueue q manuscript) ∧
    (∃ reason, scriptorium.readQueue {} (String.ofList (manuscriptText.toList.take 20)) =
      .error (.format reason)) ∧
    ∃ reason, scriptorium.readQueue {} (manuscriptText ++ "]") = .error (.format reason) := by
  have hwritten : scriptorium.writeQueue 0 = .ok manuscriptText := rfl
  obtain ⟨hstored, hrestored⟩ := restored_as_written (s := quoted) rfl scriptorium 0
  obtain ⟨hblank, hpart, hmore⟩ := hrestored _ hwritten scriptorium {}
  refine ⟨hwritten, hstored.1 ⟨_, hwritten⟩, ?_, ?_, ?_⟩
  · exact hblank " \n" "\t" (by decide) (by decide)
  · refine hpart _ ?_ ?_
    · rw [String.toList_ofList]
      exact List.take_prefix _ _
    · decide
  · exact hmore "]" ']' [] rfl rfl

end Machine

end BlockingSync
