/-
Scalars are read from their JSON text.

A reader scans certain characters for a value if it reads the value from them whatever
follows, and stops inside a part of them only by coming to the end of the text (`Scans`).
What follows must not go on with a number: a digit more would be another number, and a
part of a number can be a number itself.  Texts that show their own end are spared both
(`Closes`).  A string is one, since a reader that has found the closing quote does not
look further (`readTextFrom_append`).
-/
import BlockingSync.Record.JsonForm
import BlockingSync.Proofs.Wire

namespace BlockingSync.Json

open Text (digit? wordLimit hexValue? hexDigit hexValue?_hexDigit)

variable {α β : Type}

/-- Whether a text does not go on with a number. -/
def Ends (rest : List Char) : Prop :=
  ∀ c tail, rest = c :: tail → inNumber c = false

theorem ends_nil : Ends [] := by
  intro c tail h
  cases h

theorem ends_cons {c : Char} {rest : List Char} (hc : inNumber c = false) : Ends (c :: rest) := by
  intro d tail h
  cases h
  exact hc

theorem Ends.part {part rest : List Char} (h : Ends rest) (hpart : part <+: rest) : Ends part := by
  intro c tail hc
  obtain ⟨more, hmore⟩ := hpart
  exact h c (tail ++ more) (by rw [← hmore, hc, List.cons_append])

/-- Whether a character can open a value. -/
def isOpening (c : Char) : Bool :=
  !isSpace c && c != ']' && c != ','

namespace Reader

/-- Whether a reader reads the value from these characters. -/
structure Scans (reader : Reader α) (cs : List Char) (v : α) : Prop where
  /-- Whatever follows is left, unless it goes on with a number. -/
  reads : ∀ rest, Ends rest → reader (cs ++ rest) = .ok (v, rest)
  /-- A part of the characters is no value, or one that ends with the text. -/
  exhausts : ∀ part, part <+: cs → part ≠ cs → ∀ w rest, reader part = .ok (w, rest) → rest = []

/-- Whether a reader reads the value from these characters, and they can stand for a value. -/
structure Takes (reader : Reader α) (cs : List Char) (v : α) : Prop extends
    reader.Scans cs v where
  opens : ∃ c tail, cs = c :: tail ∧ isOpening c = true

/-- Whether a reader reads the value from these characters, and from no fewer of them. -/
structure Closes (reader : Reader α) (cs : List Char) (v : α) : Prop where
  /-- Whatever follows is left. -/
  reads : ∀ rest, reader (cs ++ rest) = .ok (v, rest)
  fails : ∀ part, part <+: cs → part ≠ cs → ∃ fault, reader part = .error fault

variable {reader : Reader α} {c : Char} {cs : List Char} {v : α}

theorem Closes.scans (h : reader.Closes cs v) : reader.Scans cs v := by
  refine ⟨fun rest _ => h.reads rest, fun part hpart hne w rest hread => ?_⟩
  obtain ⟨fault, hfault⟩ := h.fails part hpart hne
  rw [hfault] at hread
  cases hread

theorem Closes.takes (h : reader.Closes (c :: cs) v) (hc : isOpening c = true) :
    reader.Takes (c :: cs) v :=
  ⟨h.scans, c, cs, rfl, hc⟩

/-- A reader that needs no characters. -/
theorem Closes.done (h : ∀ rest, reader rest = .ok (v, rest)) : reader.Closes [] v :=
  ⟨h, fun _ hpart hne => absurd (List.prefix_nil.1 hpart) hne⟩

/-- A reader that takes one character and goes on as another. -/
theorem Closes.cons {next : Reader α} (h : next.Closes cs v)
    (hnil : ∃ fault, reader [] = .error fault) (hcons : ∀ rest, reader (c :: rest) = next rest) :
    reader.Closes (c :: cs) v := by
  refine ⟨fun rest => (hcons _).trans (h.reads rest), fun part hpart hne => ?_⟩
  cases part with
  | nil => exact hnil
  | cons d part =>
      obtain ⟨rfl, hrest⟩ := List.cons_prefix_cons.1 hpart
      rw [hcons]
      exact h.fails part hrest fun hc => hne (by rw [hc])

theorem Scans.cons {next : Reader α} (h : next.Scans cs v)
    (hnil : ∃ fault, reader [] = .error fault) (hcons : ∀ rest, reader (c :: rest) = next rest) :
    reader.Scans (c :: cs) v := by
  refine ⟨fun rest hrest => (hcons _).trans (h.reads rest hrest),
    fun part hpart hne w rest hw => ?_⟩
  cases part with
  | nil =>
      obtain ⟨fault, hfault⟩ := hnil
      rw [hfault] at hw
      cases hw
  | cons d part =>
      obtain ⟨rfl, hrest⟩ := List.cons_prefix_cons.1 hpart
      rw [hcons] at hw
      exact h.exhausts part hrest (fun hc => hne (by rw [hc])) w rest hw

/-- A reader that goes on as another, and makes something of its value, where a value opens. -/
theorem Takes.scans {reader : Reader β} {element : Reader α} {f : α → β}
    (h : element.Takes cs v) (hnil : ∃ fault, reader [] = .error fault)
    (hopen : ∀ c cs, isOpening c = true →
      reader (c :: cs) = element (c :: cs) >>= fun p => .ok (f p.1, p.2)) :
    reader.Scans cs (f v) := by
  obtain ⟨c, tail, hcs, hc⟩ := h.opens
  refine ⟨fun rest hrest => ?_, fun part hpart hne w rest hw => ?_⟩
  · have hread := h.reads rest hrest
    rw [hcs, List.cons_append] at hread ⊢
    rw [hopen _ _ hc, hread]
    rfl
  · cases part with
    | nil =>
        obtain ⟨fault, hfault⟩ := hnil
        rw [hfault] at hw
        cases hw
    | cons d part =>
        have hd : d = c := by
          rw [hcs] at hpart
          exact (List.cons_prefix_cons.1 hpart).1
        rw [hopen _ _ (hd ▸ hc)] at hw
        obtain ⟨p, hread, hw⟩ := eq_ok_of_bind hw
        cases hw
        exact h.exhausts _ hpart hne _ _ hread

/-- A reader that makes something of what another reads. -/
theorem Closes.map {reader : Reader β} {first : Reader α} {f : α → β}
    (h : first.Closes cs v) (heq : ∀ cs, reader cs = first cs >>= fun p => .ok (f p.1, p.2)) :
    reader.Closes cs (f v) := by
  refine ⟨fun rest => ?_, fun part hpart hne => ?_⟩
  · rw [heq, h.reads]
    rfl
  · obtain ⟨fault, hfault⟩ := h.fails part hpart hne
    exact ⟨fault, by rw [heq, hfault]; rfl⟩

theorem Scans.map {reader : Reader β} {first : Reader α} {f : α → β}
    (h : first.Scans cs v) (heq : ∀ cs, reader cs = first cs >>= fun p => .ok (f p.1, p.2)) :
    reader.Scans cs (f v) := by
  refine ⟨fun rest hrest => ?_, fun part hpart hne w rest hw => ?_⟩
  · rw [heq, h.reads rest hrest]
    rfl
  · rw [heq] at hw
    obtain ⟨p, hread, hw⟩ := eq_ok_of_bind hw
    cases hw
    exact h.exhausts part hpart hne _ _ hread

/-- A reader that runs a reader which shows its own end, and behind it another. -/
theorem Closes.bind {reader : Reader β} {first : Reader α} {k : α → Reader β} {xs ys : List Char}
    {w : β} (heq : ∀ cs, reader cs = first cs >>= fun p => k p.1 p.2) (hfirst : first.Closes xs v)
    (hnext : (k v).Scans ys w) : reader.Scans (xs ++ ys) w := by
  have hreads : ∀ rest, reader (xs ++ rest) = k v rest := fun rest => by
    rw [heq, hfirst.reads]
    rfl
  refine ⟨fun rest hrest => ?_, fun part hpart hne u rest hu => ?_⟩
  · rw [List.append_assoc, hreads, hnext.reads rest hrest]
  · by_cases hshort : xs <+: part
    · obtain ⟨more, rfl⟩ := hshort
      rw [hreads] at hu
      exact hnext.exhausts more ((List.prefix_append_right_inj xs).1 hpart)
        (fun hc => hne (by rw [hc])) u rest hu
    · have hprefix : part <+: xs :=
        (List.prefix_or_prefix_of_prefix hpart (List.prefix_append xs ys)).resolve_right hshort
      obtain ⟨fault, hfault⟩ := hfirst.fails part hprefix
        fun hc => hshort (hc ▸ List.prefix_refl _)
      rw [heq, hfault] at hu
      cases hu

/-- A reader that runs one reader, and behind it another that shows its own end.  What the
first leaves of a text that has come to its end is too little for the second. -/
theorem Scans.bind {reader : Reader β} {first : Reader α} {k : α → Reader β} {xs ys : List Char}
    {w : β} (heq : ∀ cs, reader cs = first cs >>= fun p => k p.1 p.2) (hfirst : first.Scans xs v)
    (hnext : (k v).Closes ys w) (hends : ∀ rest, Ends (ys ++ rest))
    (hstops : ∀ v, ∃ fault, k v [] = .error fault) : reader.Closes (xs ++ ys) w := by
  have hreads : ∀ rest, Ends rest → reader (xs ++ rest) = k v rest := fun rest hrest => by
    rw [heq, hfirst.reads rest hrest]
    rfl
  refine ⟨fun rest => ?_, fun part hpart hne => ?_⟩
  · rw [List.append_assoc, hreads _ (hends rest), hnext.reads]
  · by_cases hshort : xs <+: part
    · obtain ⟨rest, rfl⟩ := hshort
      have hrest : rest <+: ys := (List.prefix_append_right_inj xs).1 hpart
      have hys : Ends ys := by simpa using hends []
      rw [hreads _ (hys.part hrest)]
      exact hnext.fails rest hrest fun hc => hne (by rw [hc])
    · have hprefix : part <+: xs :=
        (List.prefix_or_prefix_of_prefix hpart (List.prefix_append xs ys)).resolve_right hshort
      cases hread : first part with
      | error fault => exact ⟨fault, by rw [heq, hread]; rfl⟩
      | ok p =>
          have hrest : p.2 = [] :=
            hfirst.exhausts part hprefix (fun hc => hshort (hc ▸ List.prefix_refl _)) _ _ hread
          obtain ⟨fault, hfault⟩ := hstops p.1
          refine ⟨fault, ?_⟩
          rw [heq, hread, ← hfault, ← hrest]
          rfl

end Reader

/-! ### Digits -/

theorem digit?_digitChar : ∀ d < 10, digit? (Nat.digitChar d) = some d := by
  decide

theorem isDigit_of_mem_toDigits {n : Nat} {c : Char} (h : c ∈ Nat.toDigits 10 n) :
    isDigit c = true := by
  induction n using Nat.strongRecOn with
  | _ n ih =>
      rcases Nat.lt_or_ge n 10 with hlt | hge
      · rw [Nat.toDigits_of_lt_base hlt, List.mem_singleton] at h
        rw [isDigit, h, digit?_digitChar n hlt]
        rfl
      · rw [Nat.toDigits_of_base_le (by omega) hge, List.mem_append, List.mem_singleton] at h
        rcases h with h | h
        · exact ih (n / 10) (by omega) h
        · rw [isDigit, h, digit?_digitChar _ (Nat.mod_lt _ (by omega))]
          rfl

theorem digitsValue_append (ds : List Char) (c : Char) :
    digitsValue (ds ++ [c]) = digitsValue ds * 10 + (digit? c).getD 0 := by
  simp [digitsValue]

theorem digitsValue_toDigits (n : Nat) : digitsValue (Nat.toDigits 10 n) = n := by
  induction n using Nat.strongRecOn with
  | _ n ih =>
      rcases Nat.lt_or_ge n 10 with hlt | hge
      · rw [Nat.toDigits_of_lt_base hlt]
        simp [digitsValue, digit?_digitChar n hlt]
      · rw [Nat.toDigits_of_base_le (by omega) hge, digitsValue_append, ih (n / 10) (by omega),
          digit?_digitChar _ (Nat.mod_lt _ (by omega))]
        simp only [Option.getD_some]
        omega

/-- Only zero is written with a leading zero. -/
theorem exists_toDigits {n : Nat} (hn : 0 < n) :
    ∃ c ds d, Nat.toDigits 10 n = c :: ds ∧ digit? c = some (d + 1) := by
  induction n using Nat.strongRecOn with
  | _ n ih =>
      rcases Nat.lt_or_ge n 10 with hlt | hge
      · refine ⟨Nat.digitChar n, [], n - 1, Nat.toDigits_of_lt_base hlt, ?_⟩
        rw [digit?_digitChar n hlt]
        congr
        omega
      · obtain ⟨c, ds, d, hds, hc⟩ := ih (n / 10) (by omega) (by omega)
        refine ⟨c, ds ++ [Nat.digitChar (n % 10)], d, ?_, hc⟩
        rw [Nat.toDigits_of_base_le (by omega) hge, hds, List.cons_append]

/-! ### Numbers -/

theorem not_isDigit_of_ends {c : Char} {tail : List Char} (h : Ends (c :: tail)) :
    isDigit c = false := by
  have := h c tail rfl
  simp only [inNumber, Bool.or_eq_false_iff] at this
  exact this.1.1.1.1.1

/-- The digits of a number end where no number goes on. -/
theorem spanDigits_append {ds rest : List Char} (hds : ∀ c ∈ ds, isDigit c = true)
    (hrest : Ends rest) : spanDigits (ds ++ rest) = (ds, rest) := by
  unfold spanDigits
  induction ds with
  | nil =>
      cases rest with
      | nil => rfl
      | cons c tail => simp [not_isDigit_of_ends hrest]
  | cons c ds ih =>
      obtain ⟨hc, hds⟩ := List.forall_mem_cons.1 hds
      have hrest := ih hds
      simp only [Prod.mk.injEq] at hrest
      simp [hc, hrest]

/-- The number that digits make behind those that are read. -/
def digitsOnto (acc : Nat) (ds : List Char) : Nat :=
  ds.foldl (fun acc c => acc * 10 + (digit? c).getD 0) acc

theorem le_digitsOnto (acc : Nat) (ds : List Char) : acc ≤ digitsOnto acc ds := by
  induction ds generalizing acc with
  | nil => exact Nat.le_refl _
  | cons c ds ih =>
      have hstep : acc ≤ acc * 10 + (digit? c).getD 0 := by omega
      exact Nat.le_trans hstep (ih _)

/-- Digits whose number fits a word are all read. -/
theorem wordDigits_append {ds rest : List Char} (hds : ∀ c ∈ ds, isDigit c = true)
    (hrest : Ends rest) (acc : Nat) (hfits : digitsOnto acc ds < wordLimit) :
    wordDigits acc (ds ++ rest) = (digitsOnto acc ds, rest) := by
  induction ds generalizing acc with
  | nil =>
      cases rest with
      | nil => rfl
      | cons c tail =>
          have hc : digit? c = none := by
            simpa [isDigit] using not_isDigit_of_ends hrest
          simp [wordDigits, hc, digitsOnto]
  | cons c ds ih =>
      obtain ⟨hc, hds⟩ := List.forall_mem_cons.1 hds
      obtain ⟨d, hd⟩ := Option.isSome_iff_exists.1 hc
      have hstep : digitsOnto acc (c :: ds) = digitsOnto (acc * 10 + d) ds := by
        simp [digitsOnto, hd]
      rw [hstep] at hfits ⊢
      have hless := Nat.lt_of_le_of_lt (le_digitsOnto (acc * 10 + d) ds) hfits
      simp only [List.cons_append, wordDigits, hd, if_pos hless]
      exact ih hds _ hfits

/-- After the last digit a whole number is complete. -/
theorem finishNumber_of_ends {rest : List Char} (hrest : Ends rest) (negative : Bool)
    (size : Nat) : finishNumber negative size rest = .ok (integerOf negative size, rest) := by
  have hspan := spanDigits_append (List.forall_mem_nil _) hrest
  rw [List.nil_append] at hspan
  unfold finishNumber
  rw [hspan]
  cases rest with
  | nil => rfl
  | cons c tail =>
      have hc := hrest c tail rfl
      simp only [inNumber, Bool.or_eq_false_iff, decide_eq_false_iff_not] at hc
      obtain ⟨⟨⟨-, hdot⟩, he⟩, hE⟩ := hc
      simp [hdot, he, hE, wholeNumber]

/-- The digits of a word are read as it. -/
theorem readMagnitude_toDigits {n : Nat} (hn : n < wordLimit) (negative : Bool)
    {rest : List Char} (hrest : Ends rest) :
    readMagnitude negative (Nat.toDigits 10 n ++ rest) =
      .ok (integerOf negative n, rest) := by
  rcases Nat.eq_zero_or_pos n with rfl | hpos
  · cases rest with
    | nil => rfl
    | cons c tail =>
        have hzero : Nat.toDigits 10 0 = ['0'] := rfl
        have hdigit : digit? '0' = some 0 := by decide
        simp only [hzero, List.cons_append, List.nil_append, readMagnitude, hdigit,
          not_isDigit_of_ends hrest, Bool.false_eq_true, if_false]
        exact finishNumber_of_ends hrest negative 0
  · obtain ⟨c, ds, d, hds, hc⟩ := exists_toDigits hpos
    have hall : ∀ c ∈ Nat.toDigits 10 n, isDigit c = true := fun c => isDigit_of_mem_toDigits
    have hvalue : digitsOnto 0 (Nat.toDigits 10 n) = n := digitsValue_toDigits n
    have hword := wordDigits_append hall hrest 0 (by rw [hvalue]; exact hn)
    rw [hvalue] at hword
    rw [hds, List.cons_append] at hword ⊢
    simp only [readMagnitude, hc, hword]
    exact finishNumber_of_ends hrest negative n

theorem mem_of_mem_wordDigits {acc : Nat} {cs : List Char} {c : Char}
    (h : c ∈ (wordDigits acc cs).2) : c ∈ cs := by
  induction cs generalizing acc with
  | nil => exact h
  | cons d cs ih =>
      unfold wordDigits at h
      split at h
      · exact h
      · split at h
        · exact List.mem_cons_of_mem _ (ih h)
        · exact h

/-- Of a text that is all digits nothing is left over. -/
theorem rest_eq_nil_of_digits {ds : List Char} (hds : ∀ c ∈ ds, isDigit c = true)
    {negative : Bool} {x : Number} {rest : List Char}
    (h : readMagnitude negative ds = .ok (x, rest)) : rest = [] := by
  have whole : ∀ size excess, wholeNumber negative size excess [] = .ok (x, rest) → rest = [] := by
    intro size excess hwhole
    unfold wholeNumber floatingNumber at hwhole
    split at hwhole
    · cases hwhole
      rfl
    · split at hwhole <;> cases hwhole
      rfl
  unfold readMagnitude at h
  split at h
  · cases h
  · rename_i c cs
    split at h
    · cases h
    · split at h
      · cases h
        rfl
      · rename_i d tail
        have hd : isDigit d = true := hds d (by simp)
        rw [if_pos hd] at h
        cases h
    · -- What no longer fits the word is digits, up to the end.
      have hexcess : ∀ e ∈ (wordDigits 0 (c :: cs)).2, isDigit e = true :=
        fun e he => hds e (mem_of_mem_wordDigits he)
      have hspan := spanDigits_append hexcess ends_nil
      rw [List.append_nil] at hspan
      simp only [finishNumber, hspan] at h
      exact whole _ _ h

/-- A digit or a minus sign is nothing else. -/
theorem readHead_of_numeral {c : Char} (hc : c = '-' ∨ isDigit c = true) (cs : List Char) :
    readHead (c :: cs) = (readNumber (c :: cs)).map fun (n, rest) =>
      (.number n ((c :: cs).takeWhile inNumber), rest) := by
  have hspace : isSpace c = false := by
    rcases hc with rfl | hc
    · rfl
    · cases hspace : isSpace c with
      | false => rfl
      | true =>
          simp only [isSpace, Bool.or_eq_true, decide_eq_true_eq] at hspace
          rcases hspace with ((rfl | rfl) | rfl) | rfl <;> cases hc
  have hother : ∀ d, d ∈ ['n', 't', 'f', '"', '[', '\x7b'] → c ≠ d := by
    intro d hd hcd
    subst hcd
    rcases hc with rfl | hc
    · simp at hd
    · simp only [List.mem_cons, List.not_mem_nil, or_false] at hd
      rcases hd with rfl | rfl | rfl | rfl | rfl | rfl <;> cases hc
  rw [readHead, skipSpace, List.dropWhile_cons_of_neg (by simp [hspace]), readHeadAt,
    if_neg (hother 'n' (by simp)), if_neg (hother 't' (by simp)), if_neg (hother 'f' (by simp)),
    if_neg (hother '"' (by simp)), if_neg (hother '[' (by simp)),
    if_neg (hother '\x7b' (by simp)), if_pos hc]

theorem readNumber_of_digit {c : Char} (hc : isDigit c = true) (cs : List Char) :
    readNumber (c :: cs) = readMagnitude false (c :: cs) := by
  unfold readNumber
  split
  · rename_i heq
    cases heq
    cases hc
  · rfl

/-- A numeral is digits, or a minus sign before digits that are not zero. -/
theorem numeral_cases (n : Int) :
    (∃ m : Nat, n = m ∧ (toString n).toList = Nat.toDigits 10 m) ∨
      ∃ m : Nat, 0 < m ∧ n = -(m : Int) ∧ (toString n).toList = '-' :: Nat.toDigits 10 m := by
  rw [Int.toString_eq_repr, Int.repr_eq_if]
  split
  · exact .inl ⟨n.toNat, by omega, by simp [Nat.repr_eq_ofList_toDigits]⟩
  · refine .inr ⟨(-n).toNat, by omega, by omega, ?_⟩
    simp [Nat.repr_eq_ofList_toDigits]

theorem takeWhile_inNumber {cs rest : List Char} (hcs : ∀ c ∈ cs, inNumber c = true)
    (hrest : Ends rest) : (cs ++ rest).takeWhile inNumber = cs := by
  induction cs with
  | nil =>
      cases rest with
      | nil => rfl
      | cons c tail => exact List.takeWhile_cons_of_neg (by simp [hrest c tail rfl])
  | cons c cs ih =>
      obtain ⟨hc, hcs⟩ := List.forall_mem_cons.1 hcs
      rw [List.cons_append, List.takeWhile_cons_of_pos hc, ih hcs]

theorem inNumber_of_isDigit {c : Char} (hc : isDigit c = true) : inNumber c = true := by
  simp [inNumber, hc]

/-- Whether a word holds an integer, unsigned or signed. -/
def IsWord (n : Int) : Prop :=
  -9223372036854775808 ≤ n ∧ n < 18446744073709551616

theorem readNumber_numeral {n : Int} (hn : IsWord n) {rest : List Char} (hrest : Ends rest) :
    readNumber ((toString n).toList ++ rest) = .ok (.integer n, rest) := by
  obtain ⟨hlow, hhigh⟩ := hn
  rcases numeral_cases n with ⟨m, rfl, hm⟩ | ⟨m, hpos, rfl, hm⟩
  · have hword : m < wordLimit := by
      unfold wordLimit
      omega
    obtain ⟨c, ds, hds⟩ := List.exists_cons_of_ne_nil (Nat.toDigits_ne_nil (n := m) (b := 10))
    have hc : isDigit c = true := isDigit_of_mem_toDigits (n := m) (by simp [hds])
    have hread := readMagnitude_toDigits hword false hrest
    rw [hm, hds, List.cons_append] at *
    rw [readNumber_of_digit hc, hread]
    rfl
  · have hword : m < wordLimit := by
      unfold wordLimit
      omega
    rw [hm, List.cons_append]
    show readMagnitude true _ = _
    rw [readMagnitude_toDigits hword true hrest, integerOf, if_pos rfl, if_pos (by omega)]

theorem rest_eq_nil_of_numeral {n : Int} {part : List Char} (hpart : part <+: (toString n).toList)
    {x : Number} {rest : List Char} (h : readNumber part = .ok (x, rest)) : rest = [] := by
  have digits : ∀ {m : Nat} {ds : List Char}, ds <+: Nat.toDigits 10 m →
      ∀ c ∈ ds, isDigit c = true :=
    fun hds c hc => isDigit_of_mem_toDigits (hds.subset hc)
  cases part with
  | nil => cases h
  | cons c part =>
      rcases numeral_cases n with ⟨m, -, hm⟩ | ⟨m, -, -, hm⟩
      · rw [hm] at hpart
        rw [readNumber_of_digit (digits hpart c (by simp))] at h
        exact rest_eq_nil_of_digits (digits hpart) h
      · rw [hm, List.cons_prefix_cons] at hpart
        obtain ⟨rfl, hpart⟩ := hpart
        exact rest_eq_nil_of_digits (digits hpart) h

/-- A numeral opens with a sign or a digit. -/
theorem exists_numeral (n : Int) :
    ∃ c tail, (toString n).toList = c :: tail ∧ (c = '-' ∨ isDigit c = true) ∧
      ∀ d ∈ (toString n).toList, inNumber d = true := by
  rcases numeral_cases n with ⟨m, -, hm⟩ | ⟨m, -, -, hm⟩
  · obtain ⟨c, ds, hds⟩ := List.exists_cons_of_ne_nil (Nat.toDigits_ne_nil (n := m) (b := 10))
    refine ⟨c, ds, hm.trans hds, .inr (isDigit_of_mem_toDigits (n := m) (by simp [hds])), ?_⟩
    rw [hm]
    exact fun d hd => inNumber_of_isDigit (isDigit_of_mem_toDigits hd)
  · refine ⟨'-', _, hm, .inl rfl, ?_⟩
    rw [hm]
    refine List.forall_mem_cons.2 ⟨rfl, fun d hd => ?_⟩
    exact inNumber_of_isDigit (isDigit_of_mem_toDigits hd)

theorem isOpening_of_numeral {c : Char} (hc : c = '-' ∨ isDigit c = true) :
    isOpening c = true := by
  have hne : ∀ d ∈ [' ', '\t', '\n', '\r', ']', ','], c ≠ d := by
    intro d hd heq
    subst heq
    rcases hc with rfl | hc
    · simp at hd
    · simp only [List.mem_cons, List.not_mem_nil, or_false] at hd
      rcases hd with rfl | rfl | rfl | rfl | rfl | rfl <;> cases hc
  simp [isOpening, isSpace, hne]

/-- An integer is read from its numeral. -/
theorem integer_takes {n : Int} (hn : IsWord n) :
    Reader.Takes readHead (toString n).toList (.number (.integer n) (toString n).toList) := by
  obtain ⟨c, tail, hcs, hc, hall⟩ := exists_numeral n
  refine ⟨⟨fun rest hrest => ?_, fun part hpart hne w rest h => ?_⟩,
    c, tail, hcs, isOpening_of_numeral hc⟩
  · have hread := readNumber_numeral hn hrest
    have hwritten := takeWhile_inNumber hall hrest
    rw [hcs, List.cons_append] at hread hwritten ⊢
    rw [readHead_of_numeral hc, hread, hwritten]
    rfl
  · cases part with
    | nil => cases h
    | cons d part =>
        have hd : d = c := by
          rw [hcs, List.cons_prefix_cons] at hpart
          exact hpart.1
        rw [readHead_of_numeral (hd ▸ hc)] at h
        cases hread : readNumber (d :: part) with
        | error fault =>
            rw [hread] at h
            cases h
        | ok p =>
            rw [hread] at h
            cases h
            exact rest_eq_nil_of_numeral hpart hread

/-! ### Literals -/

theorem readLiteral_append (word rest : List Char) :
    readLiteral word (word ++ rest) = .ok rest := by
  induction word with
  | nil => rfl
  | cons c word ih => simp [readLiteral, ih]

theorem readLiteral_part {word part : List Char} (hpart : part <+: word) (hne : part ≠ word) :
    readLiteral word part = .error .endInValue := by
  induction word generalizing part with
  | nil => exact absurd (List.prefix_nil.1 hpart) hne
  | cons c word ih =>
      cases part with
      | nil => rfl
      | cons d part =>
          obtain ⟨rfl, hrest⟩ := List.cons_prefix_cons.1 hpart
          rw [readLiteral, if_pos rfl]
          exact ih hrest fun hc => hne (by rw [hc])

/-- A literal is read letter by letter. -/
theorem literal_closes {c : Char} {word : List Char} {head : Head}
    (hread : ∀ cs, readHead (c :: cs) = (readLiteral word cs).map fun rest => (head, rest)) :
    Reader.Closes readHead (c :: word) head := by
  refine ⟨fun rest => ?_, fun part hpart hne => ?_⟩
  · rw [List.cons_append, hread, readLiteral_append]
    rfl
  · cases part with
    | nil => exact ⟨.endInValue, rfl⟩
    | cons d part =>
        obtain ⟨rfl, hrest⟩ := List.cons_prefix_cons.1 hpart
        rw [hread, readLiteral_part hrest fun hc => hne (by rw [hc])]
        exact ⟨.endInValue, rfl⟩

theorem null_closes : Reader.Closes readHead ['n', 'u', 'l', 'l'] .null :=
  literal_closes fun _ => rfl

theorem boolean_takes (b : Bool) :
    Reader.Takes readHead (Json.boolean b).chars (.boolean b) := by
  cases b with
  | false => exact (literal_closes fun _ => rfl).takes rfl
  | true => exact (literal_closes fun _ => rfl).takes rfl

/-! ### Strings -/

theorem hasUnitDigits_append {part : List Char} (more : List Char)
    (h : hasUnitDigits part = true) : hasUnitDigits (part ++ more) = true := by
  simp only [hasUnitDigits, decide_eq_true_eq] at h ⊢
  rw [List.take_append, List.flatMap_append, List.length_append]
  omega

/-- Of four digits each is at least one byte. -/
theorem hasUnitDigits_cons (a b c d : Char) (more : List Char) :
    hasUnitDigits (a :: b :: c :: d :: more) = true := by
  have hbytes : ∀ c, 1 ≤ (Text.Utf8.encodeChar c).length := by
    intro c
    unfold Text.Utf8.encodeChar
    simp only
    split
    · exact Nat.le_refl _
    · split
      · simp
      · split <;> simp
  have ha := hbytes a
  have hb := hbytes b
  have hc := hbytes c
  have hd := hbytes d
  simp only [hasUnitDigits, List.take_succ_cons, List.take_zero, List.flatMap_cons,
    List.flatMap_nil, List.length_append, decide_eq_true_eq]
  omega

/-- A character is read back from between quotes. -/
theorem readTextFrom_escapeChar (c : Char) (more : List Char) :
    readTextFrom .plain (escapeChar c ++ more) = prependChar c (readTextFrom .plain more) := by
  unfold escapeChar
  split
  · subst_vars; rfl
  split
  · subst_vars; rfl
  split
  · subst_vars; rfl
  split
  · subst_vars; rfl
  split
  · subst_vars; rfl
  split
  · subst_vars; rfl
  split
  · subst_vars; rfl
  split
  · rename_i hcontrol
    have hhigh := hexValue?_hexDigit (c.toNat / 16) (by omega)
    have hlow := hexValue?_hexDigit (c.toNat % 16) (by omega)
    have hzero : hexValue? '0' = some 0 := by decide
    have hc : Char.ofNat (c.toNat / 16 * 16 + c.toNat % 16) = c := by
      rw [show c.toNat / 16 * 16 + c.toNat % 16 = c.toNat by omega]
      exact Char.ofNat_toNat c
    have hsecond : isSecondHalf (c.toNat / 16 * 16 + c.toNat % 16) = false := by
      simp [isSecondHalf]
      omega
    have hfirst : isFirstHalf (c.toNat / 16 * 16 + c.toNat % 16) = false := by
      simp [isFirstHalf]
      omega
    simp [readTextFrom, hasUnitDigits_cons, hzero, hhigh, hlow, hsecond, hfirst, hc]
  · rename_i hquote hbackslash _ _ _ _ _ hcontrol
    simp [readTextFrom, hquote, hbackslash, hcontrol]

theorem readTextFrom_escaped (cs rest : List Char) :
    readTextFrom .plain (cs.flatMap escapeChar ++ '"' :: rest) = .ok (cs, rest) := by
  induction cs with
  | nil => rfl
  | cons c cs ih =>
      rw [List.flatMap_cons, List.append_assoc, readTextFrom_escapeChar, ih]
      rfl

theorem prependChar_append {c : Char} {r r' : Except Fault (List Char × List Char)}
    {x rest more : List Char}
    (hr : ∀ x rest, r = .ok (x, rest) → r' = .ok (x, rest ++ more))
    (h : prependChar c r = .ok (x, rest)) : prependChar c r' = .ok (x, rest ++ more) := by
  cases r with
  | error fault => cases h
  | ok p =>
      cases h
      rw [hr _ _ rfl]
      rfl

/-- A reader that has found the closing quote does not look further. -/
theorem readTextFrom_append {state : TextState} {part x rest : List Char} (more : List Char)
    (h : readTextFrom state part = .ok (x, rest)) :
    readTextFrom state (part ++ more) = .ok (x, rest ++ more) := by
  induction part generalizing state x rest with
  | nil =>
      unfold readTextFrom at h
      cases h
  | cons c part ih =>
      rw [List.cons_append]
      cases state with
      | plain =>
          simp only [readTextFrom] at h ⊢
          split_ifs at h ⊢
          · cases h
            rfl
          · exact ih h
          · exact prependChar_append (fun _ _ => ih) h
      | escape =>
          simp only [readTextFrom] at h ⊢
          by_cases hu : c = 'u'
          · rw [if_pos hu] at h ⊢
            split at h
            · rename_i hdigits
              rw [if_pos (hasUnitDigits_append more hdigits)]
              exact ih h
            · cases h
          · rw [if_neg hu] at h ⊢
            split at h
            · exact prependChar_append (fun _ _ => ih) h
            · cases h
      | unit first left value =>
          simp only [readTextFrom] at h ⊢
          split at h
          · cases h
          · cases left with
            | succ left => exact ih h
            | zero =>
                cases first with
                | none =>
                    simp only at h ⊢
                    split_ifs at h ⊢
                    · exact ih h
                    · exact prependChar_append (fun _ _ => ih) h
                | some first =>
                    simp only at h ⊢
                    split_ifs at h ⊢
                    exact prependChar_append (fun _ _ => ih) h
      | pair first =>
          simp only [readTextFrom] at h ⊢
          split_ifs at h ⊢
          exact ih h
      | pairLetter first =>
          simp only [readTextFrom] at h ⊢
          split at h
          · split at h
            · rename_i hu hdigits
              rw [if_pos hu, if_pos (hasUnitDigits_append more hdigits)]
              exact ih h
            · cases h
          · cases h

/-- A string is read from between its quotes, and not from a part of that. -/
theorem readText_closes (cs : List Char) :
    Reader.Closes readText (cs.flatMap escapeChar ++ ['"']) cs := by
  have hwhole : ∀ rest, readText (cs.flatMap escapeChar ++ '"' :: rest) = .ok (cs, rest) :=
    readTextFrom_escaped cs
  refine ⟨fun rest => ?_, fun part hpart hne => ?_⟩
  · rw [List.append_assoc]
    exact hwhole rest
  · cases hread : readText part with
    | error fault => exact ⟨fault, rfl⟩
    | ok p =>
        -- What is missing of the text would have been left unread.
        obtain ⟨more, hmore⟩ := hpart
        have happend : readText (part ++ more) = .ok (p.1, p.2 ++ more) :=
          readTextFrom_append more hread
        rw [hmore, hwhole] at happend
        have hrest := congrArg Prod.snd (Except.ok.inj happend)
        obtain ⟨-, rfl⟩ := List.append_eq_nil_iff.1 hrest.symm
        exact absurd (by rw [← hmore, List.append_nil]) hne

theorem text_takes (cs : List Char) : Reader.Takes readHead (writeText cs) (.text cs) := by
  have hread : ∀ cs, readHead ('"' :: cs) = readText cs >>= fun p => .ok (.text p.1, p.2) := by
    intro cs
    show (readText cs).map _ = _
    cases readText cs <;> rfl
  have hinner := (readText_closes cs).map (f := Head.text) hread
  exact (hinner.cons ⟨.endInValue, rfl⟩ fun _ => rfl).takes rfl

/-! ### Values that are one piece -/

namespace Reader

variable {reader : Reader α} {cs : List Char} {head : Head} {v : α}

/-- A reader that looks at the first piece of a value, of which this piece is the whole. -/
theorem Takes.piece (h : Takes readHead cs head)
    (hreads : ∀ text rest, readHead text = .ok (head, rest) → reader text = .ok (v, rest))
    (hstops : ∀ text w rest, reader text = .ok (w, rest) →
      ∃ head rest', readHead text = .ok (head, rest') ∧ (rest' = [] → rest = [])) :
    reader.Takes cs v := by
  refine ⟨⟨fun rest hrest => hreads _ _ (h.reads rest hrest),
    fun part hpart hne w rest hread => ?_⟩, h.opens⟩
  obtain ⟨head', rest', hhead, hrest⟩ := hstops part w rest hread
  exact hrest (h.exhausts part hpart hne _ _ hhead)

end Reader

/-- An unsigned integer is read back from its numeral. -/
theorem unsigned_takes {w : Width} (n : Unsigned w) :
    (unsignedReader w).Takes (Json.integer n.val).chars n := by
  have hlimit : w.limit ≤ 18446744073709551616 := by
    cases w <;> decide
  have hword : IsWord n.val := ⟨by omega, by have := n.isLt; omega⟩
  refine (integer_takes hword).piece (fun text rest hhead => ?_) fun text v rest h => ?_
  · have hn : 0 ≤ (n.val : Int) ∧ (n.val : Int).toNat < w.limit := ⟨by omega, n.isLt⟩
    simp only [unsignedReader, hhead, bind, Except.bind, dif_pos hn]
    rfl
  · obtain ⟨⟨head, rest'⟩, hhead, h⟩ := eq_ok_of_bind h
    simp only at h
    split at h
    · split at h <;> cases h
      exact ⟨_, _, hhead, id⟩
    · cases h

theorem signed_takes {w : Width} (n : Signed w) :
    (signedReader w).Takes (Json.integer n.val).chars n := by
  have hhalf : w.half ≤ 9223372036854775808 := by
    cases w <;> decide
  have hword : IsWord n.val := by
    have hn := n.property
    exact ⟨by omega, by omega⟩
  refine (integer_takes hword).piece (fun text rest hhead => ?_) fun text v rest h => ?_
  · simp only [signedReader, hhead, bind, Except.bind, dif_pos n.property]
    rfl
  · obtain ⟨⟨head, rest'⟩, hhead, h⟩ := eq_ok_of_bind h
    simp only at h
    split at h
    · split at h <;> cases h
      exact ⟨_, _, hhead, id⟩
    · cases h

theorem truth_takes (b : Bool) : booleanReader.Takes (Json.boolean b).chars b := by
  refine (boolean_takes b).piece (fun text rest hhead => ?_) fun text v rest h => ?_
  · simp only [booleanReader, hhead]
    rfl
  · obtain ⟨⟨head, rest'⟩, hhead, h⟩ := eq_ok_of_bind h
    simp only at h
    split at h <;> cases h
    exact ⟨_, _, hhead, id⟩

theorem character_takes (c : Char) :
    characterReader.Takes (Json.text (String.singleton c)).chars c := by
  have hc : (String.singleton c).toList = [c] := String.toList_singleton c
  rw [Json.chars, hc]
  refine (text_takes [c]).piece (fun text rest hhead => ?_) fun text v rest h => ?_
  · simp only [characterReader, hhead]
    rfl
  · obtain ⟨⟨head, rest'⟩, hhead, h⟩ := eq_ok_of_bind h
    simp only at h
    split at h <;> cases h
    exact ⟨_, _, hhead, id⟩

theorem string_takes (t : String) : textReader.Takes (Json.text t).chars t := by
  rw [Json.chars]
  refine (text_takes t.toList).piece (fun text rest hhead => ?_) fun text v rest h => ?_
  · simp only [textReader, hhead, bind, Except.bind, String.ofList_toList]
    rfl
  · obtain ⟨⟨head, rest'⟩, hhead, h⟩ := eq_ok_of_bind h
    simp only at h
    split at h <;> cases h
    exact ⟨_, _, hhead, id⟩

theorem unit_takes : unitReader.Takes Json.null.chars () := by
  refine (null_closes.takes rfl).piece (fun text rest hhead => ?_) fun text v rest h => ?_
  · simp only [unitReader, hhead]
    rfl
  · obtain ⟨⟨head, rest'⟩, hhead, h⟩ := eq_ok_of_bind h
    simp only at h
    split at h <;> cases h
    exact ⟨_, _, hhead, id⟩

end BlockingSync.Json
