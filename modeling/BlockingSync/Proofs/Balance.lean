/-
Entries and notifications are in balance.

As long as all tokens are left to the primitives, a thread has an entry on a list only
while it waits at that place, and a notification only once its entry was taken out; it
never has both (`Balanced`).  While the running thread is in the middle of a stroke, its
own entry may already be there although its code does not say so yet; `Midway` tells
what holds then.
-/
import BlockingSync.Proofs.Sound

namespace BlockingSync

variable {α : Type}

/-- The place at which an instruction waits. -/
def Instr.place? : Instr α → Option Place
  | .suspend _ place => place
  | _ => none

/-- The place at which code begins to wait. -/
def placeOf (code : List (Instr α)) : Option Place := code.head?.bind Instr.place?

namespace Machine

/-- The place at which a thread waits, or will at its next instruction. -/
def place? (M : Machine α) (u : ThreadId) : Option Place := placeOf (M.thread u).code

/-- How often a task is on the list of a place. -/
def entries (M : Machine α) (p : Place) (u : HandleId) : Nat := (M.waiters p).toList.count u

/-- Whether the entries of a thread and its notification are in balance. -/
structure Balanced (M : Machine α) (u : ThreadId) : Prop where
  /-- A thread that waits nowhere has neither. -/
  elsewhere : M.place? u = none → (M.handle u).notified = false ∧ ∀ p, M.entries p u = 0
  /-- A thread that was woken has no entry any more. -/
  woken : ∀ p, M.place? u = some p → (M.handle u).notified = true →
    u ∈ M.ready ∧ ∀ p', M.entries p' u = 0
  /-- A thread that was not woken has its entry, unless it has terminated and was passed over. -/
  waiting : ∀ p, M.place? u = some p → (M.handle u).notified = false → u ∉ M.ready.tail ∧
    (∀ p', p' ≠ p → M.entries p' u = 0) ∧ M.entries p u ≤ 1 ∧
      (M.isResumable u = true → M.entries p u = 1)

variable {M M' : Machine α} {t u : ThreadId}

/-- A thread on a list waits there and was not woken yet. -/
theorem Balanced.of_entry (h : M.Balanced u) {p : Place} (he : M.entries p u ≠ 0) :
    M.place? u = some p ∧ (M.handle u).notified = false ∧ M.entries p u = 1 := by
  cases hp : M.place? u with
  | none => exact absurd ((h.elsewhere hp).2 p) he
  | some p' =>
      cases hn : (M.handle u).notified with
      | true => exact absurd ((h.woken p' hp hn).2 p) he
      | false =>
          obtain ⟨-, hother, hle, -⟩ := h.waiting p' hp hn
          by_cases hpp : p = p'
          · subst hpp
            exact ⟨rfl, rfl, by omega⟩
          · exact absurd (hother p hpp) he

theorem Balanced.of_mem (h : M.Balanced u) {p : Place} (hu : u ∈ (M.waiters p).toList) :
    M.place? u = some p ∧ (M.handle u).notified = false ∧ M.entries p u = 1 :=
  h.of_entry (Nat.ne_of_gt (List.count_pos_iff.2 hu))

/-- The balance of a thread does not depend on anything else. -/
theorem Balanced.congr (h : M.Balanced u) (hplace : M'.place? u = M.place? u)
    (hn : (M'.handle u).notified = (M.handle u).notified)
    (he : ∀ p, M'.entries p u = M.entries p u)
    (hlive : M'.isResumable u = true → M.isResumable u = true)
    (hready : (M.handle u).notified = true → u ∈ M.ready → u ∈ M'.ready)
    (htail : M.place? u ≠ none → u ∈ M'.ready.tail → u ∈ M.ready.tail) : M'.Balanced u := by
  refine ⟨?_, ?_, ?_⟩
  · simpa only [hplace, hn, he] using h.elsewhere
  · intro p hp hw
    rw [hplace] at hp
    rw [hn] at hw
    simp only [he]
    exact ⟨hready hw (h.woken p hp hw).1, (h.woken p hp hw).2⟩
  · intro p hp hw
    rw [hplace] at hp
    rw [hn] at hw
    simp only [he]
    obtain ⟨hout, hother, hle, hone⟩ := h.waiting p hp hw
    exact ⟨fun hc => hout (htail (by simp [hp]) hc), hother, hle, fun hl => hone (hlive hl)⟩

/-! ### The thread that is resumed -/

theorem place?_of_code {i : Instr α} {code : List (Instr α)} (h : (M.thread u).code = i :: code) :
    M.place? u = i.place? := by
  simp [place?, placeOf, h]

theorem code_of_place? {p : Place} (h : M.place? u = some p) :
    ∃ v code, (M.thread u).code = .suspend v (some p) :: code := by
  unfold place? placeOf at h
  cases hcode : (M.thread u).code with
  | nil => simp [hcode] at h
  | cons i code =>
      rw [hcode] at h
      cases i with
      | suspend v place =>
          obtain rfl : place = some p := h
          exact ⟨v, code, rfl⟩
      | _ => simp [Instr.place?] at h

/-- Only its own thread parks on a handle. -/
theorem eq_of_parked {S : Setting α} (spares : S.SparesTokens) (ho : M.Orderly)
    (hs : S.Shaped M) {h : HandleId} (hmem : u ∈ (M.handle h).parked) : u = h := by
  have hstop := (ho.of_parked (.handle h) u hmem).2
  cases hcode : (M.thread u).code with
  | nil => simp [stop?, hcode] at hstop
  | cons i code =>
      rw [stop?_of_code hcode] at hstop
      cases i with
      | suspend v place =>
          obtain rfl : v = h := Stop.handle.inj (Option.some.inj hstop)
          have hshape := hcode ▸ (hs u).code
          obtain ⟨p, rfl⟩ := hshape.place_of_suspend spares
          exact hshape.handle_of_suspend.symm
      | _ => simp [Instr.stop?] at hstop

/-- A thread that waits and is not ready is parked on its handle, alone. -/
theorem parked_of_waiting {S : Setting α} (spares : S.SparesTokens) (ho : M.Orderly)
    (hs : S.Shaped M) {p : Place} (hp : M.place? u = some p) (hready : u ∉ M.ready) :
    (M.handle u).parked = [u] := by
  obtain ⟨v, code, hcode⟩ := code_of_place? hp
  have hshape := hcode ▸ (hs u).code
  obtain rfl : v = u := hshape.handle_of_suspend
  have hmem : v ∈ (M.handle v).parked := by
    rcases ho.of_not_ready v hready with hi | ⟨s, hat, hmem⟩
    · simp [hi.1] at hcode
    · rw [stop?_of_code hcode] at hat
      obtain rfl := Option.some.inj hat
      exact hmem
  have hall : ∀ w ∈ (M.handle v).parked, w = v := fun w hw => eq_of_parked spares ho hs hw
  have hnodup : (M.handle v).parked.Nodup := ho.parked_nodup (.handle v)
  cases hparked : (M.handle v).parked with
  | nil => simp [hparked] at hmem
  | cons first rest =>
      rw [hparked, List.nodup_cons] at hnodup
      have hfirst := hall first (by simp [hparked])
      cases rest with
      | nil => rw [hfirst]
      | cons second rest =>
          have hsecond := hall second (by simp [hparked])
          exact absurd (by simp [hfirst, hsecond]) hnodup.1

end Machine

namespace Setting

open Machine

variable {S : Setting α} {M M' : Machine α} {t u : ThreadId} {at? : Option Place}

/-! ### In the middle of a stroke -/

variable (S) in
/-- What holds in the middle of a stroke of a thread.  The place is where the thread has put its
entry by now. -/
structure Midway (t : ThreadId) (at? : Option Place) (M : Machine α) : Prop where
  orderly : M.Orderly
  shaped : S.Shaped M
  runs : M.ready.head? = some t
  others : ∀ u, u ≠ t → M.Balanced u
  notified : (M.handle t).notified = false
  entries : ∀ p, M.entries p t = if at? = some p then 1 else 0

/-- The changes that keep what holds in the middle of a stroke: nobody enters a list, and nobody
is resumed but the waiters of another place. -/
def IsMild (at? : Option Place) : Effect → Prop
  | .enter _ | .resume _ => False
  | .wake p => at? ≠ some p
  | _ => True

/-- A change of nothing that the balance looks at. -/
theorem Midway.congr (h : S.Midway t at? M) (ho : M'.Orderly) (hthreads : M'.threads = M.threads)
    (hready : M'.ready = M.ready) (hn : ∀ u, (M'.handle u).notified = (M.handle u).notified)
    (he : ∀ p u, M'.entries p u = M.entries p u)
    (hlive : ∀ u, M'.isResumable u = true → M.isResumable u = true) : S.Midway t at? M' := by
  have hthread : ∀ u, M'.thread u = M.thread u := thread_congr hthreads
  refine ⟨ho, fun u => by rw [hthread]; exact h.shaped u, by rw [hready]; exact h.runs, ?_,
    by rw [hn]; exact h.notified, fun p => by rw [he]; exact h.entries p⟩
  intro u hu
  exact (h.others u hu).congr (by simp only [place?, hthread]) (hn u) (he · u) (hlive u)
    (by rw [hready]; exact fun _ => id) (by rw [hready]; exact fun _ => id)

/-- The earliest entry of a place belongs to another thread, which waits there and was not
woken. -/
theorem Midway.of_first (h : S.Midway t at? M) {p : Place} (hp : at? ≠ some p) {v : HandleId}
    {rest : List HandleId} (hs : (M.waiters p).toList = v :: rest) :
    v ≠ t ∧ M.place? v = some p ∧ (M.handle v).notified = false ∧ rest.count v = 0 := by
  have hentry : M.entries p v = rest.count v + 1 := by
    rw [Machine.entries, hs, List.count_cons_self]
  have hvt : v ≠ t := by
    rintro rfl
    rw [h.entries p, if_neg hp] at hentry
    omega
  obtain ⟨hplace, hn, hone⟩ := (h.others v hvt).of_entry (p := p) (by omega)
  exact ⟨hvt, hplace, hn, by omega⟩

theorem entries_setWaiters (p p' : Place) (l : WaitList HandleId) (u : HandleId) :
    (M.setWaiters p l).entries p' u = if p = p' then l.toList.count u else M.entries p' u := by
  rw [Machine.entries, waiters_setWaiters]
  split <;> rfl

/-- The entries that are left when the earliest one of a place is taken out. -/
theorem entries_rest {p : Place} {v : HandleId} {rest : WaitList HandleId}
    (hs : (M.waiters p).toList = v :: rest.toList) (hu : u ≠ v) (p' : Place) :
    (M.setWaiters p rest).entries p' u = M.entries p' u := by
  rw [entries_setWaiters]
  split
  · rename_i hpp
    subst hpp
    rw [Machine.entries, hs, List.count_cons_of_ne (Ne.symm hu)]
  · rfl

/-- A waiter that has terminated is passed over. -/
theorem Midway.skip (h : S.Midway t at? M) {p : Place} (hp : at? ≠ some p) {v : HandleId}
    {rest : WaitList HandleId} (hs : (M.waiters p).toList = v :: rest.toList)
    (dead : M.isResumable v = false) :
    S.Midway t at? ((M.setWaiters p rest).note (.skipped v)) := by
  obtain ⟨hvt, hplace, hn, hrest⟩ := h.of_first hp hs
  have horderly := h.orderly.change (t := t) (.skip hs dead)
  have hready : ((M.setWaiters p rest).note (.skipped v)).ready = M.ready := ready_setWaiters ..
  have hthread : ∀ u, ((M.setWaiters p rest).note (.skipped v)).thread u = M.thread u := fun u => by
    simp [thread, Machine.note]
  refine ⟨horderly, fun u => by rw [hthread]; exact h.shaped u, by rw [hready]; exact h.runs, ?_,
    (by simpa using h.notified), ?_⟩
  · intro u hu
    by_cases huv : u = v
    · subst huv
      have hplace' : ((M.setWaiters p rest).note (.skipped u)).place? u = some p := by
        simp only [place?, hthread] at hplace ⊢
        exact hplace
      refine ⟨by simp [hplace'], ?_, ?_⟩
      · intro p' _ hw
        rw [handle_note, handle_setWaiters, hn] at hw
        cases hw
      · intro p' hp' _
        obtain rfl : p = p' := Option.some.inj (hplace'.symm.trans hp')
        obtain ⟨hout, hother, -, -⟩ := (h.others u hu).waiting p hplace hn
        have hzero : ((M.setWaiters p rest).note (.skipped u)).entries p u = 0 := by
          show (M.setWaiters p rest).entries p u = 0
          rw [entries_setWaiters, if_pos rfl, hrest]
        refine ⟨by rw [hready]; exact hout, ?_, by omega, by simp [dead]⟩
        intro p'' hne
        show (M.setWaiters p rest).entries p'' u = 0
        rw [entries_setWaiters, if_neg (Ne.symm hne), hother p'' hne]
    · refine (h.others u hu).congr (by simp only [place?, hthread]) (by simp) ?_ (by simp)
        (by rw [hready]; exact fun _ => id) (by rw [hready]; exact fun _ => id)
      exact fun p' => entries_rest hs huv p'
  · intro p'
    rw [← h.entries p']
    exact entries_rest hs (Ne.symm hvt) p'

/-- A waiter that is resumed becomes ready. -/
theorem Midway.rouse (spares : S.SparesTokens) (h : S.Midway t at? M) {p : Place}
    (hp : at? ≠ some p) {v : HandleId} {rest : WaitList HandleId}
    (hs : (M.waiters p).toList = v :: rest.toList) (live : M.isResumable v = true) :
    S.Midway t at? ((M.setWaiters p rest).roused v) ∧
      ((M.setWaiters p rest).roused v).ready = M.ready ++ [v] := by
  obtain ⟨hvt, hplace, hn, hrest⟩ := h.of_first hp hs
  have horderly := h.orderly.change (t := t) (.rouse hs live)
  obtain ⟨others, hruns⟩ := List.head?_eq_some_iff.1 h.runs
  obtain ⟨hout, hother, -, -⟩ := (h.others v hvt).waiting p hplace hn
  have hnot : v ∉ M.ready := by
    rw [hruns, List.mem_cons, not_or]
    exact ⟨hvt, by simpa [hruns] using hout⟩
  have hready : ((M.setWaiters p rest).roused v).ready = M.ready ++ [v] := by
    simp [Machine.roused, parked_of_waiting spares h.orderly h.shaped hplace hnot]
  have hthread : ∀ u, ((M.setWaiters p rest).roused v).thread u = M.thread u := fun u => by
    simp [thread, Machine.roused]
  have hentries : ∀ p' u, ((M.setWaiters p rest).roused v).entries p' u =
      (M.setWaiters p rest).entries p' u := fun p' u => by
    rw [Machine.entries, waiters_roused, Machine.entries]
  have hhandle : ∀ u, u ≠ v →
      ((M.setWaiters p rest).roused v).handle u = M.handle u := fun u hu => by
    rw [handle_roused, if_neg (Ne.symm hu), handle_setWaiters]
  refine ⟨⟨horderly, fun u => by rw [hthread]; exact h.shaped u, by simp [hready, hruns], ?_,
    by rw [hhandle t (Ne.symm hvt)]; exact h.notified, ?_⟩, hready⟩
  · intro u hu
    by_cases huv : u = v
    · subst huv
      have hplace' : ((M.setWaiters p rest).roused u).place? u = some p := by
        simp only [place?, hthread] at hplace ⊢
        exact hplace
      have hzero : ∀ p', ((M.setWaiters p rest).roused u).entries p' u = 0 := by
        intro p'
        rw [hentries, entries_setWaiters]
        split
        · exact hrest
        · rename_i hne
          exact hother p' (Ne.symm hne)
      refine ⟨by simp [hplace'], fun _ _ _ => ⟨by simp [hready], hzero⟩, ?_⟩
      intro p' _ hw
      simp [handle_roused] at hw
    · refine (h.others u hu).congr (by simp only [place?, hthread])
        (by rw [hhandle u huv]) ?_ ?_ ?_ ?_
      · intro p'
        rw [hentries, entries_rest hs huv]
      · simp [isResumable_roused]
      · rw [hready]; exact fun _ => List.mem_append_left _
      · intro _ hmem
        rw [hready, hruns] at hmem
        rw [hruns]
        simpa [huv] using hmem
  · intro p'
    rw [hentries, entries_rest hs (Ne.symm hvt), h.entries]

/-- A thread that leaves a raw lock waits at no place, so its balance stays. -/
theorem Midway.unpark (h : S.Midway t at? M) {r : RawLockId} {s : RawLock} {v : ThreadId}
    (hs : (M.rawLock r).parked = v :: s.parked) :
    S.Midway t at? ((M.setRawLock r s).makeReady v) := by
  have horderly := h.orderly.change (t := t) (.unpark hs)
  have hstop : M.stop? v = some (.raw r) :=
    (h.orderly.of_parked (.raw r) v (by simp [parkedOn, hs])).2
  refine ⟨horderly, h.shaped, ?_, ?_, h.notified,
    fun p => (by cases p <;> rfl : _ = _).trans (h.entries p)⟩
  · obtain ⟨others, hothers⟩ := List.head?_eq_some_iff.1 h.runs
    simp [makeReady, setRawLock, hothers]
  · intro u hu
    refine (h.others u hu).congr rfl rfl (fun p => by cases p <;> rfl) id ?_ ?_
    · exact fun _ => List.mem_append_left _
    · intro hplace hmem
      obtain ⟨others, hothers⟩ := List.head?_eq_some_iff.1 h.runs
      have huv : u ≠ v := by
        rintro rfl
        cases hcode : (M.thread u).code with
        | nil => simp [stop?, hcode] at hstop
        | cons i code =>
            rw [stop?_of_code hcode] at hstop
            rw [place?_of_code hcode] at hplace
            cases i <;> simp [Instr.stop?, Instr.place?] at hstop hplace
      simp only [makeReady, setRawLock, hothers, List.cons_append, List.tail_cons,
        List.mem_append, List.mem_singleton, huv, or_false] at hmem
      simpa [hothers] using hmem

/-- **A mild change keeps what holds in the middle of a stroke.** -/
theorem Midway.change (spares : S.SparesTokens) (h : S.Midway t at? M) {e : Effect}
    (hc : Change t M e M') (he : IsMild at? e) : S.Midway t at? M' := by
  have horderly := h.orderly.change hc
  cases hc with
  | own m o =>
      exact h.congr horderly rfl rfl (fun _ => rfl)
        (fun p u => by rw [Machine.entries, waiters_setOwner]; rfl) (fun _ => id)
  | enter => exact absurd he id
  | resume => exact absurd he id
  | @relist p l hs =>
      refine h.congr horderly (by simp) (by simp) (by simp) ?_ (by simp)
      intro p' u
      rw [entries_setWaiters]
      split
      · rename_i hpp
        subst hpp
        rw [Machine.entries, hs]
      · rfl
  | skip hs dead => exact h.skip he hs dead
  | rouse hs live => exact (h.rouse spares he hs live).1
  | unpark hs => exact h.unpark hs
  | terminate v =>
      refine h.congr horderly rfl rfl ?_ (fun p u => by cases p <;> rfl) ?_
      · exact keeps_setHandle (·.notified) (by rfl)
      · intro u hl
        exact (Change.terminate (t := t) v).isResumable hl
  | adapt | refill | tasks | forget | note =>
      exact h.congr horderly rfl rfl (fun _ => rfl) (fun p u => by cases p <;> rfl) (fun _ => id)

theorem Midway.changes (spares : S.SparesTokens) (h : S.Midway t at? M) {allowed : Effect → Prop}
    (hc : Changes allowed t M M') (he : ∀ e, allowed e → IsMild at? e) : S.Midway t at? M' :=
  hc.keeps (fun _ _ _ ha last hN => hN.change spares last (he _ ha)) h

/-- A wake at another place leaves nobody there, or makes a thread ready that waits there. -/
theorem Midway.wakeOne (spares : S.SparesTokens) (h : S.Midway t at? M) {p : Place}
    (hp : at? ≠ some p) : ((M.wakeOne p).1.waiters p).toList = [] ∨
      ∃ v, v ≠ t ∧ v ∉ M.ready ∧ v ∈ (M.wakeOne p).1.ready ∧
        (M.wakeOne p).1.place? v = some p ∧ ((M.wakeOne p).1.handle v).notified = true := by
  rcases wakeOne_cases t M p with ⟨-, hnil⟩ | ⟨N, v, hw, rest, hs, live, hM'⟩
  · exact .inl hnil
  · right
    have hN : S.Midway t at? N := h.changes spares hw (by rintro e rfl; exact hp)
    obtain ⟨hvt, hplace, hn, -⟩ := hN.of_first hp hs
    obtain ⟨-, hready⟩ := hN.rouse spares hp hs live
    obtain ⟨others, hothers⟩ := List.head?_eq_some_iff.1 hN.runs
    obtain ⟨woken, hwoken⟩ := hw.ready
    have hout := ((hN.others v hvt).waiting p hplace hn).1
    rw [hothers, List.tail_cons] at hout
    refine ⟨v, hvt, ?_, by simp [hM', hready], ?_, by simp [hM', handle_roused]⟩
    · intro hc
      have hmem : v ∈ N.ready := by rw [hwoken]; exact List.mem_append_left _ hc
      rw [hothers] at hmem
      exact (List.mem_cons.1 hmem).elim hvt hout
    · rw [place?, thread_congr (wakeOne_wakes t M p).threads, ← thread_congr hw.threads]
      exact hplace

/-- The running thread puts its entry on a list. -/
theorem Midway.enter (h : S.Midway t none M) (p : Place) :
    S.Midway t (some p) (M.enqueue p t) := by
  have horderly := h.orderly.change (t := t) (.enter p)
  have hthread : ∀ u, (M.enqueue p t).thread u = M.thread u := fun u => by simp [thread, enqueue]
  have hready : (M.enqueue p t).ready = M.ready := by simp [enqueue]
  have hentries : ∀ p' u, (M.enqueue p t).entries p' u =
      M.entries p' u + if p = p' ∧ u = t then 1 else 0 := by
    intro p' u
    unfold enqueue
    rw [entries_setWaiters]
    by_cases hpp : p = p'
    · subst hpp
      simp only [if_true, true_and, WaitList.toList_push, List.count_append, List.count_singleton,
        Machine.entries, beq_iff_eq, eq_comm (a := u)]
    · simp [hpp]
  refine ⟨horderly, fun u => by rw [hthread]; exact h.shaped u, by rw [hready]; exact h.runs, ?_,
    by simpa [enqueue] using h.notified, ?_⟩
  · intro u hu
    exact (h.others u hu).congr (by simp only [place?, hthread]) (by simp [enqueue])
      (fun p' => by simp [hentries, hu]) (by simp [enqueue]) (by rw [hready]; exact fun _ => id)
      (by rw [hready]; exact fun _ => id)
  · intro p'
    rw [hentries, h.entries]
    simp

theorem isMild_of_isCalm {e : Effect} (h : S.IsCalm e) : IsMild none e := by
  cases e with
  | enter | resume => exact absurd h id
  | wake p => simp [IsMild]
  | _ => trivial

theorem Midway.free (spares : S.SparesTokens) (h : S.Midway t none M) (m : MutexId) :
    S.Midway t none (M.free m) := by
  refine h.changes spares (free_changes t M m) ?_
  rintro e (rfl | rfl) <;> simp [IsMild]

theorem Midway.leave (spares : S.SparesTokens) (h : S.Midway t none M) (c : ConditionId)
    (m : MutexId) : S.Midway t (some (.condition c)) (M.leave c m t) := by
  have hown : S.Midway t none (M.setOwner m none) := h.change spares (.own m none) trivial
  refine (hown.enter (.condition c)).changes spares (wakeOne_wakes t _ (.mutex m)) ?_
  rintro e rfl
  simp [IsMild]

/-! ### Strokes -/

@[simp] theorem placeOf_nil : placeOf ([] : List (Instr α)) = none :=
  rfl

@[simp] theorem placeOf_cons (i : Instr α) (code : List (Instr α)) :
    placeOf (i :: code) = i.place? :=
  rfl

theorem placeOf_of_trails {step : Nat} {code : List (Instr α)} (h : S.Trails step code) :
    placeOf code = none := by
  cases code with
  | nil => rfl
  | cons i code =>
      have hi := (trails_cons.1 h).1
      cases i with
      | suspend => exact absurd hi id
      | _ => rfl

/-- A thread that gives an operation up does not wait. -/
theorem placeOf_cleanup {step : Nat} {code : List (Instr α)} (h : S.Trails step code) {path : Path}
    {r : Result α} : placeOf (cleanup code ++ [.report path r]) = none := by
  have hnone := placeOf_of_trails h.cleanup
  cases hc : cleanup code with
  | nil => rfl
  | cons i code =>
      rw [hc] at hnone
      exact hnone

/-- A thread waits only at the front of its code. -/
theorem Shape.placeOf_behind {step : Nat} {i : Instr α} {code : List (Instr α)}
    (h : S.Shape step u (i :: code)) : placeOf code = none := by
  cases h with
  | trailing h => exact placeOf_of_trails (trails_cons.1 h).2
  | report h | lock _ h | seize h | told _ h | inside _ h => exact placeOf_of_trails h
  | locking | waiting | waitingRaw | queueing | entering | leaving => rfl

theorem Begins.midway (spares : S.SparesTokens) {step : Nat} {path : Path} {op : Op α}
    {more : List (Instr α)} (hfind : S.find? step path = some op)
    (h : S.Begins M t step path op M' (.goOn more)) (hm : S.Midway t none M)
    (code : List (Instr α)) : S.Midway t (placeOf (more ++ code)) M' := by
  cases h with
  | calm h ho =>
      have hm' := hm.changes spares h fun _ => isMild_of_isCalm
      cases ho with
      | told hop =>
          have := Op.sparesTokens_of_find? (spares step) hop
          simp [Op.sparesTokens] at this
      | _ => exact hm'
  | forget => exact hm.change spares (.forget _) trivial
  | resumes hop =>
      rw [Op.sparesTokens_of_find? (spares step) hfind] at hop
      cases hop
  | release _ _ _ hn =>
      rcases hn with ⟨r, hn⟩ | ⟨message, hn⟩
      · obtain rfl := Next.goOn.inj hn
        exact hm.free spares _
      · cases hn
  | wait => exact hm.leave spares _ _
  | waitRaw _ _ h => exact (hm.enter _).changes spares h (by rintro e rfl; trivial)

/-- In the end of a stroke the entry of the thread is where its code says. -/
theorem Stroke.midway (spares : S.SparesTokens) {i : Instr α} {more code : List (Instr α)}
    (hfits : M.Fits S) (hshape : S.Shape (M.thread t).step t (i :: code)) (hi : i.place? = none)
    (h : S.Stroke M t i M' (.goOn more)) (hm : S.Midway t none M) :
    S.Midway t (placeOf (more ++ code)) M' := by
  have hcode := hshape.placeOf_behind
  cases h with
  | start h => exact h.midway spares hshape.trails_of_start.1 hm code
  | claim => simpa [hcode] using hm.change spares (.own _ _) trivial
  | queueUp => exact hm.enter _
  | unlock => simpa [hcode] using hm.free spares _
  | unlockFree => simpa [hcode] using hm
  | closeGuard => exact hm
  | seize h => simpa [hcode] using hm.changes spares h (by rintro e rfl; trivial)
  | pass =>
      obtain ⟨p, rfl⟩ := hshape.place_of_suspend spares
      simp [Instr.place?] at hi
  | report =>
      have horderly : (M.note (.finished t _ _ _)).Orderly :=
        Stroke.orderly hfits hshape hm.orderly (.report) (by simp)
      rw [List.nil_append, hcode]
      exact hm.congr horderly rfl rfl (fun _ => rfl) (fun p u => by cases p <;> rfl) (fun _ => id)
  | wait => exact hm.leave spares _ _
  | transact h =>
      refine hm.changes spares (h.changes hfits hshape.of_transact.1.lt) ?_
      intro e he
      cases e with
      | enter | resume => exact absurd he id
      | wake p => simp [IsMild, Instr.place?]
      | _ => trivial

/-- A thread that waits nowhere begins a stroke. -/
theorem Midway.of_balanced (hs : S.Sound M) (hb : ∀ u, M.Balanced u) {others : List ThreadId}
    (hready : M.ready = t :: others) (hplace : M.place? t = none) : S.Midway t none M := by
  obtain ⟨hn, he⟩ := (hb t).elsewhere hplace
  exact ⟨hs.orderly, hs.shaped, by simp [hready], fun u _ => hb u, hn, by simpa using he⟩

/-- A stroke is over when the code of the thread says where it waits. -/
theorem Midway.setThread {s : Thread α} (h : S.Midway t at? M) (hplace : placeOf s.code = at?)
    (u : ThreadId) : (M.setThread t s).Balanced u := by
  by_cases hu : u = t
  · subst hu
    have hplace' : (M.setThread u s).place? u = at? := by
      rw [place?, thread_setThread, if_pos rfl, hplace]
    have hentries : ∀ p, (M.setThread u s).entries p u = if at? = some p then 1 else 0 := fun p =>
      (by cases p <;> rfl : _ = M.entries p u).trans (h.entries p)
    refine ⟨fun hp => ⟨h.notified, fun p => ?_⟩, ?_, ?_⟩
    · rw [hplace'] at hp
      simp [hentries, hp]
    · intro p _ hw
      exact absurd (h.notified.symm.trans hw) (by simp)
    · intro p hp _
      rw [hplace'] at hp
      refine ⟨?_, fun p' hne => ?_, by simp [hentries, hp], fun _ => by simp [hentries, hp]⟩
      · have hnodup := h.orderly.ready_nodup
        obtain ⟨others, hothers⟩ := List.head?_eq_some_iff.1 h.runs
        rw [hothers, List.nodup_cons] at hnodup
        simpa [Machine.setThread, hothers] using hnodup.1
      · simp [hentries, hp, Ne.symm hne]
  · refine (h.others u hu).congr ?_ rfl (fun p => by cases p <;> rfl) id (fun _ => id) (fun _ => id)
    rw [place?, thread_setThread, if_neg (Ne.symm hu)]
    rfl

/-! ### Ticks -/

/-- A thread that takes its notification has neither entry nor notification any more. -/
theorem balanced_of_pass {h : HandleId} {w : Option Place} {code : List (Instr α)}
    {others : List ThreadId} (spares : S.SparesTokens) (hs : S.Sound M) (hb : ∀ u, M.Balanced u)
    (hready : M.ready = t :: others) (hcode : (M.thread t).code = .suspend h w :: code)
    (hn : (M.handle h).notified = true) (u : ThreadId) :
    ((M.setHandle h { M.handle h with notified := false }).setCode t code).Balanced u := by
  have hshape := hcode ▸ (hs.shaped t).code
  obtain ⟨p, rfl⟩ := hshape.place_of_suspend spares
  obtain rfl : h = t := hshape.handle_of_suspend
  obtain ⟨-, hnone⟩ := (hb h).woken p (place?_of_code hcode) hn
  have horderly := Stroke.orderly hs.fits hshape hs.orderly (.pass hn) (by simp)
  have hlive : ∀ v,
      (M.setHandle h { M.handle h with notified := false }).isResumable v = M.isResumable v :=
    keeps_setHandle (!·.terminated) (by rfl)
  have hmidway : S.Midway h none (M.setHandle h { M.handle h with notified := false }) := by
    refine ⟨horderly, hs.shaped, by simp [setHandle, hready], ?_, ?_, ?_⟩
    · intro v hv
      exact (hb v).congr rfl (by rw [handle_setHandle_ne hv]) (fun p => by cases p <;> rfl)
        (by rw [hlive v]; exact id) (fun _ => id) (fun _ => id)
    · simp [handle_setHandle]
    · intro p'
      simpa using (by cases p' <;> rfl : _ = M.entries p' h).trans (hnone p')
  exact hmidway.setThread hshape.placeOf_behind u

/-- A thread that stops keeps all in balance. -/
theorem balanced_of_halts (hs : S.Sound M) (hb : ∀ u, M.Balanced u)
    (h : M.Halts t M') (u : ThreadId) : M'.Balanced u := by
  have hn : (M.handle t).notified = false := by
    cases hplace : M.place? t with
    | none => exact ((hb t).elsewhere hplace).1
    | some p =>
        obtain ⟨v, code, hcode⟩ := code_of_place? hplace
        obtain rfl := (hcode ▸ (hs.shaped t).code).handle_of_suspend
        exact h.unnotified _ _ _ hcode
  refine (hb u).congr (by simp only [place?, h.thread]) (h.notified u)
    (fun p => by simp only [Machine.entries, h.waiters]) (fun live => (h.resumable u) ▸ live) ?_ ?_
  · intro hw hmem
    rw [h.ready] at hmem
    refine (List.mem_cons.1 hmem).resolve_left ?_
    rintro rfl
    simp [hn] at hw
  · intro _ hmem
    rw [h.ready]
    exact List.mem_of_mem_tail hmem

/-- **Whatever a tick can do keeps entries and notifications in balance.** -/
theorem balanced_of_turn (spares : S.SparesTokens) (hs : S.Sound M) (hb : ∀ u, M.Balanced u)
    (hturn : S.Turn M M') (u : ThreadId) : M'.Balanced u := by
  cases hturn with
  | still => exact hb u
  | finish hready hidle => exact balanced_of_halts hs hb (.finish hready hidle) u
  | @next t others i op pending hready hcode hpending =>
      have hm := Midway.of_balanced hs hb hready (by simp [place?, hcode])
      exact hm.setThread rfl u
  | @goOn t others i code N more hready hcode hstroke =>
      have hshape : S.Shape (M.thread t).step t (i :: code) := hcode ▸ (hs.shaped t).code
      cases hi : i.place? with
      | none =>
          have hplace : M.place? t = none := (place?_of_code hcode).trans hi
          have hm := Midway.of_balanced hs hb hready hplace
          exact (hstroke.midway spares hs.fits hshape hi hm).setThread rfl u
      | some p =>
          cases hstroke with
          | pass hn => exact balanced_of_pass spares hs hb hready hcode hn u
          | _ => simp [Instr.place?] at hi
  | park hready hcode hstroke =>
      exact balanced_of_halts hs hb (hstroke.halts hready hcode) u
  | @unwind t others i code N message hready hcode hstroke =>
      have hshape : S.Shape (M.thread t).step t (i :: code) := hcode ▸ (hs.shaped t).code
      have hplace : placeOf (cleanup code ++ [.report [(M.thread t).top] (.panicked message)]) =
          none := placeOf_cleanup (hstroke.trails_of_unwind hshape)
      cases hstroke with
      | start h =>
          have hm := Midway.of_balanced hs hb hready (place?_of_code hcode)
          have hm' : S.Midway t none N := by
            cases h with
            | unwind => exact hm
            | release => exact hm.free spares _
          exact hm'.setThread hplace u

/-- A tick after which its thread is not ready any more. -/
theorem Turn.halts (hs : S.Sound M) (h : S.Turn M M') (hstop : M.ready = t :: M'.ready) :
    M.Halts t M' := by
  have grows : ∀ woken, M'.ready ≠ M.ready ++ woken := by
    intro woken hc
    have := congrArg List.length hstop
    simp [hc] at this
    omega
  cases h with
  | still hready => simp [hready] at hstop
  | finish hready hidle =>
      obtain ⟨rfl, -⟩ := List.cons.inj (hready.symm.trans hstop)
      exact .finish hready hidle
  | next => exact absurd (List.append_nil _).symm (grows [])
  | @goOn t' others i code N more hready hcode hstroke =>
      obtain ⟨woken, hwoken⟩ := hstroke.ready hs.fits (hcode ▸ (hs.shaped t').code)
      exact absurd hwoken (grows woken)
  | park hready hcode hstroke =>
      obtain ⟨rfl, -⟩ := List.cons.inj (hready.symm.trans hstop)
      exact hstroke.halts hready hcode
  | @unwind t' others i code N message hready hcode hstroke =>
      obtain ⟨woken, hwoken⟩ := hstroke.ready hs.fits (hcode ▸ (hs.shaped t').code)
      exact absurd hwoken (grows woken)

/-- Only a notification lets a thread pass a suspension. -/
theorem Turn.notified_of_pass {v : HandleId} {w : Option Place} {code : List (Instr α)}
    {others : List ThreadId} (h : S.Turn M M') (hready : M.ready = t :: others)
    (hcode : (M.thread t).code = .suspend v w :: code) (hpass : (M'.thread t).code = code) :
    (M.handle v).notified = true := by
  rcases h.of_code hready hcode with ⟨N, more, hstroke, -⟩ | ⟨N, hstroke, rfl⟩ | ⟨_, _, hstroke, -⟩
  · cases hstroke with
    | pass hn => exact hn
  · have hthread : N.thread t = M.thread t := by
      simp only [thread, (hstroke.stays (.inr rfl)).threads]
    have hne : code ≠ .suspend v w :: code := fun hc => by simpa using congrArg List.length hc
    exact absurd (hpass.symm.trans ((congrArg Thread.code hthread).trans hcode)) hne
  · cases hstroke

/-- When no thread runs, or the next one has yet to begin, a ready thread that waits was woken. -/
theorem notified_of_stop (hs : S.Sound M) (hb : M.Balanced u) (h : S.Turn M M')
    (hstop : M.ready = t :: M'.ready) (hplace : M'.place? u ≠ none) (hready : u ∈ M'.ready) :
    (M'.handle u).notified = true := by
  have hhalts := h.halts hs hstop
  obtain ⟨p, hp⟩ := Option.ne_none_iff_exists'.1 hplace
  have hp' : M.place? u = some p := by simpa only [place?, hhalts.thread] using hp
  rw [hhalts.notified]
  cases hw : (M.handle u).notified with
  | true => rfl
  | false => exact absurd hready (by simpa [hstop] using (hb.waiting p hp' hw).1)

end Setting

end BlockingSync
