/-
How a wait goes on after its suspension.

A suspended wait has its suspension in front of it, then its lock, then its answer.  Once
it has left, it goes through the same acquisition as anybody who asks for the lock: it
takes the lock, or puts itself on the list of a mutex and tries again when it is woken
there, or parks at a raw lock (`Wait.Acquires`).  It answers as soon as it has the lock,
and it still has it then.
-/
import BlockingSync.Proofs.Custody
import BlockingSync.Proofs.Lineup

namespace BlockingSync

variable {α : Type}

namespace Wait

open Machine

/-- Whether code is that of a suspended wait. -/
def Suspends (c : ConditionId) (w : Wait) (code : List (Instr α)) : Prop :=
  ∃ path rest, code =
    .suspend w.thread (some (.condition c)) :: acquire w.lock :: .report path .ok :: rest

/-- The stages of a wait that has left its suspension. -/
inductive Acquires (w : Wait) : List (Instr α) → Prop
  /-- It is about to take the lock, or parked at a raw lock. -/
  | trying {path rest} : Acquires w (acquire w.lock :: .report path .ok :: rest)
  /-- It waits for the mutex. -/
  | queued {m path rest} (hm : w.lock.mutex? = some m) :
      Acquires w (.suspend w.thread (some (.mutex m)) :: .lock m :: .report path .ok :: rest)
  /-- It has the lock. -/
  | holding {path rest} : Acquires w (.report path .ok :: rest)

theorem Acquires.placeOf_ne {w : Wait} {code : List (Instr α)} (h : w.Acquires code)
    (c : ConditionId) : placeOf code ≠ some (.condition c) := by
  cases h with
  | trying =>
      rw [Setting.placeOf_cons]
      cases w.lock <;> simp [acquire, Instr.place?]
  | queued | holding => simp [Instr.place?]

/-- A wait that waits for a mutex tries to take it next, and then answers. -/
theorem Acquires.code_of_place {w : Wait} {code : List (Instr α)} {m : MutexId}
    (h : w.Acquires code) (hplace : placeOf code = some (.mutex m)) : ∃ path rest, code =
      .suspend w.thread (some (.mutex m)) :: .lock m :: .report path .ok :: rest := by
  cases h with
  | trying =>
      rw [Setting.placeOf_cons] at hplace
      cases hl : w.lock <;> simp [hl, acquire, Instr.place?] at hplace
  | queued =>
      obtain rfl := Place.mutex.inj (Option.some.inj hplace)
      exact ⟨_, _, rfl⟩
  | holding => simp [Instr.place?] at hplace

theorem Acquires.ne_start {w : Wait} {path : Path} {op : Op α} {rest : List (Instr α)} :
    ¬ w.Acquires (.start path op :: rest) := by
  intro h
  generalize hcode : (.start path op :: rest : List (Instr α)) = code at h
  cases h with
  | trying => cases hl : w.lock <;> simp [hl, acquire] at hcode
  | queued | holding => simp at hcode

end Wait

namespace Roster

open Machine

/-- Whether the threads of the waits do what the roster says of them. -/
structure Attends (c : ConditionId) (M : Machine α) (r : Roster) : Prop where
  left : r.left.Perm (r.returned ++ r.acquiring)
  nodup : (r.acquiring.map (·.thread)).Nodup
  suspends : ∀ w ∈ r.suspended, w.Suspends c (M.thread w.thread).code
  acquires : ∀ w ∈ r.acquiring, w.Acquires (M.thread w.thread).code

end Roster

/-! ### Taking a lock -/

namespace Machine

variable {M : Machine α} {t : ThreadId} {others : List ThreadId} {code : List (Instr α)}
  {m : MutexId}

theorem tick_lock_of_free (hready : M.ready = t :: others)
    (hcode : (M.thread t).code = .lock m :: code) (free : (M.mutex m).owner = none) :
    M.tick = (M.setOwner m (some t)).setCode t code := by
  refine tick_of_done hready hcode ?_
  simp only [execute, tryLock, free]

theorem tick_lock_of_owned {u : HandleId} (hready : M.ready = t :: others)
    (hcode : (M.thread t).code = .lock m :: code) (owned : (M.mutex m).owner = some u) :
    M.tick = (M.enqueue (.mutex m) t).setCode t
      (.suspend t (some (.mutex m)) :: .lock m :: code) := by
  have he : M.execute t (.lock m) =
      (M.enqueue (.mutex m) t, .goOn [.suspend t (some (.mutex m)), .lock m]) := by
    simp only [execute, tryLock, owned]
  exact tick_of_goOn hready hcode he

/-- Whoever asks for a lock gets it, or stops at it, or queues up for it. -/
theorem tick_acquire {l : Lockable} (hready : M.ready = t :: others)
    (hcode : (M.thread t).code = acquire l :: code) :
    (M.tick.ready = M.ready ∧ M.tick.holder? l = some t ∧ (M.tick.thread t).code = code) ∨
      (M.tick.thread t).code = acquire l :: code ∨
      ∃ m, (M.tick.thread t).code = .suspend t (some (.mutex m)) :: acquire l :: code := by
  cases l with
  | native m | wrapped m | minimal m =>
      cases ho : (M.mutex m).owner with
      | none =>
          rw [tick_lock_of_free hready hcode ho]
          refine .inl ⟨rfl, ?_, by rw [thread_setCode, if_pos rfl]⟩
          show ((M.setOwner m (some t)).mutex m).owner = some t
          simp [mutex_setOwner]
      | some u =>
          rw [tick_lock_of_owned hready hcode ho]
          refine .inr (.inr ⟨m, ?_⟩)
          rw [thread_setCode, if_pos rfl]
          rfl
  | raw r =>
      cases hlocked : (M.rawLock r).locked with
      | false =>
          have hexecute : M.execute t (.seize r) =
              (M.setRawLock r { M.rawLock r with locked := true, owner := some t }, .goOn []) := by
            simp [execute, trySeize, hlocked]
          rw [tick_of_done hready hcode hexecute]
          refine .inl ⟨rfl, ?_, by rw [thread_setCode, if_pos rfl]⟩
          show ((M.setRawLock r _).rawLock r).owner = some t
          rw [rawLock_setRawLock, if_pos rfl]
      | true =>
          have hthread : M.tick.thread t = M.thread t := by
            unfold tick
            simp only [hready, hcode, acquire, execute, trySeize, hlocked, if_true]
            rfl
          exact .inr (.inl (by rw [hthread, hcode]))

theorem tick_suspend_of_notified {p : Option Place} (hready : M.ready = t :: others)
    (hcode : (M.thread t).code = .suspend t p :: code) (hn : (M.handle t).notified = true) :
    M.tick = (M.setHandle t { M.handle t with notified := false }).setCode t code := by
  refine tick_of_done hready hcode ?_
  simp only [execute, hn, if_true]

theorem tick_suspend_of_unnotified {p : Option Place} (hready : M.ready = t :: others)
    (hcode : (M.thread t).code = .suspend t p :: code) (hn : (M.handle t).notified = false) :
    M.tick = { M.setHandle t { M.handle t with parked := (M.handle t).parked ++ [t] } with
      ready := others } := by
  unfold tick
  simp only [hready, hcode, execute, hn]
  simp [setHandle, hready]

end Machine

/-- A thread that is woken from its suspension leaves it. -/
theorem Roster.tick_of_notified {M : Machine α} {r : Roster} {c : ConditionId} {t : ThreadId}
    {others : List ThreadId} {code : List (Instr α)} (hready : M.ready = t :: others)
    (hcode : (M.thread t).code = .suspend t (some (.condition c)) :: code)
    (hplace : placeOf code ≠ some (.condition c)) (hn : (M.handle t).notified = true) :
    r.tick c M = r.leave t := by
  have hafter : M.tick.place? t ≠ some (.condition c) := by
    rw [Machine.tick_suspend_of_notified hready hcode hn, Machine.place?_setCode]
    exact hplace
  simp only [Roster.tick, Machine.doing?_of_code hready hcode, true_and]
  rw [if_pos hafter]

/-! ### From event to event -/

namespace Wait

open Machine

variable {S : Setting α} {M : Machine α} {t : ThreadId} {others : List ThreadId} {w : Wait}

/-- A wait that acquires its lock goes on doing so until it answers. -/
theorem Acquires.tick (hs : S.Sound M) (hready : M.ready = w.thread :: others)
    (h : w.Acquires (M.thread w.thread).code)
    (hne : ∀ path r code, (M.thread w.thread).code ≠ .report path r :: code) :
    w.Acquires (M.tick.thread w.thread).code := by
  generalize hcode : (M.thread w.thread).code = code at h
  cases h with
  | @trying path rest =>
      rcases hs.turn.of_code hready hcode with
        ⟨N, more, hstroke, htick⟩ | ⟨N, hstroke, htick⟩ | ⟨N, message, hstroke, -⟩
      · have hafter : (M.tick.thread w.thread).code = more ++ .report path .ok :: rest := by
          rw [htick, thread_setCode, if_pos rfl]
        rw [hafter]
        cases hl : w.lock with
        | native m | wrapped m | minimal m =>
            have hm : w.lock.mutex? = some m := by rw [hl]; rfl
            rw [hl] at hstroke
            cases hstroke with
            | claim => exact .holding
            | queueUp => exact .queued hm
        | raw r =>
            rw [hl] at hstroke
            cases hstroke with
            | seize => exact .holding
      · have hhalts := hstroke.halts hready hcode
        rw [htick, hhalts.thread, hcode]
        exact .trying
      · cases hl : w.lock <;> rw [hl] at hstroke <;> cases hstroke
  | @queued m path rest hm =>
      cases hn : (M.handle w.thread).notified with
      | true =>
          have hafter := tick_suspend_of_notified hready hcode hn
          rw [hafter, thread_setCode, if_pos rfl, ← acquire_of_mutex? hm]
          exact .trying
      | false =>
          have hafter : M.tick.thread w.thread = M.thread w.thread := by
            rw [tick_suspend_of_unnotified hready hcode hn]
            rfl
          rw [hafter, hcode]
          exact .queued hm
  | holding => exact absurd hcode (hne _ _ _)

/-- A wait that gets to its answer has just got its lock. -/
theorem Acquires.holder_of_tick {path : Path} {r : Result α} {rest : List (Instr α)}
    (hready : M.ready = w.thread :: others) (h : w.Acquires (M.thread w.thread).code)
    (hne : ∀ path r code, (M.thread w.thread).code ≠ .report path r :: code)
    (hafter : (M.tick.thread w.thread).code = .report path r :: rest) :
    M.tick.ready.head? = some w.thread ∧ M.tick.holder? w.lock = some w.thread := by
  generalize hcode : (M.thread w.thread).code = code at h
  cases h with
  | trying =>
      rcases tick_acquire hready hcode with ⟨hsame, hholder, -⟩ | hstays | ⟨m, hqueued⟩
      · exact ⟨by rw [hsame, hready]; rfl, hholder⟩
      · rw [hafter] at hstays
        cases hl : w.lock <;> simp [hl, acquire] at hstays
      · simp [hafter] at hqueued
  | queued =>
      cases hn : (M.handle w.thread).notified with
      | true =>
          rw [tick_suspend_of_notified hready hcode hn, thread_setCode, if_pos rfl] at hafter
          cases hafter
      | false =>
          have hsame : M.tick.thread w.thread = M.thread w.thread := by
            rw [tick_suspend_of_unnotified hready hcode hn]
            rfl
          rw [hsame, hcode] at hafter
          cases hafter
  | holding => exact absurd hcode (hne _ _ _)

end Wait

namespace Roster.Attends

open Machine

variable {S : Setting α} {c : ConditionId} {M M' : Machine α} {r : Roster} {t : ThreadId}
  {others : List ThreadId}

/-- A wait that acquires its lock is not suspended. -/
theorem thread_ne (h : r.Attends c M) {w : Wait} (hw : w ∈ r.acquiring)
    (hplace : M.place? t = some (.condition c)) : w.thread ≠ t := by
  rintro rfl
  exact (h.acquires w hw).placeOf_ne c hplace

/-- **The threads of the waits do what the roster says after every event.** -/
theorem event {update : Roster → Roster} (h : r.Attends c M) (htallies : r.Tallies c M)
    (hs : S.Sound M) (hc : M.Carries t M.tick) (hready : M.ready = t :: others)
    (he : M.Event c t M.tick update) : (update r).Attends c M.tick := by
  have suspended : ∀ w ∈ r.suspended, w.thread ≠ t →
      w.Suspends c (M.tick.thread w.thread).code := by
    intro w hw hne
    rw [hc.thread _ hne]
    exact h.suspends w hw
  have acquiring : ∀ w ∈ r.acquiring, w.thread ≠ t →
      w.Acquires (M.tick.thread w.thread).code := by
    intro w hw hne
    rw [hc.thread _ hne]
    exact h.acquires w hw
  have busy : ∀ {path op code}, (M.thread t).code = .start path op :: code →
      ∀ w ∈ r.acquiring, w.thread ≠ t := by
    rintro path op code hcode w hw rfl
    exact Wait.Acquires.ne_start (hcode ▸ h.acquires w hw)
  cases he with
  | @enter path op l code hcode hcode' hwaiters =>
      have hout : ∀ w ∈ r.suspended, w.thread ≠ t := fun w hw =>
        htallies.thread_ne (by simp [place?_of_code hcode, Instr.place?]) hw
      refine ⟨h.left, h.nodup, ?_, fun w hw => acquiring w hw (busy hcode w hw)⟩
      intro w hw
      rcases List.mem_append.1 hw with hw | hw
      · exact suspended w hw (hout w hw)
      · rw [List.mem_singleton.1 hw]
        exact ⟨path, code, hcode'⟩
  | wake n hcode _ _ _ _ hupdate =>
      have hout : ∀ w ∈ r.suspended, w.thread ≠ t := fun w hw =>
        htallies.thread_ne (by simp [place?_of_code hcode, Instr.place?]) hw
      rw [hupdate r htallies.line.symm]
      exact ⟨h.left, h.nodup, fun w hw => suspended w hw (hout w hw),
        fun w hw => acquiring w hw (busy hcode w hw)⟩
  | @leave code hcode _ hcode' _ _ =>
      have hplace : M.place? t = some (.condition c) := place?_of_code hcode
      refine ⟨?_, ?_, ?_, ?_⟩
      · have := h.left.append_right (r.suspended.filter (·.thread = t))
        rwa [List.append_assoc] at this
      · simp only [Roster.leave, List.map_append, List.nodup_append]
        refine ⟨h.nodup, htallies.nodup.sublist (List.filter_sublist.map _), ?_⟩
        intro u hu v hv huv
        obtain ⟨w, hw, rfl⟩ := List.mem_map.1 hu
        obtain ⟨w', hw', rfl⟩ := List.mem_map.1 hv
        have ht : w'.thread = t := by simpa using (List.mem_filter.1 hw').2
        exact h.thread_ne hw hplace (huv.trans ht)
      · intro w hw
        obtain ⟨hw, hne⟩ := List.mem_filter.1 hw
        exact suspended w hw (by simpa using hne)
      · intro w hw
        rcases List.mem_append.1 hw with hw | hw
        · exact acquiring w hw (h.thread_ne hw hplace)
        · obtain ⟨hmem, ht⟩ := List.mem_filter.1 hw
          obtain rfl : w.thread = t := by simpa using ht
          obtain ⟨path, rest, hbefore⟩ := h.suspends w hmem
          rw [hcode'.trans (List.cons.inj (hcode.symm.trans hbefore)).2]
          exact .trying
  | conclude hcode _ _ _ =>
      have hout : ∀ w ∈ r.suspended, w.thread ≠ t := fun w hw =>
        htallies.thread_ne (by simp [place?_of_code hcode, Instr.place?]) hw
      refine ⟨?_, ?_, fun w hw => suspended w hw (hout w hw), ?_⟩
      · have hsplit := List.filter_append_perm (fun w : Wait => w.thread = t) r.acquiring
        have := h.left.trans (hsplit.symm.append_left r.returned)
        simpa [Roster.conclude, List.append_assoc] using this
      · exact h.nodup.sublist (List.filter_sublist.map _)
      · intro w hw
        obtain ⟨hw, hne⟩ := List.mem_filter.1 hw
        exact acquiring w hw (by simpa using hne)
  | aside hne _ hstop _ =>
      refine ⟨h.left, h.nodup, ?_, ?_⟩
      · intro w hw
        by_cases hwt : w.thread = t
        · subst hwt
          rw [(hstop (htallies.place_of_mem hw)).2]
          exact h.suspends w hw
        · exact suspended w hw hwt
      · intro w hw
        by_cases hwt : w.thread = t
        · subst hwt
          exact Wait.Acquires.tick hs hready (h.acquires w hw) hne
        · exact acquiring w hw hwt

theorem congr (h : r.Attends c M)
    (hcode : ∀ u, (M'.thread u).code = (M.thread u).code) : r.Attends c M' :=
  ⟨h.left, h.nodup, fun w hw => by rw [hcode]; exact h.suspends w hw,
    fun w hw => by rw [hcode]; exact h.acquires w hw⟩

theorem origin : Attends c M {} := by
  refine ⟨?_, ?_, ?_, ?_⟩ <;> simp

end Roster.Attends

namespace Scenario

open Machine

variable {s : Scenario} {c : ConditionId} {x : Moment}

/-- **The threads of the waits do what the roster says of them at every moment.** -/
theorem Sees.attends (spares : s.sparesTokens = true) (hpublic : s.setting.IsPublicCondition c)
    (h : s.Sees c x) : x.roster.Attends c x.machine := by
  induction h with
  | refl => exact .origin
  | @tick x h _ ih =>
      have hsees : s.Sees c x := h
      cases hready : x.machine.ready with
      | nil =>
          rw [tick_of_still hready]
          exact ih
      | cons t others =>
          obtain ⟨update, he, htick⟩ := hsees.event spares hpublic hready
          rw [htick]
          exact ih.event (hsees.tallies spares hpublic) hsees.sound (hsees.carries spares hready)
            hready he
  | order _ still hstep ht idle ih => exact ih.congr (code_begin (isIdle_of_status idle))
  | refuse _ still hstep hno ih => exact ih

/-- **A wait that answers has its lock.** -/
theorem Sees.holder (spares : s.sparesTokens = true) (hpublic : s.setting.IsPublicCondition c)
    (h : s.Sees c x) {w : Wait} (hw : w ∈ x.roster.acquiring) {path : Path} {r : Result Json}
    {rest : List (Instr Json)}
    (hcode : (x.machine.thread w.thread).code = .report path r :: rest) :
    x.machine.ready.head? = some w.thread ∧ x.machine.holder? w.lock = some w.thread := by
  induction h with
  | refl => cases hw
  | @tick x h _ ih =>
      have hsees : s.Sees c x := h
      cases hready : x.machine.ready with
      | nil =>
          rw [tick_of_still hready] at hw hcode ⊢
          exact ih hw hcode
      | cons t others =>
          obtain ⟨update, he, htick⟩ := hsees.event spares hpublic hready
          have hattends := hsees.attends spares hpublic
          have hmachine : (x.tick c).machine = x.machine.tick := rfl
          rw [hmachine] at hcode ⊢
          -- Whoever is at its answer runs, so a thread that does not run has not got there.
          have absent : w ∈ x.roster.acquiring → w.thread ≠ t → False := by
            intro hacq hne
            rw [(hsees.carries spares hready).thread _ hne] at hcode
            have hhead := (ih hacq hcode).1
            rw [hready] at hhead
            exact hne (Option.some.inj hhead).symm
          have going : w ∈ x.roster.acquiring →
              (∀ path r code, (x.machine.thread t).code ≠ .report path r :: code) →
              x.machine.tick.ready.head? = some w.thread ∧
                x.machine.tick.holder? w.lock = some w.thread := by
            intro hacq hne
            by_cases hwt : w.thread = t
            · subst hwt
              exact (hattends.acquires w hacq).holder_of_tick hready hne hcode
            · exact (absent hacq hwt).elim
          rw [htick] at hw
          cases he with
          | enter hstart => exact going hw (by simp [hstart])
          | wake n hstart _ _ _ _ hupdate =>
              rw [hupdate _ (hsees.tallies spares hpublic).line.symm] at hw
              exact going hw (by simp [hstart])
          | leave hsuspend _ hleft =>
              rcases List.mem_append.1 hw with hw | hw
              · exact going hw (by simp [hsuspend])
              · obtain ⟨hmem, ht⟩ := List.mem_filter.1 hw
                obtain rfl : w.thread = t := by simpa using ht
                obtain ⟨path', rest', hbefore⟩ := hattends.suspends w hmem
                rw [hleft.trans (List.cons.inj (hsuspend.symm.trans hbefore)).2] at hcode
                cases hl : w.lock <;> simp [hl, acquire] at hcode
          | conclude =>
              obtain ⟨hacq, hne⟩ := List.mem_filter.1 hw
              exact (absent hacq (by simpa using hne)).elim
          | aside hne => exact going hw hne
  | @order x name order t _ still hstep ht idle ih =>
      have hbefore : (x.machine.thread w.thread).code = .report path r :: rest := by
        rw [← hcode]
        exact (code_begin (isIdle_of_status idle) _).symm
      have hhead := (ih hw hbefore).1
      rw [still] at hhead
      cases hhead
  | refuse _ still hstep hno ih => exact ih hw hcode

end Scenario

end BlockingSync
