/-
What comes of a wait on a condition variable.

Whether a wait is refused, is over at once, or lets go of its lock depends on who holds the
lock, and on nothing else; that is so for every lock that can tell who holds it, whichever
of the two ways the wait goes.  A wait that is refused or over at once changes nothing.

A wait that has let go of its lock goes through a few stages (`Underway`), whatever the
other tasks do in the meantime.  The only way out of the last of them is to take the lock,
and then nothing is left of the wait but its answer.
-/
import BlockingSync.Proofs.Return
import BlockingSync.Proofs.Ledger
import BlockingSync.Proofs.Passage

namespace BlockingSync

variable {α : Type}

namespace Machine

variable {M : Machine α} {t u : ThreadId} {c : ConditionId} {l : Lockable} {r : RawLockId}
  {path : Path} {code : List (Instr α)} {others : List ThreadId}

/-! ### The first half -/

theorem depart_of_unheld (free : M.holder? l = none) : M.depart c l t = (M, .unowned) := by
  cases l with
  | native m | wrapped m | minimal m => exact depart_of_free rfl free
  | raw r =>
      have howner : (M.rawLock r).owner = none := free
      simp [depart, departThrough, isHeldByOther, isOther, exclusiveRelease, releaseRaw, howner]

/-- A lock that can tell refuses the wait of a task that does not hold it. -/
theorem depart_of_held_by_other (hknows : ∀ m, l ≠ .minimal m) (hu : M.holder? l = some u)
    (hut : u ≠ t) : M.depart c l t = (M, .notOwner) := by
  cases l with
  | native m | wrapped m => exact depart_of_other rfl hu hut (hknows m)
  | minimal m => exact absurd rfl (hknows m)
  | raw r =>
      have howner : (M.rawLock r).owner = some u := hu
      simp [depart, departThrough, isHeldByOther, isOther, howner, hut]

/-- What the first half of a wait does for the task that holds the lock. -/
structure Departs (c : ConditionId) (l : Lockable) (t : ThreadId) (M N : Machine α) : Prop where
  /-- The task is put at the end of the list, once. -/
  waiters : (N.waiters (.condition c)).toList = (M.waiters (.condition c)).toList ++ [t]
  free : N.holder? l = none ∧ N.isLocked l = false
  /-- The earliest waiter of a mutex that can be resumed is resumed. -/
  wakes : ∀ m, l.mutex? = some m →
    Awakens (.mutex m) ((M.setOwner m none).enqueue (.condition c) t) N
  /-- A raw lock is given back, once the task is on the list. -/
  givesBack : ∀ r, l = .raw r → N = M.leaveRaw c r t

theorem isLocked_of_mutex? {m : MutexId} (hl : l.mutex? = some m) :
    M.isLocked l = (M.mutex m).owner.isSome := by
  cases l <;> cases hl <;> rfl

theorem waiters_unlockRaw (N : Machine α) (r : RawLockId) (p : Place) :
    (N.unlockRaw r).waiters p = N.waiters p := by
  unfold unlockRaw
  simp only
  split <;> cases p <;> rfl

theorem departs_leave {m : MutexId} (hl : l.mutex? = some m) :
    Departs c l t M (M.leave c m t) where
  waiters := by
    rw [leave, (wakeOne_awakens _ _).elsewhere _ (by simp), enqueue, waiters_setWaiters_self,
      waiters_setOwner, WaitList.toList_push]
  free := by
    rw [holder?_of_mutex? hl, isLocked_of_mutex? hl, owner_leave]
    exact ⟨rfl, rfl⟩
  wakes m' hl' := by
    obtain rfl := Option.some.inj (hl.symm.trans hl')
    exact wakeOne_awakens _ _
  givesBack r hr := by
    subst hr
    cases hl

theorem departs_leaveRaw (own : (M.rawLock r).owner = some t) :
    Departs c (.raw r) t M (M.leaveRaw c r t) where
  waiters := by
    rw [leaveRaw, waiters_unlockRaw]
    show ((M.enqueue (.condition c) t).waiters (.condition c)).toList = _
    rw [enqueue, waiters_setWaiters_self, WaitList.toList_push]
  free := by
    cases leaveRaw_deals own c with
    | gives _ free => exact ⟨by rw [holder?, free], by rw [isLocked, free]⟩
  wakes m hl := by cases hl
  givesBack r' hr := by
    cases hr
    rfl

theorem depart_of_held (hmine : M.holder? l = some t) :
    ∃ N, M.depart c l t = (N, .departed) ∧ Departs c l t M N := by
  cases hm : l.mutex? with
  | some m =>
      rw [holder?_of_mutex? hm] at hmine
      exact ⟨_, depart_of_owned hm hmine, departs_leave hm⟩
  | none =>
      cases l with
      | native m | wrapped m | minimal m => cases hm
      | raw r => exact ⟨_, depart_raw_of_owned hmine, departs_leaveRaw hmine⟩

/-- How a wait goes on behind its first half. -/
def nextOfWait (t : ThreadId) (path : Path) (c : ConditionId) (l : Lockable) :
    Departure → Next α
  | .departed => .goOn [.suspend t (some (.condition c)), acquire l, .report path .ok]
  | .unowned => .yield path .ok
  | .notOwner => .yield path (.failed .ownership)

/-- The tick in which a wait begins. -/
theorem execute_wait {name lock : String} {o : Object} {N : Machine α} {d : Departure}
    (hc : M.object? name = some (.condition c)) (ho : M.object? lock = some o)
    (hl : lockable? o = some l) (hd : M.depart c l t = (N, d)) :
    M.execute t (.start path (.onObject name (.wait lock))) = (N, nextOfWait t path c l d) := by
  simp only [execute, perform, hc, performObject, performCondition, performWait, ho, hl, hd]
  cases d <;> rfl

/-! ### The second half -/

/-- The stages of a wait that has let go of its lock, by what the thread still has to do. -/
inductive Underway (c : ConditionId) (l : Lockable) (t : ThreadId) (path : Path)
    (rest : List (Instr α)) : List (Instr α) → Prop
  | suspended : Underway c l t path rest
      (.suspend t (some (.condition c)) :: acquire l :: .report path .ok :: rest)
  /-- It is about to take the lock, or parked at a raw one. -/
  | trying : Underway c l t path rest (acquire l :: .report path .ok :: rest)
  /-- It waits for the mutex. -/
  | queued {m} : Underway c l t path rest
      (.suspend t (some (.mutex m)) :: acquire l :: .report path .ok :: rest)

/-- Whether a thread is at the end of a wait, with the lock. -/
structure Concludes (l : Lockable) (t : ThreadId) (path : Path) (rest : List (Instr α))
    (M : Machine α) : Prop where
  runs : M.ready.head? = some t
  code : (M.thread t).code = .report path .ok :: rest
  holder : M.holder? l = some t

theorem Underway.ne_nil (h : Underway c l t path code []) : False := by
  cases h

theorem tick_suspend (hready : M.ready = t :: others) {p : Option Place} {i : Instr α}
    (hcode : (M.thread t).code = .suspend t p :: i :: code) :
    (M.tick.thread t).code = i :: code ∨ (M.tick.thread t).code = .suspend t p :: i :: code := by
  cases hn : (M.handle t).notified with
  | true =>
      left
      rw [tick_suspend_of_notified hready hcode hn, thread_setCode, if_pos rfl]
  | false =>
      right
      have hsame : M.tick.thread t = M.thread t := by
        rw [tick_suspend_of_unnotified hready hcode hn]
        rfl
      rw [hsame, hcode]

/-- A wait that is underway stays so until it has the lock. -/
theorem Underway.tick (hready : M.ready = t :: others)
    (h : Underway c l t path code (M.thread t).code) :
    Underway c l t path code (M.tick.thread t).code ∨ Concludes l t path code M.tick := by
  generalize hcode : (M.thread t).code = before at h
  cases h with
  | suspended =>
      left
      rcases tick_suspend hready hcode with h | h <;> rw [h]
      · exact .trying
      · exact .suspended
  | queued =>
      left
      rcases tick_suspend hready hcode with h | h <;> rw [h]
      · exact .trying
      · exact .queued
  | trying =>
      rcases tick_acquire hready hcode with ⟨hsame, hholder, hafter⟩ | hstays | ⟨m, hqueued⟩
      · exact .inr ⟨by rw [hsame, hready]; rfl, hafter, hholder⟩
      · left
        rw [hstays]
        exact .trying
      · left
        rw [hqueued]
        exact .queued

end Machine

namespace Scenario

open Machine

variable {s : Scenario} {k : Nat} {past : List (Entry Json)} {M : Machine Json} {a b : Account}
  {t : ThreadId} {c : ConditionId} {l : Lockable} {path : Path} {code : List (Instr Json)}

/-- A wait is underway until it ends with the lock. -/
theorem Continues.underway (h : s.Continues a b) (ha : ∃ past, s.Reaches a.steps past a.machine)
    (hw : Underway c l t path code (a.machine.thread t).code) :
    Underway c l t path code (b.machine.thread t).code ∨
      ∃ x, s.Continues a x ∧ s.Continues x b ∧ Concludes l t path code x.machine := by
  induction h with
  | refl => exact .inl hw
  | @tick b hab ih =>
      rcases ih with hb | ⟨x, hax, hxb, hx⟩
      · obtain ⟨past, hreaches⟩ := hab.reaches ha
        by_cases hrun : b.machine.ready.head? = some t
        · obtain ⟨others, hready⟩ := List.head?_eq_some_iff.1 hrun
          rcases hb.tick hready with h | h
          · exact .inl h
          · exact .inr ⟨b.tick, hab.tick, .refl, h⟩
        · left
          have hsame : b.machine.tick.thread t = b.machine.thread t :=
            hreaches.sound.turn.thread_ne hreaches.sound hrun
          exact (congrArg (fun th => Underway c l t path code th.code) hsame).mpr hb
      · exact .inr ⟨x, hax, hxb.tick, hx⟩
  | @order b name order u hab still hstep hu idle ih =>
      rcases ih with hb | ⟨x, hax, hxb, hx⟩
      · left
        have hsame : ((b.machine.begin u b.steps order.ops?).thread t).code =
            (b.machine.thread t).code := code_begin (isIdle_of_status idle) t
        exact (congrArg (Underway c l t path code) hsame).mpr hb
      · exact .inr ⟨x, hax, hxb.order still hstep hu idle, hx⟩
  | refuse hab still hstep hno ih =>
      rcases ih with hb | ⟨x, hax, hxb, hx⟩
      · exact .inl hb
      · exact .inr ⟨x, hax, hxb.refuse still hstep hno, hx⟩

/-- **What comes of a wait.**  Its lock is a mutex, one that hides the mutex inside it, or an
adapter.  If another task holds the lock the wait is refused, and if nobody does it is over at
once; neither changes anything.  If the caller holds it, it is put on the list and the lock is
released before it can park, and from then on the wait is underway until the caller runs at its end
with the answer `ok` and the lock. -/
theorem wait_outcome (h : s.Reaches k past M) {others : List ThreadId} {name lock : String}
    {o : Object} (hready : M.ready = t :: others)
    (hcode : (M.thread t).code = .start path (.onObject name (.wait lock)) :: code)
    (hc : M.object? name = some (.condition c)) (ho : M.object? lock = some o)
    (hl : lockable? o = some l) (hknows : ∀ m, l ≠ .minimal m) :
    M.isLocked l = (M.holder? l).isSome ∧
    (∀ u, M.holder? l = some u → u ≠ t →
      M.tick = M.setCode t (.report path (.failed .ownership) :: code)) ∧
    (M.holder? l = none → M.tick = M.setCode t (.report path .ok :: code)) ∧
    (M.holder? l = some t →
      (∃ N, Departs c l t M N ∧ M.tick = N.setCode t
        (.suspend t (some (.condition c)) :: acquire l :: .report path .ok :: code)) ∧
      ∀ x, s.Continues { steps := k, machine := M.tick } x →
        Underway c l t path code (x.machine.thread t).code ∨
          ∃ y, s.Continues { steps := k, machine := M.tick } y ∧ s.Continues y x ∧
            Concludes l t path code y.machine ∧ y.machine.isLocked l = true) := by
  refine ⟨(honoursRelease h.matched l t).locked, fun u hu hut => ?_, fun free => ?_,
    fun hmine => ?_⟩
  · exact tick_of_goOn hready hcode
      (execute_wait hc ho hl (depart_of_held_by_other hknows hu hut))
  · exact tick_of_goOn hready hcode (execute_wait hc ho hl (depart_of_unheld free))
  · obtain ⟨N, hd, hdeparts⟩ := depart_of_held (c := c) hmine
    have htick : M.tick = N.setCode t
        (.suspend t (some (.condition c)) :: acquire l :: .report path .ok :: code) :=
      tick_of_goOn hready hcode (execute_wait hc ho hl hd)
    have hfirst : Underway c l t path code (M.tick.thread t).code := by
      rw [htick, thread_setCode, if_pos rfl]
      exact .suspended
    refine ⟨⟨N, hdeparts, htick⟩, fun x hx => ?_⟩
    rcases hx.underway ⟨past, h.tick⟩ hfirst with hw | ⟨y, hy, hyx, hend⟩
    · exact .inl hw
    · obtain ⟨past', hreaches⟩ := hy.reaches ⟨past, h.tick⟩
      have hlocked := (honoursRelease hreaches.matched l t).locked
      rw [hend.holder] at hlocked
      exact .inr ⟨y, hy, hyx, hend, hlocked⟩

/-- A task waits with an adapter.  Another one acquires the adapter, resumes the first though
nobody has signalled, and releases it. -/
def misled : Scenario where
  tasks := ["a", "b"]
  objects := [("r", .adapter), ("c", .condition {})]
  steps := [("a", .run [.onObject "r" .acquire, .onObject "c" (.wait "r")]),
    ("b", .run [.onObject "r" .acquire, .onTask "a" .resume, .onObject "r" .release])]

/-- The moment at which the first task begins to wait. -/
def misledWait : Machine Json :=
  ticks 5 (misled.start.1.begin 0 0
    (some [.onObject "r" .acquire, .onObject "c" (.wait "r")]))

/-- The end of that run, told from that moment on. -/
def misledEnd : Account :=
  ((({ steps := 1, machine := misledWait.tick } : Account).ticks 1).order 1
    (some [.onObject "r" .acquire, .onTask "a" .resume, .onObject "r" .release])).ticks 17

theorem wait_outcome_misled : ∃ past, misled.Reaches 1 past misledWait ∧
    (∃ N, Departs 0 (.raw 0) 0 misledWait N) ∧
    misled.Continues { steps := 1, machine := misledWait.tick } misledEnd ∧
    (misledEnd.machine.thread 0).code = [] ∧
    ∃ y, misled.Continues y misledEnd ∧ Concludes (.raw 0) 0 [1] [] y.machine := by
  have first := (Reaches.start (s := misled)).order (t := 0) (by decide) rfl (by decide) (by rfl)
  have h : misled.Reaches 1 _ misledWait := first.ticks 5
  have alone := (Continues.refl (s := misled)
    (a := { steps := 1, machine := misledWait.tick })).ticks 1
  have second := alone.order (t := 1) (by decide) rfl (by decide) (by rfl)
  have hlater : misled.Continues { steps := 1, machine := misledWait.tick } misledEnd :=
    second.ticks 17
  have hready : misledWait.ready = [0] := by decide
  have hcode : (misledWait.thread 0).code = [.start [1] (.onObject "c" (.wait "r"))] := rfl
  obtain ⟨-, -, -, hheld⟩ := wait_outcome (c := 0) (l := .raw 0) (o := .adapter 0) h hready hcode
    rfl rfl rfl (by simp)
  obtain ⟨⟨N, hdeparts, -⟩, hreturn⟩ := hheld (by decide)
  have hover : (misledEnd.machine.thread 0).code = [] := rfl
  refine ⟨_, h, ⟨N, hdeparts⟩, hlater, hover, ?_⟩
  rcases hreturn misledEnd hlater with hw | ⟨y, -, hy, hend, -⟩
  · rw [hover] at hw
    exact hw.ne_nil.elim
  · exact ⟨y, hy, hend⟩

end Scenario

end BlockingSync
