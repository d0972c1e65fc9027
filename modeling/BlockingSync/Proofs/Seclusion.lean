/-
The mutex of a queue is never held across a park.

Nobody outside a stroke holds it and nobody ever waits for it (`Guarded`), so whoever
wants it gets it at once, and whoever gives it up in order to wait owns it.  A thread can
then stop in an operation on a queue only at the suspension behind that wait, and what
remains is when it stops there.

The first time it is right behind the wait, at a moment when the queue was full or empty.
After that the thread has been unparked, and whoever unparks a thread leaves it a
notification.  It stops again only if that is gone, and only another thread that was told
to suspend on its handle can have taken it (`Robbed`).  The queue may have space then
(`parked_with_space`).
-/
import BlockingSync.Proofs.Ledger
import BlockingSync.Proofs.Passage
import BlockingSync.Proofs.Supply

namespace BlockingSync

variable {α : Type}

namespace Setting

open Machine

variable {S : Setting α} {M M' : Machine α} {t u : ThreadId} {q : QueueId} {path : Path}
  {tr : Transaction α} {code more : List (Instr α)} {others : List ThreadId} {side : Side}

/-! ### The mutex -/

/-- Nobody holds the mutex of a queue when a thread stops. -/
theorem Sound.owner_of_halts (h : S.Sound M) (hq : q < S.queues) (hhalts : M.Halts t M') :
    (M'.mutex (S.mutex q)).owner = none := by
  rw [hhalts.mutex, h.guarded.owner q hq, holder_of_ready hhalts.ready]
  rcases hhalts.stopped with hidle | ⟨stop, hstop⟩
  · rw [hidle.1]
    rfl
  · exact holding_of_stop hstop

theorem Sound.owner_of_transact (h : S.Sound M) (hq : q < S.queues)
    (hready : M.ready = t :: others) (hcode : (M.thread t).code = .transact q path tr :: code) :
    (M.mutex (S.mutex q)).owner = some t := by
  rw [h.guarded.owner q hq, holder_of_ready hready, hcode]
  simp [IsInside]

/-- A wait by the owner of the mutex releases it. -/
theorem departNative_of_owned {m : MutexId} (h : (M.mutex m).owner = some t) (c : ConditionId) :
    (M.departNative c m t).2 = .departed := by
  simp only [departNative, h, if_true]

/-! ### Operations that do not wait -/

/-- **An operation whose transaction never waits is done at one stroke.** -/
theorem Sound.runs_through (h : S.Sound M) (hq : q < S.queues) {name : String} {verb : Verb α}
    (hready : M.ready = t :: others)
    (hcode : (M.thread t).code = .start path (.onObject name verb) :: code)
    (hname : M.object? name = some (.queue q)) (hverb : transaction? verb = some tr)
    (hside : tr.side? = none) :
    ∃ n ≤ 5, (∀ j ≤ n, (ticks j M).ready.head? = some t) ∧ ((ticks n M).thread t).code = code ∧
      ∃ r, (ticks n M).log.getLast? = some (.finished t (M.thread t).step path r) := by
  have hhead : M.ready.head? = some t := by rw [hready]; rfl
  rcases perform_of_transaction hname hverb with he | ⟨-, -, -, he⟩
  · have hfirst := tick_of_goOn hready hcode he
    have hsolo : Solo t M M.tick := by
      rw [hfirst]
      exact Solo.refl.setCode _
    have hcode' : (M.tick.thread t).code =
        .lock (S.mutex q) :: .transact q path tr :: code := by
      rw [hfirst, thread_setCode, if_pos rfl, h.fits.mutex q hq]
      rfl
    have hready' : M.tick.ready = t :: others := hsolo.ready.trans hready
    obtain ⟨hsolo', hcode''⟩ := h.tick.solo_lock hq hready' hcode'
    obtain ⟨N, r, hN⟩ :=
      h.tick.tick.transact_answers (hsolo'.ready.trans hready') hcode'' hside
    have hpasses := h.tick.passes hq hready' hcode' hN
    refine ⟨5, Nat.le_refl _, fun j hj => ?_, hpasses.code, r, ?_⟩
    · cases j with
      | zero => exact hhead
      | succ j => exact hpasses.runs j (by omega)
    · rw [← hsolo.step]
      exact (congrArg List.getLast? hpasses.log).trans (by simp)
  · have hfirst := tick_of_goOn hready hcode he
    have hready' : M.tick.ready = t :: others := by rw [hfirst]; exact hready
    have hcode' : (M.tick.thread t).code = .report path (.failed zeroCapacity) :: code := by
      rw [hfirst, thread_setCode, if_pos rfl]
      rfl
    have hstep : (M.tick.thread t).step = (M.thread t).step := by
      rw [hfirst, thread_setCode, if_pos rfl]
    have hsecond : ticks 2 M = _ := tick_report hready' hcode'
    refine ⟨2, by omega, fun j hj => ?_, ?_, .failed zeroCapacity, ?_⟩
    · match j, hj with
      | 0, _ => exact hhead
      | 1, _ => exact congrArg List.head? hready'
      | 2, _ =>
          rw [hsecond]
          exact congrArg List.head? hready'
    · rw [hsecond, thread_setCode, if_pos rfl]
    · rw [hsecond, ← hstep]
      exact List.getLast?_concat ..

/-! ### Where a thread stops -/

/-- A thread that goes on, and waits for a side of a queue, has just found that it must. -/
theorem Stroke.mustWait (hq : q < S.queues) {i : Instr α}
    (hshape : S.Shape (M.thread t).step t (i :: code)) (h : S.Stroke M t i M' (.goOn more))
    (hplace : placeOf (more ++ code) = some (.condition (S.condition q side))) :
    MustWait (M'.queue q) side := by
  have hbehind : placeOf code = none := hshape.placeOf_behind
  cases h with
  | start h =>
      have foreign : ∀ {c : ConditionId}, S.IsPublicCondition c →
          some (Place.condition c) ≠ some (.condition (S.condition q side)) := by
        intro c hc heq
        exact hc q hq side (by simpa using heq.symm)
      cases h with
      | calm _ ho => cases ho <;> cases hplace
      | forget | resumes => cases hplace
      | release _ _ _ hn =>
          rcases hn with ⟨r, hn⟩ | ⟨message, hn⟩
          · obtain rfl := Next.goOn.inj hn
            cases hplace
          · cases hn
      | wait hc | waitRaw hc => exact absurd hplace (foreign hc)
  | @wait q' path tr side' hside hwait ho =>
      have hc : S.condition q' side' = S.condition q side := by simpa [Instr.place?] using hplace
      obtain ⟨rfl, rfl⟩ := S.apart.condition_inj _ hshape.of_transact.1.lt q hq _ _ hc
      have hleave := leave_changes M (S.condition q' side') (S.mutex q') t
      rwa [hleave.queue_eq (by rintro e (rfl | rfl | rfl) <;> simp)]
  | queueUp | closeGuard | transact => cases hplace
  | claim | unlock | unlockFree | seize | pass | report =>
      rw [List.nil_append, hbehind] at hplace
      cases hplace

/-- A thread that waits for a side of a queue after a tick has waited there before, or has just
found that it must. -/
theorem Sound.place?_of_tick (h : S.Sound M) (hq : q < S.queues)
    (hplace : M.tick.place? u = some (.condition (S.condition q side))) :
    (M.place? u = some (.condition (S.condition q side)) ∧
      (M.ready.head? ≠ some u ∨ M.ready = u :: M.tick.ready)) ∨
      (M.tick.ready.head? = some u ∧ MustWait (M.tick.queue q) side) := by
  have hturn := h.turn
  by_cases hrun : M.ready.head? = some u
  swap
  · exact .inl ⟨by rwa [place?, hturn.thread_ne h hrun] at hplace, .inl hrun⟩
  obtain ⟨others, hready⟩ := List.head?_eq_some_iff.1 hrun
  generalize M.tick = M' at hplace hturn ⊢
  have same : ∀ {t' others'}, M.ready = t' :: others' → t' = u := fun hr =>
    (List.cons.inj (hr.symm.trans hready)).1
  cases hturn with
  | still hr => simp [hready] at hr
  | finish hr hidle =>
      obtain rfl := same hr
      exact .inl ⟨hplace, .inr hr⟩
  | next hr =>
      obtain rfl := same hr
      rw [place?, thread_setThread, if_pos rfl] at hplace
      cases hplace
  | @goOn t others i code N more hr hcode hstroke =>
      obtain rfl := same hr
      have hshape : S.Shape (M.thread t).step t (i :: code) := hcode ▸ (h.shaped t).code
      obtain ⟨behind, hbehind⟩ := hstroke.ready_behind h.fits hshape hr
      rw [place?, thread_setCode, if_pos rfl] at hplace
      have hmust : MustWait (N.queue q) side := hstroke.mustWait hq hshape hplace
      exact .inr ⟨congrArg List.head? hbehind, hmust⟩
  | park hr hcode hstroke =>
      obtain rfl := same hr
      have hhalts := hstroke.halts hr hcode
      rw [place?, hhalts.thread] at hplace
      exact .inl ⟨hplace, .inr hhalts.ready⟩
  | @unwind t others i code N message hr hcode hstroke =>
      obtain rfl := same hr
      have hshape : S.Shape (M.thread t).step t (i :: code) := hcode ▸ (h.shaped t).code
      rw [place?, thread_setCode, if_pos rfl,
        placeOf_cleanup (hstroke.trails_of_unwind hshape)] at hplace
      cases hplace

end Setting

/-! ### Notifications -/

namespace Machine

variable {M : Machine α} {u : ThreadId}

theorem get_rouseAll_of_not_mem {hs : List HandleId} {h : HandleId} (hh : h ∉ hs)
    (handles : Table Handle) : (rouseAll handles hs).get h = handles.get h := by
  induction hs generalizing handles with
  | nil => rfl
  | cons v hs ih =>
      rw [List.mem_cons, not_or] at hh
      obtain ⟨hv, hrest⟩ := hh
      show (rouseAll (rouse handles v) hs).get h = _
      rw [ih hrest, rouse, Table.get_set, if_neg (Ne.symm hv)]

/-- A thread that stands where it parked, and is ready after a tick, has a notification, unless it
was ready without one before, or the tick takes the notification. -/
theorem notified_of_tick (ho : M.Orderly) (ho' : M.tick.Orderly)
    (hstop : M.stop? u = some (.handle u)) (hready : u ∈ M.tick.ready) :
    (M.tick.handle u).notified = true ∨ (u ∈ M.ready ∧ (M.handle u).notified = false) ∨
      M.returned = [u] := by
  -- Where the tick leaves the handle as it was, the thread was ready before.
  have untouched : (M.tick.handle u).notified = (M.handle u).notified →
      (u ∈ (M.handle u).parked → u ∈ (M.tick.handle u).parked) →
      (M.tick.handle u).notified = true ∨ (u ∈ M.ready ∧ (M.handle u).notified = false) ∨
        M.returned = [u] := by
    intro hsame hparked
    by_cases hbefore : u ∈ M.ready
    · cases hn : (M.handle u).notified with
      | true => exact .inl (hsame.trans hn)
      | false => exact .inr (.inl ⟨hbefore, rfl⟩)
    · exfalso
      rcases ho.of_not_ready u hbefore with hidle | ⟨stop, hat, hmem⟩
      · simp [stop?, hidle.1] at hstop
      · obtain rfl := Option.some.inj (hstop.symm.trans hat)
        exact (ho'.of_parked (.handle u) u (hparked hmem)).1 hready
  have htells := M.tick_tells
  generalize hhandles : M.tick.handles = handles at htells
  have hhandle : M.tick.handle u = handles.get u := by rw [handle, hhandles]
  have same : handles.get u = M.handle u → (M.tick.handle u).notified = true ∨
      (u ∈ M.ready ∧ (M.handle u).notified = false) ∨ M.returned = [u] := by
    intro hsame
    rw [hsame] at hhandle
    exact untouched (by rw [hhandle]) (by rw [hhandle]; exact id)
  cases htells with
  | resumes =>
      by_cases hmem : u ∈ M.resumed
      · left
        rw [hhandle, notified_rouseAll, Bool.or_eq_true]
        exact .inr (List.contains_iff_mem.2 hmem)
      · exact same (get_rouseAll_of_not_mem hmem _)
  | @returns h hn hret =>
      by_cases hu : h = u
      · subst h
        exact .inr (.inr hret)
      · exact same (by rw [Table.get_set, if_neg hu]; rfl)
  | @parks h =>
      by_cases hu : h = u
      · subst h
        rw [Table.get_set, if_pos rfl] at hhandle
        refine untouched (by rw [hhandle]) fun hmem => ?_
        rw [hhandle]
        exact List.mem_append_left _ hmem
      · exact same (by rw [Table.get_set, if_neg hu]; rfl)
  | @terminates h =>
      by_cases hu : h = u
      · subst h
        rw [Table.get_set, if_pos rfl] at hhandle
        exact untouched (by rw [hhandle]) (by rw [hhandle]; exact id)
      · exact same (by rw [Table.get_set, if_neg hu]; rfl)

end Machine

/-- A notification that another thread takes is taken where that thread was told to suspend. -/
theorem Setting.Sound.doing?_of_returned {S : Setting α} {M : Machine α} {u : ThreadId}
    (h : S.Sound M) (hret : M.returned = [u]) (hbehind : M.ready.head? ≠ some u) :
    (∃ t, t ≠ u ∧ M.doing? = some (t, .suspend u none)) ∧ (M.handle u).notified = true := by
  unfold Machine.returned at hret
  split at hret
  · rename_i t v w hdoing
    obtain ⟨others, code, hready, hcode⟩ := Machine.doing?_eq_some.1 hdoing
    split at hret
    · rename_i hn
      obtain rfl := (List.cons.inj hret).1
      have hne : t ≠ v := by
        rintro rfl
        exact hbehind (by rw [hready]; rfl)
      cases w with
      | none => exact ⟨⟨t, hne, hdoing⟩, hn⟩
      | some p => exact absurd (hcode ▸ (h.shaped t).code).handle_of_suspend.symm hne
    · cases hret
  · cases hret

/-! ### Throughout a scenario -/

namespace Scenario

open Machine Setting

/-- The states that a scenario comes to after a tick at a certain moment, as long as a task has not
run since. -/
inductive Since (s : Scenario) (u : ThreadId)
    (moment : Nat → List (Entry Json) → Machine Json → Prop) :
    Nat → List (Entry Json) → Machine Json → Prop
  | here {k past M} (h : moment k past M) : Since s u moment k past M.tick
  | tick {k past M} (h : Since s u moment k past M) (behind : M.ready.head? ≠ some u) :
      Since s u moment k past M.tick
  | order {k past M name order t} (h : Since s u moment k past M) (still : M.ready = [])
      (hstep : s.steps[k]? = some (name, order)) (ht : M.thread? name = some t)
      (idle : M.status t = .idle) :
      Since s u moment (k + 1) (past ++ M.log) (M.begin t k order.ops?)
  | refuse {k past M name order} (h : Since s u moment k past M) (still : M.ready = [])
      (hstep : s.steps[k]? = some (name, order))
      (hno : ∀ t, M.thread? name = some t → M.status t ≠ .idle) :
      Since s u moment (k + 1) past M

/-- The moments at which a task parks, for want of a notification, with this left to do. -/
structure Parks (s : Scenario) (u : ThreadId) (code : List (Instr Json)) (k : Nat)
    (past : List (Entry Json)) (M : Machine Json) : Prop where
  reaches : s.Reaches k past M
  stop : M.ready = u :: M.tick.ready
  left : (M.thread u).code = code
  unnotified : (M.handle u).notified = false

/-- The states in which a task has parked with this left to do, and has not run since. -/
def Rests (s : Scenario) (u : ThreadId) (code : List (Instr Json)) :
    Nat → List (Entry Json) → Machine Json → Prop :=
  s.Since u (s.Parks u code)

/-- The moments at which a task rests, there is a notification for it, and the suspension of another
thread on its handle takes that and returns. -/
structure Snatches (s : Scenario) (u : ThreadId) (code : List (Instr Json)) (k : Nat)
    (past : List (Entry Json)) (M : Machine Json) : Prop where
  rests : s.Rests u code k past M
  taker : ∃ t, t ≠ u ∧ M.doing? = some (t, .suspend u none)
  notified : (M.handle u).notified = true

/-- The states in which a notification was taken away from a task that rests, which has not run
since. -/
def Robbed (s : Scenario) (u : ThreadId) (code : List (Instr Json)) :
    Nat → List (Entry Json) → Machine Json → Prop :=
  s.Since u (s.Snatches u code)

variable {s : Scenario} {k : Nat} {past : List (Entry Json)} {M : Machine Json} {q : QueueId}
  {u : ThreadId} {side : Side}

/-- An order is for somebody who does not wait; the others have left to do what they had, and do
not become ready. -/
theorem begin_of_place? {t : ThreadId} {ops? : Option (List (Op Json))} {p : Place}
    (still : M.ready = []) (hplace : (M.begin t k ops?).place? u = some p) :
    ((M.begin t k ops?).thread u).code = (M.thread u).code ∧ u ∉ (M.begin t k ops?).ready := by
  cases ops? with
  | none =>
      refine ⟨?_, ?_⟩
      · show ((M.exit t).thread u).code = _
        rw [thread_exit]
        split
        · subst u; rfl
        · rfl
      · show u ∉ M.ready
        simp [still]
  | some ops =>
      have hthread : (M.begin t k (some ops)).thread u = if t = u then
          { M.thread t with code := [], pending := ops.zipIdx.map Prod.swap, step := k }
          else M.thread u := thread_give (M := { M with log := [] }) t u k ops
      have hne : t ≠ u := by
        rintro rfl
        rw [place?, hthread, if_pos rfl] at hplace
        cases hplace
      refine ⟨by rw [hthread, if_neg hne], ?_⟩
      show u ∉ M.ready ++ [t]
      simpa [still] using Ne.symm hne

/-- A task that waits for a side of a queue has parked there, and if it is ready again there is a
notification for it, or that was taken away; or it runs and has just found that it must wait. -/
theorem Reaches.rests_or_mustWait (h : s.Reaches k past M) (hq : q < s.start.1.queues.size)
    (hplace : M.place? u = some (.condition (s.setting.condition q side))) :
    (s.Rests u (M.thread u).code k past M ∧ (u ∈ M.ready →
        (M.handle u).notified = true ∨ s.Robbed u (M.thread u).code k past M)) ∨
      (M.ready.head? = some u ∧ MustWait (M.queue q) side) := by
  induction h with
  | start =>
      rw [place?, (s.start_new.fresh.idle u).1] at hplace
      cases hplace
  | @tick k past M h ih =>
      have hsound := h.sound
      rcases hsound.place?_of_tick hq hplace with ⟨hbefore, hbehind | hstop⟩ | hfresh
      · left
        obtain ⟨hrests, hdue⟩ := (ih hbefore).resolve_right fun hrun => hbehind hrun.1
        obtain ⟨v, code, hcode⟩ := code_of_place? hbefore
        obtain rfl := (hcode ▸ (hsound.shaped u).code).handle_of_suspend
        rw [hsound.turn.thread_ne hsound hbehind]
        refine ⟨hrests.tick hbehind, fun hready => ?_⟩
        rcases notified_of_tick hsound.orderly hsound.tick.orderly (stop?_of_code hcode) hready with
          hn | ⟨hmem, hn⟩ | hret
        · exact .inl hn
        · refine .inr (((hdue hmem).resolve_left ?_).tick hbehind)
          simp [hn]
        · obtain ⟨htaker, hn⟩ := hsound.doing?_of_returned hret hbehind
          exact .inr (.here ⟨hrests, htaker, hn⟩)
      · left
        have hhalts := hsound.turn.halts hsound hstop
        obtain ⟨v, code, hcode⟩ := code_of_place? hbefore
        obtain rfl := (hcode ▸ (hsound.shaped u).code).handle_of_suspend
        rw [hhalts.thread]
        refine ⟨.here ⟨h, hstop, rfl, hhalts.unnotified _ _ _ hcode⟩, fun hready => ?_⟩
        exact absurd hready (List.nodup_cons.1 (hstop ▸ hsound.orderly.ready_nodup)).1
      · exact .inr hfresh
  | order h still hstep ht idle ih =>
      obtain ⟨hcode, hasleep⟩ := begin_of_place? still hplace
      rw [place?, hcode] at hplace
      rw [hcode]
      rcases ih hplace with ⟨hrests, -⟩ | ⟨hrun, -⟩
      · exact .inl ⟨.order hrests still hstep ht idle, fun hready => absurd hready hasleep⟩
      · simp [still] at hrun
  | refuse h still hstep hno ih =>
      rcases ih hplace with ⟨hrests, -⟩ | ⟨hrun, -⟩
      · exact .inl ⟨.refuse hrests still hstep hno, fun hready => by simp [still] at hready⟩
      · simp [still] at hrun

/-- **The mutex of a queue is never held across a park, and nobody ever waits for it.**

So whoever wants it gets it at once, and a transaction that cannot go on always releases it.  An
operation whose transaction never waits is done at one stroke.  A thread stops in an operation on a
queue only where it adds while the queue is full or takes while it is empty, or where it has parked
in that wait before and another thread has taken the notification for it. -/
theorem mutex_never_contended (h : s.Reaches k past M) (hq : q < s.start.1.queues.size) :
    (s.Pauses k past M → (M.mutex (M.queue q).mutex).owner = none ∧
        (M.mutex (M.queue q).mutex).waiting.toList = []) ∧
      (∀ t others code, M.ready = t :: others →
        (M.thread t).code = .lock (M.queue q).mutex :: code →
          M.tick = (M.setOwner (M.queue q).mutex (some t)).setCode t code) ∧
      (∀ t others path tr code, M.ready = t :: others →
        (M.thread t).code = .transact q path tr :: code →
          (M.mutex (M.queue q).mutex).owner = some t ∧
            ∀ c, (M.departNative c (M.queue q).mutex t).2 = .departed) ∧
      (∀ t others path name verb tr code, M.ready = t :: others →
        (M.thread t).code = .start path (.onObject name verb) :: code →
        M.object? name = some (.queue q) → transaction? verb = some tr → tr.side? = none →
          ∃ n ≤ 5, (∀ j ≤ n, (ticks j M).ready.head? = some t) ∧
            ((ticks n M).thread t).code = code ∧
            ∃ r, (ticks n M).log.getLast? = some (.finished t (M.thread t).step path r)) ∧
      ∀ t path tr, M.ready = t :: M.tick.ready → .transact q path tr ∈ (M.thread t).code →
        ∃ side, tr.side? = some side ∧
          (MustWait (M.queue q) side ∨ s.Robbed t (M.thread t).code k past M) := by
  have hsound := h.sound
  have hmutex : (M.queue q).mutex = s.setting.mutex q := hsound.fits.mutex q hq
  rw [hmutex]
  refine ⟨fun hpause => ⟨?_, hsound.guarded.waiting q hq⟩, ?_, ?_, ?_, ?_⟩
  · cases hpause with
    | still _ still =>
        rw [hsound.guarded.owner q hq]
        simp [holder, still]
    | stop hbefore stop =>
        exact hbefore.sound.owner_of_halts hq (hbefore.sound.turn.halts hbefore.sound stop)
  · exact fun t others code hready hcode => hsound.tick_lock hq hready hcode
  · intro t others path tr code hready hcode
    have howner := hsound.owner_of_transact hq hready hcode
    exact ⟨howner, departNative_of_owned howner⟩
  · intro t others path name verb tr code hready hcode hname hverb hside
    exact hsound.runs_through hq hready hcode hname hverb hside
  · intro t path tr hstop hmem
    have hhalts := hsound.turn.halts hsound hstop
    rcases hhalts.stopped with hidle | ⟨stop, hat⟩
    · simp [hidle.1] at hmem
    obtain ⟨i, code, hcode⟩ := List.exists_cons_of_ne_nil (List.ne_nil_of_mem hmem)
    rw [stop?_of_code hcode] at hat
    rw [hcode] at hmem
    obtain ⟨side, hside, -, rfl⟩ := suspends_of_mem (hcode ▸ (hsound.shaped t).code) hat hmem
    refine ⟨side, hside, ?_⟩
    rcases h.rests_or_mustWait hq (place?_of_code hcode) with ⟨-, hdue⟩ | ⟨-, hmust⟩
    · have hready : t ∈ M.ready := hstop ▸ List.mem_cons_self
      rcases hdue hready with hn | hrobbed
      · simp [hhalts.unnotified _ _ _ hcode] at hn
      · exact .inr hrobbed
    · exact .inl hmust

/-- A task that suspends on the handle of another, which then waits for space. -/
def intercepted : Scenario where
  tasks := ["producer", "thief", "consumer"]
  objects := [("q", .queue (.bounded (Word.wrap 1)))]
  steps := [("thief", .run [.onTask "producer" .suspend]),
    ("producer", .run [.onObject "q" (.push (.integer 1)), .onObject "q" (.push (.integer 2))]),
    ("consumer", .run [.onObject "q" .pop, .onTask "producer" .resume])]

/-- The moment at which the producer has been unparked, but its notification is gone. -/
def robbed : Machine Json :=
  ticks 13 ((intercepted.after 2).begin 2 2
    (some [.onObject "q" .pop, .onTask "producer" .resume]))

theorem reaches_robbed : ∃ past, intercepted.Reaches 3 past robbed := by
  obtain ⟨past, h⟩ := intercepted.reaches_after (k := 2) (by decide) (by decide)
  exact ⟨_, (h.order (by decide) rfl rfl rfl).ticks 13⟩

theorem mutex_never_contended_when_robbed : ∃ past, intercepted.Reaches 3 past robbed ∧
    0 < intercepted.start.1.queues.size ∧
    intercepted.Robbed 0 (robbed.thread 0).code 3 past robbed := by
  obtain ⟨past, h⟩ := reaches_robbed
  refine ⟨past, h, by decide, ?_⟩
  obtain ⟨side, hside, hwait | hrobbed⟩ := (mutex_never_contended (q := 0) h (by decide)).2.2.2.2 0
    [1] (.add (.integer 2)) (by decide) (.tail _ (.tail _ (.head _)))
  · cases hside
    have hspace : (robbed.queue 0).isFull ≠ true := by decide
    exact absurd hwait hspace
  · exact hrobbed

/-- **A push can park while there is space.**  The producer has been signalled and unparked, but the
other task that suspended on its handle ran first. -/
theorem parked_with_space : ∃ past M, intercepted.Reaches 3 past M ∧
    M.ready = 0 :: M.tick.ready ∧ .transact 0 [1] (.add (.integer 2)) ∈ (M.thread 0).code ∧
    (M.queue 0).capacity.val = 1 ∧ (M.queue 0).values.length = 0 := by
  obtain ⟨past, h⟩ := reaches_robbed
  exact ⟨past, robbed, h, by decide, .tail _ (.tail _ (.head _)), by decide, by decide⟩

end Scenario

end BlockingSync
