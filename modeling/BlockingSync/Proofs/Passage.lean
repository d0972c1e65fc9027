/-
The way through a queue.

A thread that has taken its place at the front runs until it stops, so what it does inside
a queue can be told in one piece: it takes the mutex, which nobody holds and nobody waits
for, does its transaction, gives the mutex back, which wakes nobody, and reports.  `Solo`
says what the parts around the transaction do, which is nothing that another thread could
see.
-/
import BlockingSync.Proofs.Attendance
import BlockingSync.Proofs.Ending
import BlockingSync.Proofs.History

namespace BlockingSync

variable {α : Type}

namespace Machine

variable {M M' M'' : Machine α} {t u : ThreadId}

/-- Nothing has changed but mutexes, the log, and what the thread has left to do of its
operation. -/
structure Solo (t : ThreadId) (M M' : Machine α) : Prop where
  queues : M'.queues = M.queues
  conditions : M'.conditions = M.conditions
  handles : M'.handles = M.handles
  ready : M'.ready = M.ready
  names : M'.names = M.names
  thread : ∀ u, M'.thread u = { M.thread u with code := (M'.thread u).code }
  code : ∀ u, u ≠ t → (M'.thread u).code = (M.thread u).code

theorem Solo.trans (h : Solo t M M') (h' : Solo t M' M'') : Solo t M M'' :=
  ⟨h'.queues.trans h.queues, h'.conditions.trans h.conditions, h'.handles.trans h.handles,
    h'.ready.trans h.ready, h'.names.trans h.names,
    fun u => by rw [h'.thread u, h.thread u],
    fun u hu => (h'.code u hu).trans (h.code u hu)⟩

theorem Solo.refl : Solo t M M :=
  ⟨rfl, rfl, rfl, rfl, rfl, fun _ => rfl, fun _ _ => rfl⟩

theorem Solo.setOwner (m : MutexId) (o : Option HandleId) : Solo t M (M.setOwner m o) :=
  ⟨rfl, rfl, rfl, rfl, rfl, fun _ => rfl, fun _ _ => rfl⟩

theorem Solo.note (e : Entry α) : Solo t M (M.note e) :=
  ⟨rfl, rfl, rfl, rfl, rfl, fun _ => rfl, fun _ _ => rfl⟩

/-- A thread that goes on with other code. -/
theorem Solo.setCode (h : Solo t M M') (code : List (Instr α)) : Solo t M (M'.setCode t code) := by
  refine ⟨h.queues, h.conditions, h.handles, h.ready, h.names, fun u => ?_, fun u hu => ?_⟩
  · rw [thread_setCode]
    split
    · subst u
      rw [h.thread t]
    · exact h.thread u
  · rw [thread_setCode, if_neg (Ne.symm hu), h.code u hu]

theorem Solo.queue (h : Solo t M M') (q : QueueId) : M'.queue q = M.queue q := by
  simp only [Machine.queue, h.queues]

theorem Solo.waiters (h : Solo t M M') (c : ConditionId) :
    M'.waiters (.condition c) = M.waiters (.condition c) := by
  simp only [Machine.waiters, h.conditions]

theorem Solo.handle (h : Solo t M M') (u : HandleId) : M'.handle u = M.handle u := by
  simp only [Machine.handle, h.handles]

theorem Solo.isResumable (h : Solo t M M') : M'.isResumable = M.isResumable := by
  funext u
  simp only [Machine.isResumable, h.handle]

theorem Solo.thread_ne (h : Solo t M M') (hu : u ≠ t) : M'.thread u = M.thread u := by
  rw [h.thread u, h.code u hu]

theorem Solo.pending (h : Solo t M M') : (M'.thread u).pending = (M.thread u).pending := by
  rw [h.thread u]

theorem Solo.step (h : Solo t M M') : (M'.thread u).step = (M.thread u).step := by
  rw [h.thread u]

theorem ticks_add (m n : Nat) (M : Machine α) : ticks (m + n) M = ticks n (ticks m M) := by
  induction m generalizing M with
  | zero => rw [Nat.zero_add]; rfl
  | succ m ih =>
      rw [Nat.succ_add]
      exact ih M.tick

end Machine

namespace Setting

open Machine

variable {S : Setting α} {M M' : Machine α} {t u : ThreadId} {q : QueueId} {path : Path}
  {tr : Transaction α} {r : Result α} {code : List (Instr α)} {others : List ThreadId}

/-- A tick leaves the threads that do not run as they are. -/
theorem Turn.thread_ne (hs : S.Sound M) (h : S.Turn M M') (hu : M.ready.head? ≠ some u) :
    M'.thread u = M.thread u := by
  have behind : ∀ {t others}, M.ready = t :: others → t ≠ u := by
    rintro t others hready rfl
    exact hu (by rw [hready]; rfl)
  cases h with
  | still | finish => rfl
  | next hready => rw [thread_setThread, if_neg (behind hready)]
  | goOn hready hcode hstroke | unwind hready hcode hstroke =>
      rw [thread_setCode, if_neg (behind hready)]
      exact thread_congr (hstroke.threads hs.fits (hcode ▸ (hs.shaped _).code)) u
  | park hready hcode hstroke => exact (hstroke.halts hready hcode).thread u

/-- The thread that runs stays in front, or it is gone; the others keep their order, and threads
that wake up come behind them. -/
theorem Sound.tick_ready (h : S.Sound M) (hready : M.ready = t :: others) :
    (∃ woken, M.tick.ready = t :: (others ++ woken)) ∨ M.tick.ready = others := by
  have same : ∀ {t' others'}, M.ready = t' :: others' → others' = others := fun hr =>
    (List.cons.inj (hr.symm.trans hready)).2
  have hturn := h.turn
  generalize M.tick = M' at hturn ⊢
  cases hturn with
  | still hr => simp [hready] at hr
  | finish hr =>
      obtain rfl := same hr
      exact .inr rfl
  | next hr => exact .inl ⟨[], by rw [List.append_nil]; exact hready⟩
  | goOn hr hcode hstroke | unwind hr hcode hstroke =>
      obtain ⟨woken, hwoken⟩ := hstroke.ready h.fits (hcode ▸ (h.shaped _).code)
      exact .inl ⟨woken, hwoken.trans (by rw [hready, List.cons_append])⟩
  | @park _ _ _ _ M' hr hcode hstroke =>
      obtain rfl := same hr
      have hhalts := hstroke.halts hr hcode
      have hsame : M.ready = _ :: M'.ready.tail := hhalts.ready
      exact .inr (List.cons.inj (hsame.symm.trans hready)).2

/-- A thread stops only where it can. -/
theorem Stroke.stop?_ne_none {i : Instr α} (h : S.Stroke M t i M' .park) : i.stop? ≠ none := by
  cases h with
  | start hb => exact absurd rfl hb.next_ne_park
  | parkRaw | park => simp [Instr.stop?]

/-- A thread that has something to do and cannot stop stays in front. -/
theorem Sound.tick_runs (h : S.Sound M) (hready : M.ready = t :: others) (busy : ¬ M.IsIdle t)
    (hgo : M.stop? t = none) : M.tick.ready.head? = some t := by
  have same : ∀ {t' others'}, M.ready = t' :: others' → t' = t := fun hr =>
    (List.cons.inj (hr.symm.trans hready)).1
  have hturn := h.turn
  generalize M.tick = M' at hturn ⊢
  cases hturn with
  | still hr => simp [hready] at hr
  | finish hr hidle =>
      obtain rfl := same hr
      exact absurd hidle busy
  | next hr =>
      obtain rfl := same hr
      exact congrArg List.head? hready
  | goOn hr hcode hstroke | unwind hr hcode hstroke =>
      obtain rfl := same hr
      obtain ⟨woken, hwoken⟩ := hstroke.ready h.fits (hcode ▸ (h.shaped _).code)
      refine (congrArg List.head? hwoken).trans ?_
      rw [hready]
      rfl
  | park hr hcode hstroke =>
      obtain rfl := same hr
      rw [stop?_of_code hcode] at hgo
      exact absurd hgo hstroke.stop?_ne_none

/-! ### Around a transaction -/

/-- **The mutex of a queue is taken at once.** -/
theorem Sound.tick_lock (h : S.Sound M) (hq : q < S.queues) (hready : M.ready = t :: others)
    (hcode : (M.thread t).code = .lock (S.mutex q) :: code) :
    M.tick = (M.setOwner (S.mutex q) (some t)).setCode t code := by
  have hfree := h.free_of_lock hready hcode hq
  exact tick_of_done hready hcode (by simp only [execute, tryLock, hfree])

/-- Nobody waits for the mutex of a queue that is given back. -/
theorem Sound.tick_unlock (h : S.Sound M) (hq : q < S.queues) (hready : M.ready = t :: others)
    (hcode : (M.thread t).code = .unlock (S.mutex q) :: code) :
    M.tick = (M.setOwner (S.mutex q) none).setCode t code := by
  have howner : (M.mutex (S.mutex q)).owner = some t := by
    rw [h.guarded.owner q hq, holder_of_ready hready, hcode]
    simp [IsInside]
  have hfree : M.free (S.mutex q) = M.setOwner (S.mutex q) none := by
    refine wakeOne_of_nobody ?_
    rw [waiters_setOwner]
    exact h.guarded.waiting q hq
  refine tick_of_done hready hcode ?_
  simp only [execute, Machine.unlock, releaseWith_of_owned howner, hfree]

theorem tick_report (hready : M.ready = t :: others)
    (hcode : (M.thread t).code = .report path r :: code) :
    M.tick = (M.note (.finished t (M.thread t).step path r)).setCode t code :=
  tick_of_done hready hcode rfl

theorem Sound.solo_lock (h : S.Sound M) (hq : q < S.queues) (hready : M.ready = t :: others)
    (hcode : (M.thread t).code = .lock (S.mutex q) :: code) :
    Solo t M M.tick ∧ (M.tick.thread t).code = code := by
  rw [h.tick_lock hq hready hcode]
  refine ⟨(Solo.setOwner _ _).setCode _, ?_⟩
  rw [thread_setCode, if_pos rfl]

/-- Behind a transaction the thread gives the mutex back and reports. -/
theorem Sound.solo_leaving (h : S.Sound M) (hq : q < S.queues) (hready : M.ready = t :: others)
    (hcode : (M.thread t).code = .unlock (S.mutex q) :: .report path r :: code) :
    M.tick.ready = M.ready ∧ Solo t M (ticks 2 M) ∧ ((ticks 2 M).thread t).code = code ∧
      (ticks 2 M).log = M.log ++ [.finished t (M.thread t).step path r] := by
  have hfirst := h.tick_unlock hq hready hcode
  have hsolo : Solo t M M.tick := by
    rw [hfirst]
    exact (Solo.setOwner _ _).setCode _
  have hcode' : (M.tick.thread t).code = .report path r :: code := by
    rw [hfirst, thread_setCode, if_pos rfl]
  have hlog : M.tick.log = M.log := by rw [hfirst]; rfl
  have hsecond : ticks 2 M =
      (M.tick.note (.finished t (M.tick.thread t).step path r)).setCode t code :=
    tick_report (hsolo.ready.trans hready) hcode'
  refine ⟨hsolo.ready, ?_, ?_, ?_⟩
  · rw [hsecond]
    exact hsolo.trans ((Solo.note _).setCode _)
  · rw [hsecond, thread_setCode, if_pos rfl]
  · rw [hsecond, ← hlog, ← hsolo.step]
    rfl

/-- What a thread does that passes through a queue without waiting: whatever its transaction does,
and nothing else that another thread could see. -/
structure Traverses (t : ThreadId) (path : Path) (code : List (Instr α)) (M N : Machine α)
    (r : Result α) : Prop where
  sound : S.Sound (ticks 4 M)
  /-- From where the transaction has led. -/
  solo : Solo t N (ticks 4 M)
  code : ((ticks 4 M).thread t).code = code
  log : (ticks 4 M).log = N.log ++ [.finished t (M.thread t).step path r]
  runs : ∀ n ≤ 4, (ticks n M).ready.head? = some t

/-- **A transaction that comes to its result is done at one stroke.** -/
theorem Sound.passes (h : S.Sound M) (hq : q < S.queues) (hready : M.ready = t :: others)
    (hcode : (M.thread t).code = .lock (S.mutex q) :: .transact q path tr :: code)
    {N : Machine α}
    (he : M.tick.transact t q path tr = (N, .goOn [.unlock (S.mutex q), .report path r])) :
    S.Traverses t path code M N r := by
  obtain ⟨hsolo, hcode'⟩ := h.solo_lock hq hready hcode
  have hready' : M.tick.ready = t :: others := hsolo.ready.trans hready
  have hshape := (h.tick.shaped t).code
  rw [hcode'] at hshape
  have hstroke := h.tick.stroke hready' hcode'
  have hexecute : M.tick.execute t (.transact q path tr) =
      (N, .goOn [.unlock (S.mutex q), .report path r]) := he
  rw [hexecute] at hstroke
  have hthreads := hstroke.threads h.tick.fits hshape
  obtain ⟨behind, hbehind⟩ := hstroke.ready_behind h.tick.fits hshape hready'
  have hsecond : M.tick.tick =
      N.setCode t (.unlock (S.mutex q) :: .report path r :: code) :=
    tick_of_goOn hready' hcode' hexecute
  have hsound : S.Sound M.tick.tick := h.tick.tick
  have hsolo' : Solo t N M.tick.tick := by
    rw [hsecond]
    exact Solo.refl.setCode _
  have hready'' : M.tick.tick.ready = t :: behind := hsolo'.ready.trans hbehind
  have hcode'' : (M.tick.tick.thread t).code = .unlock (S.mutex q) :: .report path r :: code := by
    rw [hsecond, thread_setCode, if_pos rfl]
  obtain ⟨hthird, hrest, hend, hlog⟩ := hsound.solo_leaving hq hready'' hcode''
  have hstep : (M.tick.tick.thread t).step = (M.thread t).step := by
    rw [hsolo'.step, thread_congr hthreads, hsolo.step]
  refine ⟨hsound.tick.tick, hsolo'.trans hrest, hend, ?_, fun n hn => ?_⟩
  · rw [← hstep]
    refine hlog.trans ?_
    rw [hsecond]
    rfl
  · have hlast : (ticks 4 M).ready = t :: behind := hrest.ready.trans hready''
    match n, hn with
    | 0, _ => exact congrArg List.head? hready
    | 1, _ => exact congrArg List.head? hready'
    | 2, _ => exact congrArg List.head? hready''
    | 3, _ => exact congrArg List.head? (hthird.trans hready'')
    | 4, _ => exact congrArg List.head? hlast

/-- An operation on a queue begins by taking the mutex, but a bound of zero is refused at once. -/
theorem perform_of_transaction {name : String} {verb : Verb α}
    (hname : M.object? name = some (.queue q)) (hverb : transaction? verb = some tr) :
    M.perform t path (.onObject name verb) =
        (M, .goOn [.lock (M.queue q).mutex, .transact q path tr]) ∨
      ∃ capacity, tr = .resize capacity ∧ capacity.val = 0 ∧
        M.perform t path (.onObject name verb) = (M, .yield path (.failed zeroCapacity)) := by
  simp only [perform, hname, performObject, performQueue]
  cases verb with
  | setCapacity capacity =>
      cases hverb
      simp only [transaction?]
      split
      · simp_all
      · rename_i heq
        obtain rfl := Transaction.resize.inj (Option.some.inj heq)
        exact .inr ⟨_, rfl, rfl, rfl⟩
      · simp_all
  | popWith nonBlocking => cases nonBlocking <;> cases hverb <;> exact .inl rfl
  | push | pop | shift | clear | isEmpty | length | size | numWaiting | capacity | values =>
      cases hverb
      exact .inl rfl
  | _ => cases hverb

/-- A transaction that never waits comes to its result at once. -/
theorem Sound.transact_answers (h : S.Sound M) (hready : M.ready = t :: others)
    (hcode : (M.thread t).code = .transact q path tr :: code) (hside : tr.side? = none) :
    ∃ N r, M.transact t q path tr = (N, .goOn [.unlock (S.mutex q), .report path r]) := by
  have hstroke := h.stroke hready hcode
  have hsame : M.execute t (.transact q path tr) = M.transact t q path tr := rfl
  rw [hsame] at hstroke
  generalize M.transact t q path tr = outcome at hstroke
  obtain ⟨N, next⟩ := outcome
  cases hstroke with
  | wait hside' => rw [hside] at hside'; cases hside'
  | transact => exact ⟨_, _, rfl⟩

end Setting

theorem Scenario.Reaches.ticks {s : Scenario} {k : Nat} {past : List (Entry Json)}
    {M : Machine Json} (h : s.Reaches k past M) (n : Nat) :
    s.Reaches k past (Machine.ticks n M) := by
  induction n generalizing M with
  | zero => exact h
  | succ n ih => exact ih h.tick

end BlockingSync
