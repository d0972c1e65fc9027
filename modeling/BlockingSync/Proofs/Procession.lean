/-
Producers on their way, one after the other.

Producers that were woken for space run in the order in which they were woken.  Each takes
its turn with nobody else in between: it adds its value if there is space, and otherwise
goes to the end of the line, so its turn depends on those before it only through the
number of values.  `Marching` says what holds between two turns; as long as there is space
the next producer is let through, and from then on all go back to the line.
-/
import BlockingSync.Proofs.Passage
import BlockingSync.Proofs.Resumes

namespace BlockingSync

variable {α : Type}

namespace Machine

variable {M M' M'' : Machine α} {t u : ThreadId} {p : Place} {others : List ThreadId}
  {code : List (Instr α)}

/-! ### Wakes -/

/-- A wake leaves the lists of other places alone. -/
theorem Wakes.waiters_ne {p' : Place} (h : Wakes p t M M') (hne : p' ≠ p) :
    M'.waiters p' = M.waiters p' := by
  refine h.keeps (I := fun N => N.waiters p' = M.waiters p') ?_ rfl
  rintro e N N' rfl last hN
  rw [last.waiters (by simp) (by simpa using hne.symm), hN]

/-- Without anybody who can be resumed a wake makes nobody ready. -/
theorem Wakes.ready_of_nobody (h : Wakes p t M M') (hnobody : M.live (M.waiters p).toList = []) :
    M'.ready = M.ready ∧ M'.live (M'.waiters p).toList = [] := by
  refine h.keeps (I := fun N => N.ready = M.ready ∧ N.live (N.waiters p).toList = []) ?_
    ⟨rfl, hnobody⟩
  rintro e N N' rfl last ⟨hready, hnone⟩
  cases last with
  | @relist _ l hs =>
      have hlive : (N.setWaiters p l).isResumable = N.isResumable := funext fun u => by simp
      refine ⟨by simpa using hready, ?_⟩
      rw [waiters_setWaiters_self, live_congr hlive, ← hs, hnone]
  | @skip _ v rest hs dead =>
      have hlive : ((N.setWaiters p rest).note (.skipped v)).isResumable = N.isResumable :=
        funext fun u => by simp
      refine ⟨(ready_setWaiters p rest).trans hready, ?_⟩
      rw [waiters_note, waiters_setWaiters_self, live_congr hlive]
      rwa [hs, live, List.filter_cons_of_neg (by simp [dead])] at hnone
  | rouse hs live =>
      rw [hs, Machine.live, List.filter_cons_of_pos live] at hnone
      cases hnone

/-! ### Turns -/

theorem tick_finish (hready : M.ready = t :: others) (hidle : M.IsIdle t) :
    M.tick = { M with ready := others } := by
  simp only [tick, hready, hidle.1, hidle.2]

theorem tick_pass {h : HandleId} {w : Option Place} (hready : M.ready = t :: others)
    (hcode : (M.thread t).code = .suspend h w :: code) (hn : (M.handle h).notified = true) :
    M.tick = (M.hushed h).setCode t code := by
  refine tick_of_done hready hcode ?_
  simp only [execute, hn, if_true]
  rfl

theorem tick_park {h : HandleId} {w : Option Place} (hready : M.ready = t :: others)
    (hcode : (M.thread t).code = .suspend h w :: code) (hn : (M.handle h).notified = false) :
    M.tick = { M.setHandle h { M.handle h with parked := (M.handle h).parked ++ [t] } with
      ready := others } := by
  have hexecute : M.execute t (.suspend h w) =
      (M.setHandle h { M.handle h with parked := (M.handle h).parked ++ [t] }, .park) := by
    simp [execute, hn]
  simp only [tick, hready, hcode, hexecute]
  simp [setHandle, hready]

/-- What the turn of a thread leaves as it is. -/
structure Yields (u : ThreadId) (M M' : Machine α) : Prop where
  ready : M.ready = u :: M'.ready
  thread : ∀ v, v ≠ u → M'.thread v = M.thread v
  notified : ∀ v, v ≠ u → (M'.handle v).notified = (M.handle v).notified
  isResumable : M'.isResumable = M.isResumable

end Machine

/-- A producer that waits to add a value, in the last operation of its list. -/
structure Pusher (α : Type) where
  thread : ThreadId
  path : Path
  value : α

/-- Whether a producer waits for space in a queue, and has nothing left to do behind that. -/
structure Machine.Pushes (M : Machine α) (q : QueueId) (p : Pusher α) : Prop where
  code : (M.thread p.thread).code =
    [.suspend p.thread (some (.condition (M.queue q).spaceAvailable)), .lock (M.queue q).mutex,
      .transact q p.path (.add p.value)]
  pending : (M.thread p.thread).pending = []

namespace Setting

open Machine

variable {S : Setting α} {M M' : Machine α} {q : QueueId} {p : Pusher α} {others : List ThreadId}

theorem pushes_congr (h : M.Pushes q p) (hq : q < S.queues) (hfits : M.Fits S) (hfits' : M'.Fits S)
    (hthread : M'.thread p.thread = M.thread p.thread) : M'.Pushes q p := by
  have hspace : (M'.queue q).spaceAvailable = (M.queue q).spaceAvailable :=
    (hfits'.condition q hq .add).trans (hfits.condition q hq .add).symm
  refine ⟨?_, by rw [hthread, h.pending]⟩
  rw [hthread, h.code, hspace, hfits'.mutex q hq, hfits.mutex q hq]

/-- A producer that was woken takes the mutex first. -/
structure Enters (S : Setting α) (q : QueueId) (p : Pusher α) (M : Machine α) : Prop where
  sound : S.Sound M.tick
  ready : M.tick.ready = M.ready
  code : (M.tick.thread p.thread).code =
    [.lock (S.mutex q), .transact q p.path (.add p.value)]
  solo : Solo p.thread (M.hushed p.thread) M.tick.tick
  code' : (M.tick.tick.thread p.thread).code = [.transact q p.path (.add p.value)]

theorem Sound.enters (h : S.Sound M) (hq : q < S.queues) (hready : M.ready = p.thread :: others)
    (hp : M.Pushes q p) (hn : (M.handle p.thread).notified = true) : Enters S q p M := by
  have hcode := hp.code
  rw [h.fits.mutex q hq] at hcode
  have hfirst := tick_pass hready hcode hn
  have hready' : M.tick.ready = M.ready := by
    rw [hfirst]
    rfl
  have hcode' : (M.tick.thread p.thread).code =
      [.lock (S.mutex q), .transact q p.path (.add p.value)] := by
    rw [hfirst, thread_setCode, if_pos rfl]
  have hpass : Solo p.thread (M.hushed p.thread) M.tick := by
    rw [hfirst]
    exact Solo.refl.setCode _
  obtain ⟨hsolo, hcode''⟩ := h.tick.solo_lock hq (hready'.trans hready) hcode'
  exact ⟨h.tick, hready', hcode', hpass.trans hsolo, hcode''⟩

theorem isResumable_hushed (M : Machine α) (u : HandleId) :
    (M.hushed u).isResumable = M.isResumable :=
  funext (keeps_setHandle (!·.terminated) rfl)

theorem condition_ne (hq : q < S.queues) : S.condition q .add ≠ S.condition q .take := by
  intro hc
  cases (S.apart.condition_inj q hq q hq _ _ hc).2

/-- **A producer that finds space adds its value and has finished.** -/
theorem Sound.adds (h : S.Sound M) (hq : q < S.queues) (hready : M.ready = p.thread :: others)
    (hp : M.Pushes q p) (hn : (M.handle p.thread).notified = true)
    (hspace : (M.queue q).isFull = false)
    (hnobody : M.live (M.waiters (.condition (S.condition q .take))).toList = []) :
    ∃ k, S.Sound (ticks k M) ∧ Yields p.thread M (ticks k M) ∧ (ticks k M).IsIdle p.thread ∧
      (ticks k M).queue q =
        { M.queue q with values := (M.queue q).values.push p.value } ∧
      (ticks k M).waiters (.condition (S.condition q .add)) =
        M.waiters (.condition (S.condition q .add)) ∧
      (ticks k M).live ((ticks k M).waiters (.condition (S.condition q .take))).toList = [] := by
  have henters := h.enters hq hready hp hn
  have hsolo := henters.solo
  have hqueue : M.tick.tick.queue q = M.queue q := hsolo.queue q
  have hlive : M.tick.tick.isResumable = M.isResumable :=
    hsolo.isResumable.trans (isResumable_hushed M _)
  -- Once the value is there a consumer is woken, but none can be resumed.
  generalize hX : M.tick.tick.setQueue q
    { M.queue q with values := (M.queue q).values.push p.value } = X
  have hwakes := wakeOne_wakes p.thread X (.condition (S.condition q .take))
  have hlists : ∀ c, X.waiters (.condition c) = M.waiters (.condition c) := by
    intro c
    rw [← hX]
    exact hsolo.waiters c
  have hnobody' : X.live (X.waiters (.condition (S.condition q .take))).toList = [] := by
    rw [hlists, live_congr (M := M) (by rw [← hX]; exact hlive), hnobody]
  obtain ⟨hwoken, hnone⟩ := hwakes.ready_of_nobody hnobody'
  have hhandles : (X.wakeOne (.condition (S.condition q .take))).1.handles =
      (M.hushed p.thread).handles := by
    rw [handles_wakeOne, woken, hnobody', List.take_nil, rouseAll_nil, ← hX]
    exact hsolo.handles
  have he : M.tick.tick.transact p.thread q p.path (.add p.value) =
      ((X.wakeOne (.condition (S.condition q .take))).1,
        .goOn [.unlock (S.mutex q), .report p.path .done]) := by
    have hmutex : (M.queue q).mutex = S.mutex q := h.fits.mutex q hq
    have hvalue : (M.queue q).valueAvailable = S.condition q .take := h.fits.condition q hq .take
    show M.tick.tick.addValue p.thread q p.path p.value = _
    rw [addValue, hqueue, if_neg (by simp [hspace]), hX, finishTransaction, hmutex, hvalue]
  have hpasses := henters.sound.passes hq (henters.ready.trans hready) henters.code he
  have hthreads : (X.wakeOne (.condition (S.condition q .take))).1.threads =
      M.tick.tick.threads := by
    rw [hwakes.threads, ← hX]
    rfl
  have hidle : (ticks 4 M.tick).IsIdle p.thread := by
    refine ⟨hpasses.code, ?_⟩
    rw [hpasses.solo.pending, thread_congr hthreads, hsolo.pending]
    exact hp.pending
  have hready' : (ticks 4 M.tick).ready = p.thread :: others := by
    rw [hpasses.solo.ready, hwoken, ← hX]
    exact hsolo.ready.trans hready
  have hlast : ticks 6 M = { ticks 4 M.tick with ready := others } := tick_finish hready' hidle
  have hsame : ∀ v, (ticks 6 M).handle v = (M.hushed p.thread).handle v := by
    intro v
    rw [hlast]
    refine (hpasses.solo.handle v).trans ?_
    simp only [handle, hhandles]
  have hresumable : (ticks 6 M).isResumable = M.isResumable := by
    rw [← isResumable_hushed M p.thread]
    funext v
    simp only [isResumable, hsame]
  refine ⟨6, hpasses.sound.tick, ⟨?_, ?_, ?_, hresumable⟩, ?_, ?_, ?_, ?_⟩
  · rw [hready, hlast]
  · intro v hv
    rw [hlast]
    refine (hpasses.solo.thread_ne hv).trans ?_
    rw [thread_congr hthreads, hsolo.thread_ne hv]
    rfl
  · intro v hv
    rw [hsame, notified_hushed]
    simp [hv]
  · rw [hlast]
    exact hidle
  · rw [hlast]
    refine (hpasses.solo.queue q).trans ?_
    rw [hwakes.queue_eq (by rintro e rfl; simp), ← hX]
    exact Table.get_set_self ..
  · rw [hlast]
    refine (hpasses.solo.waiters _).trans ?_
    rw [hwakes.waiters_ne (by simpa using condition_ne hq), hlists]
  · rw [live_congr (N := ticks 6 M) (M := (X.wakeOne (.condition (S.condition q .take))).1), hlast]
    · rw [← hnone]
      exact congrArg (fun l : WaitList HandleId => live _ l.toList) (hpasses.solo.waiters _)
    · rw [hresumable, hwakes.isResumable, ← hX]
      exact hlive.symm

/-- **A producer that finds the queue full goes to the end of the line.** -/
theorem Sound.waits (h : S.Sound M) (hq : q < S.queues) (hready : M.ready = p.thread :: others)
    (hp : M.Pushes q p) (hn : (M.handle p.thread).notified = true)
    (hfull : (M.queue q).isFull = true) :
    ∃ k, S.Sound (ticks k M) ∧ Yields p.thread M (ticks k M) ∧ (ticks k M).Pushes q p ∧
      (ticks k M).queue q = M.queue q ∧
      ((ticks k M).waiters (.condition (S.condition q .add))).toList =
        (M.waiters (.condition (S.condition q .add))).toList ++ [p.thread] ∧
      (ticks k M).waiters (.condition (S.condition q .take)) =
        M.waiters (.condition (S.condition q .take)) := by
  have henters := h.enters hq hready hp hn
  have hsolo := henters.solo
  have hqueue : M.tick.tick.queue q = M.queue q := hsolo.queue q
  have hready' : M.tick.tick.ready = p.thread :: others := hsolo.ready.trans hready
  have hsound : S.Sound M.tick.tick := henters.sound.tick
  have hmutex : (M.queue q).mutex = S.mutex q := h.fits.mutex q hq
  have hspace : (M.queue q).spaceAvailable = S.condition q .add := h.fits.condition q hq .add
  -- The producer gives up the mutex, which nobody waits for, and enters the line.
  generalize hX : (M.tick.tick.setOwner (S.mutex q) none).enqueue
    (.condition (S.condition q .add)) p.thread = X
  have he : M.tick.tick.execute p.thread (.transact q p.path (.add p.value)) =
      (X, .goOn [.suspend p.thread (some (.condition (S.condition q .add))), .lock (S.mutex q),
        .transact q p.path (.add p.value)]) := by
    have howner : (M.tick.tick.mutex (M.tick.tick.queue q).mutex).owner = some p.thread := by
      rw [hqueue, hmutex, hsound.guarded.owner q hq, holder_of_ready hready', henters.code']
      simp [IsInside]
    show M.tick.tick.addValue p.thread q p.path p.value = _
    rw [addValue, hqueue, if_pos hfull, ← hqueue, waitHeld_eq howner, hqueue, hmutex, hspace,
      hsound.leave_eq hq, hX]
  have hthird : ticks 3 M = X.setCode p.thread
      [.suspend p.thread (some (.condition (S.condition q .add))), .lock (S.mutex q),
        .transact q p.path (.add p.value)] := tick_of_goOn hready' henters.code' he
  have hpart : Solo p.thread (M.tick.tick.enqueue (.condition (S.condition q .add)) p.thread)
      (ticks 3 M) := by
    rw [hthird, ← hX]
    exact (Solo.setOwner (S.mutex q) none).setCode _
  have hhandle : ∀ v, (ticks 3 M).handle v = (M.hushed p.thread).handle v := fun v =>
    (hpart.handle v).trans (hsolo.handle v)
  have hready'' : (ticks 3 M).ready = p.thread :: others := hpart.ready.trans hready'
  have hcode : ((ticks 3 M).thread p.thread).code =
      [.suspend p.thread (some (.condition (S.condition q .add))), .lock (S.mutex q),
        .transact q p.path (.add p.value)] := by
    rw [hthird, thread_setCode, if_pos rfl]
  have hunnotified : ((ticks 3 M).handle p.thread).notified = false := by
    rw [hhandle, notified_hushed]
    simp
  have hlast : ticks 4 M = _ := tick_park hready'' hcode hunnotified
  have hthread : ∀ v, (ticks 4 M).thread v = (ticks 3 M).thread v := by
    intro v
    rw [hlast]
    rfl
  have hqueue' : (ticks 4 M).queue q = M.queue q := by
    rw [hlast]
    exact (hpart.queue q).trans hqueue
  refine ⟨4, hsound.tick.tick, ⟨?_, ?_, ?_, ?_⟩, ⟨?_, ?_⟩, hqueue', ?_, ?_⟩
  · rw [hready, hlast]
  · intro v hv
    rw [hthread, hpart.thread_ne hv]
    exact hsolo.thread_ne hv
  · intro v hv
    rw [hlast]
    refine (keeps_setHandle (·.notified) (by rfl) v).trans ?_
    show ((ticks 3 M).handle v).notified = _
    rw [hhandle, notified_hushed]
    simp [hv]
  · rw [hlast]
    funext v
    refine (keeps_setHandle (!·.terminated) (by rfl) v).trans ?_
    show (!((ticks 3 M).handle v).terminated) = _
    rw [hhandle]
    exact congrFun (isResumable_hushed M p.thread) v
  · rw [hthread, hcode, hqueue', hmutex, hspace]
  · rw [hthread, hpart.pending]
    exact hsolo.pending.trans hp.pending
  · rw [hlast]
    show ((ticks 3 M).waiters (.condition (S.condition q .add))).toList = _
    rw [hpart.waiters, enqueue, waiters_setWaiters_self, WaitList.toList_push, hsolo.waiters]
    rfl
  · rw [hlast]
    show (ticks 3 M).waiters (.condition (S.condition q .take)) = _
    rw [hpart.waiters, enqueue, waiters_setWaiters, if_neg (by simpa using condition_ne hq),
      hsolo.waiters]
    rfl

/-! ### The procession -/

/-- What holds between the turns of producers: some are `coming`, one after the other, and some are
`waiting` in the line; those who have `passed` have finished. -/
structure Marching (S : Setting α) (q : QueueId) (coming waiting passed : List (Pusher α))
    (bound : Word) (vs : List α) (M : Machine α) : Prop where
  sound : S.Sound M
  ready : M.ready = coming.map (·.thread)
  pushes : ∀ p ∈ coming ++ waiting, M.Pushes q p
  notified : ∀ p ∈ coming, (M.handle p.thread).notified = true
  resumable : ∀ p ∈ coming, M.isResumable p.thread = true
  idle : ∀ p ∈ passed, M.IsIdle p.thread
  /-- The line, but for those in it who have terminated. -/
  line : M.live (M.waiters (.condition (S.condition q .add))).toList = waiting.map (·.thread)
  /-- Who adds a value meets no consumer. -/
  nobody : coming ≠ [] → M.live (M.waiters (.condition (S.condition q .take))).toList = []
  distinct : ((coming ++ waiting ++ passed).map (·.thread)).Nodup
  capacity : (M.queue q).capacity = bound
  values : (M.queue q).values.toList = vs

variable {coming waiting passed : List (Pusher α)} {bound : Word} {vs : List α}

theorem isFull_iff {s : Queue α} (positive : 0 < s.capacity.val) :
    s.isFull = true ↔ s.capacity.val ≤ s.values.toList.length := by
  simp [Queue.isFull, positive, WaitList.length_toList]

/-- The turn of one producer changes nothing for the others. -/
theorem Marching.undisturbed (h : Marching S q (p :: coming) waiting passed bound vs M)
    (hq : q < S.queues) (hsound : S.Sound M') (hyields : Yields p.thread M M') :
    M'.ready = coming.map (·.thread) ∧ (∀ p' ∈ coming ++ waiting, M'.Pushes q p') ∧
      (∀ p' ∈ coming, (M'.handle p'.thread).notified = true) ∧
      (∀ p' ∈ coming, M'.isResumable p'.thread = true) ∧ ∀ p' ∈ passed, M'.IsIdle p'.thread := by
  have hdistinct := h.distinct
  simp only [List.cons_append, List.map_cons, List.nodup_cons, List.mem_map, not_exists, not_and,
    List.mem_append] at hdistinct
  have hne : ∀ p' : Pusher α, (p' ∈ coming ∨ p' ∈ waiting) ∨ p' ∈ passed →
      p'.thread ≠ p.thread := fun p' hp' => hdistinct.1 p' hp'
  refine ⟨?_, fun p' hp' => ?_, fun p' hp' => ?_, fun p' hp' => ?_, fun p' hp' => ?_⟩
  · exact (List.cons.inj (hyields.ready.symm.trans h.ready)).2
  · have hthread := hyields.thread p'.thread (hne p' (.inl (List.mem_append.1 hp')))
    exact pushes_congr (h.pushes p' (List.mem_cons_of_mem _ hp')) hq h.sound.fits hsound.fits
      hthread
  · rw [hyields.notified p'.thread (hne p' (.inl (.inl hp')))]
    exact h.notified p' (List.mem_cons_of_mem _ hp')
  · rw [hyields.isResumable]
    exact h.resumable p' (List.mem_cons_of_mem _ hp')
  · have hthread := hyields.thread p'.thread (hne p' (.inr hp'))
    have hidle := h.idle p' hp'
    rwa [IsIdle, ← hthread] at hidle

/-- As long as there is space the next producer is let through. -/
theorem Marching.add (h : Marching S q (p :: coming) waiting passed bound vs M)
    (hq : q < S.queues) (hspace : vs.length < bound.val) :
    ∃ k, Marching S q coming waiting (passed ++ [p]) bound (vs ++ [p.value]) (ticks k M) := by
  have hfree : (M.queue q).isFull = false := by
    rw [← Bool.not_eq_true, isFull_iff (by rw [h.capacity]; omega), h.capacity, h.values]
    omega
  obtain ⟨k, hsound, hyields, hidle, hqueue, hline, hnone⟩ := h.sound.adds hq h.ready
    (h.pushes p (by simp)) (h.notified p (by simp)) hfree (h.nobody (by simp))
  obtain ⟨hready, hpushes, hnotified, hresumable, hpassed⟩ := h.undisturbed hq hsound hyields
  refine ⟨k, hsound, hready, hpushes, hnotified, hresumable, ?_, ?_, fun _ => hnone, ?_, ?_, ?_⟩
  · intro p' hp'
    rcases List.mem_append.1 hp' with hp' | hp'
    · exact hpassed p' hp'
    · rw [List.mem_singleton.1 hp']
      exact hidle
  · rw [hline, live_congr hyields.isResumable, h.line]
  · have hperm : (coming ++ waiting ++ (passed ++ [p])).Perm
        (p :: coming ++ waiting ++ passed) := by
      rw [← List.append_assoc]
      exact List.perm_append_singleton p _
    exact (hperm.map _).nodup_iff.2 h.distinct
  · rw [hqueue]
    exact h.capacity
  · rw [hqueue, WaitList.toList_push, h.values]

/-- Once the queue is full the next producer goes to the end of the line. -/
theorem Marching.wait (h : Marching S q (p :: coming) waiting passed bound vs M)
    (hq : q < S.queues) (positive : 0 < bound.val) (hfull : bound.val ≤ vs.length) :
    ∃ k, Marching S q coming (waiting ++ [p]) passed bound vs (ticks k M) := by
  have hisFull : (M.queue q).isFull = true := by
    rw [isFull_iff (by rw [h.capacity]; exact positive), h.capacity, h.values]
    exact hfull
  obtain ⟨k, hsound, hyields, hpushes', hqueue, hline, hsame⟩ := h.sound.waits hq h.ready
    (h.pushes p (by simp)) (h.notified p (by simp)) hisFull
  obtain ⟨hready, hpushes, hnotified, hresumable, hpassed⟩ := h.undisturbed hq hsound hyields
  refine ⟨k, hsound, hready, ?_, hnotified, hresumable, hpassed, ?_, ?_, ?_, ?_, ?_⟩
  · intro p' hp'
    rw [← List.append_assoc] at hp'
    rcases List.mem_append.1 hp' with hp' | hp'
    · exact hpushes p' hp'
    · rw [List.mem_singleton.1 hp']
      exact hpushes'
  · have hlive := h.resumable p (by simp)
    rw [hline, live_congr hyields.isResumable, live, List.filter_append, List.map_append,
      ← h.line, List.filter_cons_of_pos hlive]
    rfl
  · intro _
    rw [hsame, live_congr hyields.isResumable, h.nobody (by simp)]
  · have hperm : (coming ++ (waiting ++ [p]) ++ passed).Perm
        (p :: coming ++ waiting ++ passed) := by
      rw [← List.append_assoc]
      exact (List.perm_append_singleton p _).append_right passed
    exact (hperm.map _).nodup_iff.2 h.distinct
  · rw [hqueue]
    exact h.capacity
  · rw [hqueue]
    exact h.values

/-- **The first producers are let through, as many as there is space for, and the others go back to
the line in their order.** -/
theorem Marching.ends (h : Marching S q coming waiting passed bound vs M) (hq : q < S.queues)
    (positive : 0 < bound.val) {free : Nat} (hfree : free = bound.val - vs.length) :
    ∃ k, Marching S q [] (waiting ++ coming.drop free) (passed ++ coming.take free) bound
      (vs ++ (coming.take free).map (·.value)) (ticks k M) := by
  induction coming generalizing M waiting passed vs free with
  | nil => exact ⟨0, by simpa [ticks] using h⟩
  | cons p coming ih =>
      rcases Nat.lt_or_ge vs.length bound.val with hspace | hfull
      · obtain ⟨k, hnext⟩ := h.add hq hspace
        have hless : free - 1 = bound.val - (vs ++ [p.value]).length := by
          simp only [List.length_append, List.length_singleton]
          omega
        obtain ⟨k', hend⟩ := ih hnext hless
        obtain ⟨free, rfl⟩ : ∃ n, free = n + 1 := ⟨free - 1, by omega⟩
        refine ⟨k + k', ?_⟩
        rw [ticks_add]
        simpa using hend
      · obtain rfl : free = 0 := by omega
        obtain ⟨k, hnext⟩ := h.wait hq positive hfull
        obtain ⟨k', hend⟩ := ih hnext hfree
        refine ⟨k + k', ?_⟩
        rw [ticks_add]
        simpa using hend

end Setting

end BlockingSync
