/-
Whom a raised bound lets through.

A step that only raises the bound of a queue, or only clears it, wakes the first of the
producers that can be resumed: one for every slot that was added, or one.  They become
ready in the order of the line, and the task that gave the order has finished before the
first of them runs; so what remains is a procession (`Proofs/Procession.lean`).  That its
end is the end of the step follows, since a run goes on until nobody is ready and cannot
go two ways.
-/
import BlockingSync.Proofs.Presence
import BlockingSync.Proofs.Procession
import BlockingSync.Proofs.Supply

namespace BlockingSync

variable {α : Type}

namespace Machine

variable {M M' : Machine α} {t : ThreadId} {p : Place} {q : QueueId}

/-! ### Many wakes -/

theorem wakeTimes_of_nobody (h : (M.waiters p).toList = []) (count : Nat) :
    wakeTimes p count M = M := by
  induction count with
  | zero => rfl
  | succ count ih => rw [wakeTimes, wakeOne_of_nobody h, ih]

theorem wakeTimes_add (p : Place) (m n : Nat) (M : Machine α) :
    wakeTimes p (m + n) M = wakeTimes p n (wakeTimes p m M) := by
  induction m generalizing M with
  | zero => rw [Nat.zero_add]; rfl
  | succ m ih =>
      rw [Nat.succ_add]
      exact ih _

/-- **Waking many is waking one as many times**, however many waiters there are. -/
theorem wakeMany_eq_wakeTimes (M : Machine α) (p : Place) (count : Nat) :
    M.wakeMany p count = wakeTimes p count M := by
  unfold wakeMany
  rcases Nat.le_total count (M.waiters p).length with hle | hle
  · rw [Nat.min_eq_left hle]
  · obtain ⟨extra, rfl⟩ := Nat.exists_eq_add_of_le hle
    have hnil : ((wakeTimes p (M.waiters p).length M).waiters p).toList = [] := by
      have hlength := length_wakeTimes p (M.waiters p).length M
      rw [WaitList.length_toList (M.waiters p), Nat.sub_self] at hlength
      exact List.eq_nil_of_length_eq_zero (Nat.le_zero.1 hlength)
    rw [Nat.min_eq_right (Nat.le_add_right _ _), wakeTimes_add, wakeTimes_of_nobody hnil]

/-! ### How a run ends -/

theorem ticks_of_still (still : M.ready = []) (n : Nat) : ticks n M = M := by
  induction n with
  | zero => rfl
  | succ n ih =>
      show ticks n M.tick = M
      rw [tick_eq_self still, ih]

/-! ### Content -/

/-- Nothing has changed but the content of a queue, and the log. -/
structure Refills (q : QueueId) (s : Queue α) (M M' : Machine α) : Prop where
  changes : ∀ t, Changes (fun e => e = .refill q ∨ e = .note) t M M'
  queue : M'.queue q = s
  conditions : M'.conditions = M.conditions
  handles : M'.handles = M.handles
  threads : M'.threads = M.threads
  ready : M'.ready = M.ready

theorem Refills.of_setQueue (hq : q < M.queues.size) {s : Queue α}
    (hmutex : s.mutex = (M.queue q).mutex) (hvalue : s.valueAvailable = (M.queue q).valueAvailable)
    (hspace : s.spaceAvailable = (M.queue q).spaceAvailable) :
    Refills q s M (M.setQueue q s) :=
  ⟨fun _ => .single (.inl rfl) (.refill hq hmutex hvalue hspace), Table.get_set_self .., rfl, rfl,
    rfl, rfl⟩

theorem Refills.note {s : Queue α} (h : Refills q s M M') {e : Entry α}
    (he : e.isFinished = false) : Refills q s M (M'.note e) :=
  ⟨fun t => .step (h.changes t) (.inr rfl) (.note he), h.queue, h.conditions, h.handles, h.threads,
    h.ready⟩

/-- What a queue holds back: the producers in the line that can still be resumed, each of them in
the last operation of its list. -/
structure HoldsBack (M : Machine α) (q : QueueId) (crew : List (Pusher α)) : Prop where
  line : M.live (M.waiters (.condition (M.queue q).spaceAvailable)).toList = crew.map (·.thread)
  pushes : ∀ p ∈ crew, M.Pushes q p

/-- Those who are held back are others than the task that gives the order, and can be resumed. -/
theorem HoldsBack.of_mem {crew : List (Pusher α)} (hcrew : M.HoldsBack q crew)
    (idle : M.IsIdle t) {p : Pusher α} (hp : p ∈ crew) : p.thread ≠ t ∧
      p.thread ∈ (M.waiters (.condition (M.queue q).spaceAvailable)).toList ∧
      M.isResumable p.thread = true := by
  refine ⟨?_, ?_⟩
  · rintro rfl
    have hcode := (hcrew.pushes p hp).code
    rw [idle.1] at hcode
    cases hcode
  · have hp' : p.thread ∈ crew.map (·.thread) := List.mem_map_of_mem hp
    rw [← hcrew.line] at hp'
    exact List.mem_filter.1 hp'

/-- How a step has ended that let producers `through`, and `left` the others in the line. -/
structure Admits (M : Machine α) (q : QueueId) (bound : Word) (vs : List α)
    (through left : List (Pusher α)) : Prop where
  still : M.ready = []
  capacity : (M.queue q).capacity = bound
  values : (M.queue q).values.toList = vs
  idle : ∀ p ∈ through, M.IsIdle p.thread
  line : M.HoldsBack q left
  /-- No other task that can be resumed waits for space. -/
  blocked : ((M.blockedAt (.condition (M.queue q).spaceAvailable)).filter M.isResumable).Perm
    (left.map (·.thread))

/-! ### The order -/

/-- A task is about to begin the only operation of its list, and nothing else has changed. -/
structure Starts (M : Machine α) (t : ThreadId) (op : Op α) (M' : Machine α) : Prop where
  ready : M'.ready = [t]
  code : (M'.thread t).code = [.start [0] op]
  pending : (M'.thread t).pending = []
  thread : ∀ u, u ≠ t → M'.thread u = M.thread u
  queues : M'.queues = M.queues
  conditions : M'.conditions = M.conditions
  handles : M'.handles = M.handles
  names : M'.names = M.names

theorem starts_begin (still : M.ready = []) (t : ThreadId) (step : Nat) (op : Op α) :
    M.Starts t op (M.begin t step (some [op])).tick := by
  have hready : (M.begin t step (some [op])).ready = [t] := by
    show M.ready ++ [t] = [t]
    rw [still, List.nil_append]
  have hthread : ∀ u, (M.begin t step (some [op])).thread u = if t = u then
      { M.thread t with code := [], pending := [(0, op)], step } else M.thread u := fun u =>
    thread_give (M := { M with log := [] }) t u step [op]
  have hself : (M.begin t step (some [op])).thread t =
      { M.thread t with code := [], pending := [(0, op)], step } := by rw [hthread, if_pos rfl]
  have htick : (M.begin t step (some [op])).tick = (M.begin t step (some [op])).setThread t
      { (M.begin t step (some [op])).thread t with
        code := [.start [0] op], pending := [], top := 0 } := by
    simp only [tick, hready, hself]
  refine ⟨?_, ?_, ?_, fun u hu => ?_, ?_, ?_, ?_, ?_⟩ <;> rw [htick]
  · exact hready
  · rw [thread_setThread, if_pos rfl]
  · rw [thread_setThread, if_pos rfl]
  · rw [thread_setThread, if_neg (Ne.symm hu), hthread, if_neg (Ne.symm hu)]
  all_goals rfl

end Machine

namespace Setting

open Machine

variable {S : Setting α} {M M' : Machine α} {t : ThreadId} {p : Place} {q : QueueId}
  {at? : Option Place}

/-- A run goes on until nobody is ready, and cannot go two ways. -/
theorem Sound.run_eq_ticks (h : S.Sound M) {n : Nat} (still : (ticks n M).ready = []) :
    M.run = ticks n M := by
  obtain ⟨n', -, hrun, hend⟩ := h.ends
  rcases Nat.le_total n n' with hle | hle
  · obtain ⟨extra, rfl⟩ := Nat.exists_eq_add_of_le hle
    rw [← hrun, ticks_add, ticks_of_still still]
  · obtain ⟨extra, rfl⟩ := Nat.exists_eq_add_of_le hle
    rw [← hrun] at hend
    rw [ticks_add, ticks_of_still hend, hrun]

/-- **So many wakes make the first of those ready that can be resumed**, in the order of the
line. -/
theorem Midway.ready_wakeTimes (spares : S.SparesTokens) (h : S.Midway t at? M) (hp : at? ≠ some p)
    (count : Nat) : (wakeTimes p count M).ready = M.ready ++ M.woken p count := by
  have hwakes := wakeTimes_wakes t p count M
  obtain ⟨taken, hlist, hready, hlive⟩ := h.wakes spares hp hwakes
  have hrest := live_wakeTimes p count M
  rw [live_congr hlive] at hrest
  have hsplit : M.live taken ++ (M.live (M.waiters p).toList).drop count =
      M.woken p count ++ (M.live (M.waiters p).toList).drop count := by
    rw [woken, List.take_append_drop, ← hrest, live, live, ← List.filter_append, ← hlist]
    rfl
  rw [hready, ← List.append_cancel_right hsplit]
  rfl

/-- A transaction that changes the content of its queue, wakes so many producers, and has come to
its result. -/
def Wakens (S : Setting α) (M : Machine α) (t : ThreadId) (q : QueueId) (path : Path)
    (tr : Transaction α) (s : Queue α) (count : Nat) : Prop :=
  ∃ X r, Refills q s M X ∧ M.transact t q path tr =
    (wakeTimes (.condition (S.condition q .add)) count X,
      .goOn [.unlock (S.mutex q), .report path r])

/-- A raised bound wakes a producer for every slot that it adds. -/
theorem wakens_resize (hfits : M.Fits S) (hq : q < S.queues) (t : ThreadId) (path : Path)
    {s : Queue α} (hqueue : M.queue q = s) (positive : 0 < s.capacity.val) (bound : Word) :
    S.Wakens M t q path (.resize bound) { s with capacity := bound }
      (bound.val - s.capacity.val) := by
  subst hqueue
  have hmutex : (M.queue q).mutex = S.mutex q := hfits.mutex q hq
  have hspace : (M.queue q).spaceAvailable = S.condition q .add := hfits.condition q hq .add
  have hadded : (M.queue q).addedSlots bound = bound.val - (M.queue q).capacity.val :=
    if_pos positive
  have hrefills : Refills q { M.queue q with capacity := bound } M
      (M.setQueue q { M.queue q with capacity := bound }) :=
    .of_setQueue (hfits.queues ▸ hq) rfl rfl rfl
  refine ⟨_, .ok, hrefills.note (e := .resized bound ((M.queue q).addedSlots bound)) rfl, ?_⟩
  rw [← hadded, ← hmutex, ← hspace, ← wakeMany_eq_wakeTimes]
  rfl

/-- To drop all values wakes one producer. -/
theorem wakens_clear (hfits : M.Fits S) (hq : q < S.queues) (t : ThreadId) (path : Path)
    {s : Queue α} (hqueue : M.queue q = s) :
    S.Wakens M t q path .clear { s with values := s.values.clear } 1 := by
  subst hqueue
  have hmutex : (M.queue q).mutex = S.mutex q := hfits.mutex q hq
  have hspace : (M.queue q).spaceAvailable = S.condition q .add := hfits.condition q hq .add
  refine ⟨_, .done, Refills.of_setQueue (hfits.queues ▸ hq) rfl rfl rfl, ?_⟩
  rw [← hmutex, ← hspace]
  rfl

end Setting

/-! ### Throughout a scenario -/

namespace Scenario

open Machine Setting

variable {s : Scenario} {k : Nat} {past : List (Entry Json)} {M : Machine Json} {q : QueueId}
  {t : ThreadId} {task name : String} {verb : Verb Json} {tr : Transaction Json}
  {crew : List (Pusher Json)} {D X : Machine Json} {s' : Queue Json} {count : Nat} {r : Result Json}

/-- Where a live producer waits no live consumer does. -/
theorem no_consumer (spares : s.sparesTokens = true) (h : s.Reaches k past M)
    (still : M.ready = []) (hq : q < s.start.1.queues.size) (ha : s.setting.Awaits M q .add) :
    M.live (M.waiters (.condition (s.setting.condition q .take))).toList = [] := by
  have nobody : ∀ side, M.coming q side = 0 := by simp [coming, still]
  by_contra hne
  obtain ⟨u, hu⟩ := List.exists_mem_of_ne_nil _ hne
  obtain ⟨hmem, hlive⟩ := List.mem_filter.1 hu
  have hnone := (h.supplied spares hq).take ⟨u, hmem, hlive⟩
  obtain ⟨-, hone, -⟩ := (h.supplied spares hq).add ha
  rw [nobody] at hnone hone
  omega

/-- The moment at which the only operation of an order is about to do its transaction; nothing
else has changed since the step before was over. -/
structure Opens (s : Scenario) (k : Nat) (M : Machine Json) (t : ThreadId) (q : QueueId)
    (tr : Transaction Json) (D : Machine Json) : Prop where
  reached : ∃ past, s.Reaches k past D
  ready : D.ready = [t]
  code : (D.thread t).code = [.lock (s.setting.mutex q), .transact q [0] tr]
  pending : (D.thread t).pending = []
  thread : ∀ u, u ≠ t → D.thread u = M.thread u
  queues : D.queues = M.queues
  conditions : D.conditions = M.conditions
  handles : D.handles = M.handles

theorem opens (h : s.Reaches k past M) (still : M.ready = [])
    (hstep : s.steps[k]? = some (task, .run [.onObject name verb])) (ht : M.thread? task = some t)
    (idle : M.status t = .idle) (hname : M.object? name = some (.queue q))
    (hverb : transaction? verb = some tr)
    (hpositive : ∀ capacity, tr = .resize capacity → 0 < capacity.val) :
    Opens s (k + 1) M t q tr (ticks 2 (M.begin t k (some [.onObject name verb]))) := by
  have hbegin : s.Reaches (k + 1) (past ++ M.log) (M.begin t k (some [.onObject name verb])) :=
    h.order still hstep ht idle
  have hq : q < s.setting.queues := s.setting.apart.queue_lt _ _ (h.sound.fits.named _ _ hname)
  have hstarts := starts_begin still t k (.onObject name verb)
  generalize M.begin t k (some [.onObject name verb]) = B at hbegin hstarts ⊢
  have hname' : B.tick.object? name = some (.queue q) := by
    rw [object?, hstarts.names]
    exact hname
  have hexecute : B.tick.execute t (.start [0] (.onObject name verb)) =
      (B.tick, .goOn [.lock (s.setting.mutex q), .transact q [0] tr]) := by
    rw [← hbegin.tick.sound.fits.mutex q hq]
    have hperform : B.tick.perform t [0] (.onObject name verb) = _ ∨ _ :=
      perform_of_transaction hname' hverb
    rcases hperform with he | ⟨capacity, rfl, hzero, -⟩
    · exact he
    · exact absurd (hpositive capacity rfl) (by omega)
  have hsecond : ticks 2 B = B.tick.setCode t [.lock (s.setting.mutex q), .transact q [0] tr] :=
    tick_of_goOn hstarts.ready hstarts.code hexecute
  refine ⟨⟨_, hbegin.ticks 2⟩, ?_, ?_, ?_, fun u hu => ?_, ?_, ?_, ?_⟩ <;> rw [hsecond]
  · exact hstarts.ready
  · rw [thread_setCode, if_pos rfl]
  · rw [thread_setCode, if_pos rfl]
    exact hstarts.pending
  · rw [thread_setCode, if_neg (Ne.symm hu)]
    exact hstarts.thread u hu
  · exact hstarts.queues
  · exact hstarts.conditions
  · exact hstarts.handles

/-- The order finds the queue as the step before has left it. -/
theorem Opens.queue (hopens : Opens s (k + 1) M t q tr D) (hq : q < s.setting.queues) :
    D.tick.queue q = M.queue q := by
  obtain ⟨past', hreached⟩ := hopens.reached
  obtain ⟨hsolo, -⟩ := hreached.sound.solo_lock hq hopens.ready hopens.code
  refine (hsolo.queue q).trans ?_
  rw [Machine.queue, Machine.queue, hopens.queues]

/-- How the transaction of an order leaves the machine that wakes so many of the producers held
back, and changes nothing else but its queue. -/
structure Sends (s : Scenario) (M : Machine Json) (t : ThreadId) (q : QueueId)
    (crew : List (Pusher Json)) (count : Nat) (s' : Queue Json) (N : Machine Json) : Prop where
  ready : N.ready = t :: (crew.take count).map (·.thread)
  notified : ∀ p ∈ crew.take count, (N.handle p.thread).notified = true
  line : M.live (N.waiters (.condition (s.setting.condition q .add))).toList =
    (crew.drop count).map (·.thread)
  takers : N.waiters (.condition (s.setting.condition q .take)) =
    M.waiters (.condition (s.setting.condition q .take))
  isResumable : N.isResumable = M.isResumable
  queue : N.queue q = s'
  thread : ∀ u, u ≠ t → N.thread u = M.thread u
  pending : (N.thread t).pending = []

theorem Opens.sends (spares : s.sparesTokens = true) (hopens : Opens s (k + 1) M t q tr D)
    (h : s.Reaches k past M) (hq : q < s.setting.queues) (hcrew : M.HoldsBack q crew)
    (hrefills : Refills q s' D.tick X) (count : Nat) :
    Sends s M t q crew count s' (wakeTimes (.condition (s.setting.condition q .add)) count X) := by
  obtain ⟨past', hreached⟩ := hopens.reached
  obtain ⟨hsolo, hcode⟩ := hreached.sound.solo_lock hq hopens.ready hopens.code
  have hready : X.ready = [t] := by rw [hrefills.ready, hsolo.ready, hopens.ready]
  have hlive : X.isResumable = M.isResumable := by
    funext u
    simp only [isResumable, handle, hrefills.handles, hsolo.handles, hopens.handles]
  have hlists : ∀ c, X.waiters (.condition c) = M.waiters (.condition c) := by
    intro c
    simp only [waiters, hrefills.conditions, hsolo.conditions, hopens.conditions]
  have hline : X.live (X.waiters (.condition (s.setting.condition q .add))).toList =
      crew.map (·.thread) := by
    have hspace : (M.queue q).spaceAvailable = s.setting.condition q .add :=
      h.sound.fits.condition q hq .add
    rw [hlists, live_congr hlive, ← hcrew.line, hspace]
  have hwoken : X.woken (.condition (s.setting.condition q .add)) count =
      (crew.take count).map (·.thread) := by
    rw [woken, hline, List.map_take]
  have hmidway : s.setting.Midway t none X := by
    have hplace : D.tick.place? t = none := place?_of_code hcode
    have hbefore := Midway.of_balanced hreached.tick.sound (hreached.tick.balanced spares)
      (hsolo.ready.trans hopens.ready) hplace
    refine hbefore.changes (sparesTokens_setting spares) (hrefills.changes t) ?_
    rintro e (rfl | rfl) <;> trivial
  have hwakes := wakeTimes_wakes t (.condition (s.setting.condition q .add)) count X
  have hthreads := hwakes.threads.trans hrefills.threads
  refine ⟨?_, fun p hp => ?_, ?_, ?_, hwakes.isResumable.trans hlive, ?_, fun u hu => ?_, ?_⟩
  · have hready' := hmidway.ready_wakeTimes (sparesTokens_setting spares)
      (p := .condition (s.setting.condition q .add)) (by simp) count
    rw [hready', hready, hwoken]
    rfl
  · rw [handle, handles_wakeTimes, notified_rouseAll, hwoken, Bool.or_eq_true]
    exact .inr (List.contains_iff_mem.2 (List.mem_map_of_mem hp))
  · rw [← live_congr (hwakes.isResumable.trans hlive), live_wakeTimes, hline, List.map_drop]
  · rw [hwakes.waiters_ne (by simpa using (condition_ne hq).symm), hlists]
  · rw [hwakes.queue_eq (by rintro e rfl; simp), hrefills.queue]
  · rw [thread_congr hthreads, hsolo.thread_ne hu, hopens.thread u hu]
  · rw [thread_congr hthreads, hsolo.pending, hopens.pending]

/-- **Producers are sent on their way.**  The order gives the mutex back and has finished before
the first of them runs. -/
theorem Opens.marches (spares : s.sparesTokens = true) (hopens : Opens s (k + 1) M t q tr D)
    (h : s.Reaches k past M) (still : M.ready = []) (hq : q < s.setting.queues)
    (idle : M.IsIdle t) (hcrew : M.HoldsBack q crew) (hrefills : Refills q s' D.tick X)
    (he : D.tick.transact t q [0] tr =
      (wakeTimes (.condition (s.setting.condition q .add)) count X,
        .goOn [.unlock (s.setting.mutex q), .report [0] r])) :
    Marching s.setting q (crew.take count) (crew.drop count) [] s'.capacity s'.values.toList
      (ticks 5 D) := by
  have hsends := hopens.sends spares h hq hcrew hrefills count
  generalize wakeTimes (.condition (s.setting.condition q .add)) count X = N at he hsends
  obtain ⟨past', hreached⟩ := hopens.reached
  have hpasses := hreached.sound.passes hq hopens.ready hopens.code he
  have hend : ticks 5 D = { ticks 4 D with ready := (crew.take count).map (·.thread) } := by
    refine (ticks_add 4 1 D).trans (tick_finish (hpasses.solo.ready.trans hsends.ready) ⟨?_, ?_⟩)
    · exact hpasses.code
    · rw [hpasses.solo.pending, hsends.pending]
  have hthread : ∀ p ∈ crew, (ticks 5 D).thread p.thread = M.thread p.thread := by
    intro p hp
    obtain ⟨hne, -⟩ := hcrew.of_mem idle hp
    rw [hend]
    exact (hpasses.solo.thread_ne hne).trans (hsends.thread _ hne)
  have hlive : (ticks 5 D).isResumable = M.isResumable := by
    rw [hend]
    exact hpasses.solo.isResumable.trans hsends.isResumable
  have hwaiters : ∀ c, (ticks 5 D).waiters (.condition c) = N.waiters (.condition c) := by
    intro c
    rw [hend]
    exact hpasses.solo.waiters c
  have hqueue : (ticks 5 D).queue q = s' := by
    rw [hend]
    exact (hpasses.solo.queue q).trans hsends.queue
  have hsound : s.setting.Sound (ticks 5 D) := (hreached.ticks 5).sound
  refine ⟨hsound, ?_, fun p hp => ?_, fun p hp => ?_, fun p hp => ?_, by simp, ?_, fun hsome => ?_,
    ?_, by rw [hqueue], by rw [hqueue]⟩
  · rw [hend]
  · rw [List.take_append_drop] at hp
    exact pushes_congr (hcrew.pushes p hp) hq h.sound.fits hsound.fits (hthread p hp)
  · rw [hend]
    exact (congrArg Handle.notified (hpasses.solo.handle p.thread)).trans (hsends.notified p hp)
  · rw [hlive]
    exact (hcrew.of_mem idle (List.mem_of_mem_take hp)).2.2
  · rw [hwaiters, live_congr hlive, hsends.line]
  · rw [hwaiters, live_congr hlive, hsends.takers]
    obtain ⟨p, hp⟩ := List.exists_mem_of_ne_nil _ hsome
    obtain ⟨-, hmem, hresumable⟩ := hcrew.of_mem idle (List.mem_of_mem_take hp)
    have hspace : (M.queue q).spaceAvailable = s.setting.condition q .add :=
      h.sound.fits.condition q hq .add
    rw [hspace] at hmem
    exact no_consumer spares h still hq ⟨p.thread, hmem, hresumable⟩
  · rw [List.take_append_drop, List.append_nil, ← hcrew.line]
    exact (h.nodup_waiters spares _).filter _

/-- Where a procession has ended the step is over. -/
theorem admits_of_marching {B : Machine Json} {n : Nat} {bound : Word} {vs : List Json}
    {through left : List (Pusher Json)} (spares : s.sparesTokens = true) (h : s.Reaches k past B)
    (hq : q < s.setting.queues)
    (hmarching : Marching s.setting q [] left through bound vs (ticks n B)) :
    B.run.Admits q bound vs through left := by
  have hreached := h.ticks n
  have hspace : ((ticks n B).queue q).spaceAvailable = s.setting.condition q .add :=
    hmarching.sound.fits.condition q hq .add
  have hline : (ticks n B).HoldsBack q left := by
    refine ⟨?_, fun p hp => hmarching.pushes p (by simpa using hp)⟩
    rw [hspace, hmarching.line]
  rw [h.sound.run_eq_ticks hmarching.ready]
  refine ⟨hmarching.ready, hmarching.capacity, hmarching.values, hmarching.idle, hline, ?_⟩
  rw [← hline.line]
  exact (hreached.resumable_perm spares hmarching.ready _).symm

/-- **The first producers are let through, as many as were woken and as there is space for.** -/
theorem Opens.admits {B : Machine Json} (spares : s.sparesTokens = true)
    (hopens : Opens s (k + 1) M t q tr (ticks 2 B)) {past' : List (Entry Json)}
    (hbegin : s.Reaches (k + 1) past' B) (h : s.Reaches k past M) (still : M.ready = [])
    (hq : q < s.setting.queues) (idle : M.IsIdle t) (hcrew : M.HoldsBack q crew)
    (hwakens : s.setting.Wakens (ticks 3 B) t q [0] tr s' count)
    (positive : 0 < s'.capacity.val) {free : Nat}
    (hfree : free = s'.capacity.val - s'.values.toList.length) :
    B.run.Admits q s'.capacity (s'.values.toList ++ (crew.take (min free count)).map (·.value))
      (crew.take (min free count)) (crew.drop count ++ (crew.take count).drop free) := by
  obtain ⟨X, r, hrefills, he⟩ := hwakens
  have hmarches := hopens.marches spares h still hq idle hcrew hrefills he
  obtain ⟨n, hmarching⟩ := hmarches.ends hq positive hfree
  have hend : ticks n (ticks 5 (ticks 2 B)) = ticks (2 + 5 + n) B := by rw [ticks_add, ticks_add]
  rw [List.take_take, List.nil_append, hend] at hmarching
  exact admits_of_marching spares hbegin hq hmarching

/-- **A raised bound lets the right producers through.**  One producer is woken for every slot that
was added.  As long as there is space the next of them adds its value; once the queue is full they
go back to the line, behind those who were not woken.  If all values are dropped instead, the first
producer alone is let through. -/
theorem raised_bound_admits (spares : s.sparesTokens = true) (h : s.Reaches k past M)
    (still : M.ready = []) (hstep : s.steps[k]? = some (task, .run [.onObject name verb]))
    (ht : M.thread? task = some t) (idle : M.status t = .idle)
    (hname : M.object? name = some (.queue q)) (positive : 0 < (M.queue q).capacity.val)
    (hcrew : M.HoldsBack q crew) :
    let N := (step M k task (.run [.onObject name verb])).1
    let bound := (M.queue q).capacity
    let vs := (M.queue q).values.toList
    (∀ capacity, verb = .setCapacity capacity → bound.val < capacity.val →
      let woken := capacity.val - bound.val
      let free := capacity.val - vs.length
      let through := crew.take (min free woken)
      N.Admits q capacity (vs ++ through.map (·.value)) through
        (crew.drop woken ++ (crew.take woken).drop free)) ∧
    (verb = .clear →
      N.Admits q bound ((crew.take 1).map (·.value)) (crew.take 1) (crew.drop 1)) := by
  intro N bound vs
  have hrun : N = (M.begin t k (some [.onObject name verb])).run := by
    simp only [N, step, ht, idle]
    rfl
  have hq : q < s.setting.queues := s.setting.apart.queue_lt _ _ (h.sound.fits.named _ _ hname)
  have hbegin : s.Reaches (k + 1) (past ++ M.log) (M.begin t k (some [.onObject name verb])) :=
    h.order still hstep ht idle
  have hfits := (hbegin.ticks 3).sound.fits
  constructor
  · rintro capacity rfl hraised woken free through
    have hverb : transaction? (.setCapacity capacity : Verb Json) = some (.resize capacity) := rfl
    have hopens := opens h still hstep ht idle hname hverb (by
      rintro _ ⟨⟩
      exact Nat.zero_lt_of_lt hraised)
    have hwakens := wakens_resize hfits hq t [0] (hopens.queue hq) positive capacity
    have hadmits := hopens.admits spares hbegin h still hq (isIdle_of_status idle) hcrew hwakens
      (Nat.zero_lt_of_lt hraised) (rfl : free = _)
    rw [hrun]
    exact hadmits
  · rintro rfl
    have hverb : transaction? (.clear : Verb Json) = some .clear := rfl
    have hopens := opens h still hstep ht idle hname hverb (by rintro _ ⟨⟩)
    have hwakens := wakens_clear hfits hq t [0] (hopens.queue hq)
    have hadmits := hopens.admits spares hbegin h still hq (isIdle_of_status idle) hcrew hwakens
      positive (show bound.val = _ by simp [bound])
    have hone : min bound.val 1 = 1 := by omega
    have hnone : (crew.take 1).drop bound.val = [] :=
      List.drop_eq_nil_of_le (by simp; omega)
    rw [hone, hnone, List.append_nil] at hadmits
    rw [hrun]
    simpa using hadmits

/-- Two producers wait for space in a queue whose bound was lowered below its length. -/
def thronged : Scenario where
  tasks := ["a", "b", "c"]
  objects := [("q", .queue (.bounded (Word.wrap 2)))]
  steps := [("a", .run [.onObject "q" (.push (.integer 0)), .onObject "q" (.push (.integer 1))]),
    ("b", .run [.onObject "q" (.setCapacity (Word.wrap 1)), .onObject "q" (.push (.integer 2))]),
    ("c", .run [.onObject "q" (.push (.integer 3))]),
    ("a", .run [.onObject "q" (.setCapacity (Word.wrap 3))]), ("a", .run [.onObject "q" .clear])]

theorem raised_bound_admits_of_thronged :
    (thronged.after 4).Admits 0 (Word.wrap 3) [.integer 0, .integer 1, .integer 2]
        [⟨1, [1], .integer 2⟩] [⟨2, [0], .integer 3⟩] ∧
      (thronged.after 5).Admits 0 (Word.wrap 3) [.integer 3] [⟨2, [0], .integer 3⟩] [] := by
  obtain ⟨past, h⟩ := thronged.reaches_after (k := 3) (by decide) (by decide)
  obtain ⟨past', h'⟩ := thronged.reaches_after (k := 4) (by decide) (by decide +kernel)
  have hspace : ((thronged.after 3).queue 0).spaceAvailable = 1 := by decide
  have hmutex : ((thronged.after 3).queue 0).mutex = 0 := by decide
  have hfirst : (thronged.after 3).Pushes 0 ⟨1, [1], .integer 2⟩ :=
    ⟨by rw [hspace, hmutex]; rfl, rfl⟩
  have hsecond : (thronged.after 3).Pushes 0 ⟨2, [0], .integer 3⟩ :=
    ⟨by rw [hspace, hmutex]; rfl, rfl⟩
  have hcrew : (thronged.after 3).HoldsBack 0 [⟨1, [1], .integer 2⟩, ⟨2, [0], .integer 3⟩] :=
    ⟨by decide, by simp [hfirst, hsecond]⟩
  have hraise : thronged.steps[3]? =
      some ("a", .run [.onObject "q" (.setCapacity (Word.wrap 3))]) := rfl
  have hclear : thronged.steps[4]? = some ("a", .run [.onObject "q" .clear]) := rfl
  have hraised := (raised_bound_admits (by decide) h (by decide) hraise rfl rfl rfl (by decide)
    hcrew).1 (Word.wrap 3) rfl (by decide)
  have hcleared := (raised_bound_admits (by decide) h' (by decide +kernel) hclear rfl rfl rfl
    (by decide +kernel) hraised.line).2 rfl
  exact ⟨hraised, hcleared⟩

end Scenario

end BlockingSync
