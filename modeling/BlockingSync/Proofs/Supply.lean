/-
No wake of a queue is lost.

A wake is meant for one waiter, but a value or a slot may be taken by somebody who comes
by before.  So what holds is a matter of numbers: as long as a live consumer waits, there
are no more values than consumers on their way, and as long as a live producer waits, no
more free slots than producers on their way.  Each operation that adds a value or a slot
sends one more on the way, unless nobody is left who waits.
-/
import BlockingSync.Proofs.Contention
import BlockingSync.Proofs.History

namespace BlockingSync

variable {α : Type}

/-- Whether code is about to do a transaction of a side, with nothing before it but the mutex. -/
def servesSide (q : QueueId) (side : Side) : List (Instr α) → Bool
  | .lock _ :: .transact q' _ tr :: _ | .transact q' _ tr :: _ => q' == q && tr.side? == some side
  | _ => false

variable {q : QueueId} {side : Side}

/-- What a thread that is on the way has left to do. -/
theorem of_servesSide {code : List (Instr α)} (h : servesSide q side code = true) :
    ∃ path tr rest, tr.side? = some side ∧ (code = .transact q path tr :: rest ∨
      ∃ m, code = .lock m :: .transact q path tr :: rest) := by
  unfold servesSide at h
  split at h
  · simp only [Bool.and_eq_true, beq_iff_eq] at h
    obtain ⟨rfl, hside⟩ := h
    exact ⟨_, _, _, hside, .inr ⟨_, rfl⟩⟩
  · simp only [Bool.and_eq_true, beq_iff_eq] at h
    obtain ⟨rfl, hside⟩ := h
    exact ⟨_, _, _, hside, .inl rfl⟩
  · cases h

namespace Machine

/-- Whether a ready thread is on the way to a side of a queue. -/
def isComing (M : Machine α) (q : QueueId) (side : Side) (u : ThreadId) : Bool :=
  servesSide q side (M.ahead u)

/-- How many threads are on the way to a side of a queue. -/
def coming (M : Machine α) (q : QueueId) (side : Side) : Nat :=
  M.ready.countP (M.isComing q side)

/-- The same without the thread that runs. -/
def following (M : Machine α) (q : QueueId) (side : Side) : Nat :=
  M.ready.tail.countP (M.isComing q side)

/-- The same with the thread that runs, once its code is this. -/
def comingBehind (M : Machine α) (q : QueueId) (code : List (Instr α)) (side : Side) : Nat :=
  M.following q side + if servesSide q side code then 1 else 0

/-- Whether a task that has not terminated waits on a condition variable. -/
def IsAwaited (M : Machine α) (c : ConditionId) : Prop :=
  ∃ u ∈ (M.waiters (.condition c)).toList, M.isResumable u = true

variable {M M' : Machine α} {t u : ThreadId}

theorem coming_of_ready {others : List ThreadId} {code : List (Instr α)}
    (hready : M.ready = t :: others) (hahead : M.ahead t = code) :
    M.coming q side = M.comingBehind q code side := by
  subst hahead
  simp only [coming, comingBehind, following, isComing, hready, List.countP_cons, List.tail_cons]
  rfl

theorem isComing_of_ahead (h : M.ahead u ≠ [] → M'.ahead u = M.ahead u)
    (hu : M.isComing q side u = true) : M'.isComing q side u = true := by
  unfold isComing at hu ⊢
  rwa [h ?_]
  intro hnil
  simp [hnil, servesSide] at hu

/-- Whoever is on the way stays so while another thread runs. -/
theorem following_le (hrun : M.ready.head? = some t) {woken : List ThreadId}
    (hready : M'.ready = M.ready ++ woken) (h : ∀ u, M.ahead u ≠ [] → M'.ahead u = M.ahead u) :
    M.following q side + woken.countP (M'.isComing q side) ≤ M'.following q side := by
  obtain ⟨others, hothers⟩ := List.head?_eq_some_iff.1 hrun
  have hle : others.countP (M.isComing q side) ≤ others.countP (M'.isComing q side) :=
    List.countP_mono_left fun u _ => isComing_of_ahead (h u)
  simp only [following, hready, hothers, List.cons_append, List.tail_cons, List.countP_append]
  omega

theorem Changes.following_le {allowed : Effect → Prop} (hc : Changes allowed t M M')
    (hrun : M.ready.head? = some t) : M.following q side ≤ M'.following q side := by
  obtain ⟨woken, hwoken⟩ := hc.ready
  have hle : M.following q side + woken.countP (M'.isComing q side) ≤ M'.following q side :=
    Machine.following_le hrun hwoken fun _ => hc.ahead
  omega

theorem Changes.isAwaited {allowed : Effect → Prop} {c : ConditionId} (hc : Changes allowed t M M')
    (henter : ∀ e, allowed e → e ≠ .enter (.condition c)) (h : M'.IsAwaited c) : M.IsAwaited c := by
  refine hc.keeps (I := fun N => N.IsAwaited c → M.IsAwaited c) ?_ id h
  rintro e N N' he last hN ⟨u, hu, live⟩
  exact hN ⟨u, last.mem_of_mem_waiters (henter e he) hu, last.isResumable live⟩

end Machine

namespace Setting

open Machine

variable {S : Setting α} {M M' : Machine α} {t : ThreadId} {at? : Option Place}

/-! ### Who is on the way -/

variable (S) in
/-- Whether a live task waits for a side of a queue. -/
def Awaits (M : Machine α) (q : QueueId) (side : Side) : Prop := M.IsAwaited (S.condition q side)

theorem isComing_of_woken {u : ThreadId} (hq : q < S.queues) (hs : S.Shaped M)
    (hplace : M.place? u = some (.condition (S.condition q side)))
    (hn : (M.handle u).notified = true) : M.isComing q side u = true := by
  obtain ⟨v, code, hcode⟩ := code_of_place? hplace
  obtain ⟨path, tr, rest, hside, rfl⟩ := (hcode ▸ (hs u).code).transact_of_suspend hq rfl
  rw [isComing, ahead_of_suspend hcode, if_pos hn]
  simp [servesSide, hside]

/-- A wake for a side of a queue leaves no live task there, or sends one on the way. -/
theorem Midway.following_wakeOne (spares : S.SparesTokens) (hq : q < S.queues)
    (h : S.Midway t at? M) (hat : at? ≠ some (.condition (S.condition q side))) :
    ¬ S.Awaits (M.wakeOne (.condition (S.condition q side))).1 q side ∨
      M.following q side + 1 ≤
        (M.wakeOne (.condition (S.condition q side))).1.following q side := by
  have hw := wakeOne_wakes t M (.condition (S.condition q side))
  rcases h.wakeOne spares hat with hnil | ⟨v, hvt, hout, hin, hplace, hn⟩
  · left
    rintro ⟨u, hu, -⟩
    rw [hnil] at hu
    simp at hu
  · right
    obtain ⟨woken, hwoken⟩ := hw.ready
    have hm := h.changes spares hw (by rintro e rfl; exact hat)
    have hcoming : (M.wakeOne (.condition (S.condition q side))).1.isComing q side v = true :=
      isComing_of_woken hq hm.shaped hplace hn
    have hmem : v ∈ woken := by
      rw [hwoken] at hin
      exact (List.mem_append.1 hin).resolve_left hout
    have hpos : 0 < woken.countP
        ((M.wakeOne (.condition (S.condition q side))).1.isComing q side) :=
      List.countP_pos_iff.2 ⟨v, hmem, hcoming⟩
    have hle : M.following q side + woken.countP _ ≤ _ :=
      Machine.following_le h.runs hwoken fun _ => hw.ahead
    omega

/-- The thread that runs goes on with other code. -/
theorem comingBehind_le_coming_setThread {s : Thread α} (hn : M.ready.Nodup)
    (hrun : M.ready.head? = some t) :
    M.comingBehind q s.code side ≤ (M.setThread t s).coming q side := by
  obtain ⟨others, hothers⟩ := List.head?_eq_some_iff.1 hrun
  have hready : (M.setThread t s).ready = t :: others := hothers
  rw [hothers, List.nodup_cons] at hn
  have hsame : (M.setThread t s).following q side = M.following q side := by
    simp only [following, hready, hothers, List.tail_cons]
    refine List.countP_congr fun u hu => ?_
    have hut : t ≠ u := fun hc => hn.1 (hc ▸ hu)
    have hthread : (M.setThread t s).thread u = M.thread u := by
      rw [thread_setThread, if_neg hut]
    simp only [isComing, ahead, hthread]
    exact Iff.rfl
  rw [coming_of_ready hready rfl, comingBehind, comingBehind, hsame]
  refine Nat.add_le_add_left ?_ _
  split
  · rename_i hs
    -- A thread that serves a side does not stand at a suspension.
    have hahead : (M.setThread t s).ahead t = s.code := by
      have hthread : (M.setThread t s).thread t = s := by rw [thread_setThread, if_pos rfl]
      obtain ⟨path, tr, rest, -, hcode | ⟨m, hcode⟩⟩ := of_servesSide hs <;>
        rw [hcode] <;> exact ahead_of_code (by rw [hthread, hcode]) (by simp)
    simp [hahead, hs]
  · exact Nat.zero_le _

/-! ### Enough threads on the way -/

variable (S) in
/-- Whether so many threads on the way to each side of a queue are enough.  After the queue was
cleared there may be more free slots than producers on the way, but one value or one producer there
is even so. -/
structure Supplied (M : Machine α) (q : QueueId) (cleared : Prop) (coming : Side → Nat) : Prop where
  take : S.Awaits M q .take → (M.queue q).values.toList.length ≤ coming .take
  add : S.Awaits M q .add → 0 < (M.queue q).capacity.val ∧
    1 ≤ (M.queue q).values.toList.length + coming .add ∧
    (¬ cleared → (M.queue q).capacity.val ≤ (M.queue q).values.toList.length + coming .add)

variable {cleared cleared' : Prop} {coming coming' : Side → Nat}

theorem Supplied.mono (h : S.Supplied M q cleared coming) (hqueue : M'.queue q = M.queue q)
    (hawaits : ∀ side, S.Awaits M' q side → S.Awaits M q side) (hcleared : cleared → cleared')
    (hcoming : ∀ side, coming side ≤ coming' side) : S.Supplied M' q cleared' coming' := by
  refine ⟨fun ha => ?_, fun ha => ?_⟩ <;> rw [hqueue]
  · exact Nat.le_trans (h.take (hawaits .take ha)) (hcoming .take)
  · obtain ⟨hpos, hone, hslots⟩ := h.add (hawaits .add ha)
    have hle := hcoming .add
    refine ⟨hpos, by omega, fun hno => ?_⟩
    have hslots := hslots fun hc => hno (hcleared hc)
    omega

/-! ### Transactions -/

variable (S) in
/-- What a transaction leaves behind: a queue with new content, with nobody more who waits, and
nobody less on the way. -/
structure Refilled (M : Machine α) (q : QueueId) (s : Queue α) (M' : Machine α) : Prop where
  queue : M'.queue q = s
  awaits : ∀ side, S.Awaits M' q side → S.Awaits M q side
  following : ∀ side, M.following q side ≤ M'.following q side

theorem refilled_setQueue (M : Machine α) (q : QueueId) (s : Queue α) :
    S.Refilled M q s (M.setQueue q s) :=
  ⟨Table.get_set_self .., fun _ h => h, fun _ => Nat.le_refl _⟩

theorem Refilled.wakes {s : Queue α} {p : Place} (h : S.Refilled M q s M')
    (hrun : M'.ready.head? = some t) {M'' : Machine α} (hw : Wakes p t M' M'') :
    S.Refilled M q s M'' := by
  refine ⟨(hw.queue_eq (by rintro e rfl; simp)).trans h.queue, fun side ha => ?_, fun side => ?_⟩
  · exact h.awaits side (hw.isAwaited (by rintro e rfl; simp) ha)
  · exact Nat.le_trans (h.following side) (hw.following_le hrun)

/-- The content of a queue is replaced, and a waiter of one side woken. -/
theorem refilled_wakeOne (spares : S.SparesTokens) (hq : q < S.queues) (hfits : M.Fits S)
    (hm : S.Midway t none M) {s : Queue α} {c : ConditionId} (hc : c = S.condition q side)
    (hmutex : s.mutex = (M.queue q).mutex) (hvalue : s.valueAvailable = (M.queue q).valueAvailable)
    (hspace : s.spaceAvailable = (M.queue q).spaceAvailable) :
    S.Refilled M q s ((M.setQueue q s).wakeOne (.condition c)).1 ∧
      (S.Awaits ((M.setQueue q s).wakeOne (.condition c)).1 q side →
        M.following q side + 1 ≤ ((M.setQueue q s).wakeOne (.condition c)).1.following q side) := by
  subst hc
  have hlt : q < M.queues.size := by rw [hfits.queues]; exact hq
  have hm' : S.Midway t none (M.setQueue q s) :=
    hm.change spares (.refill hlt hmutex hvalue hspace) trivial
  refine ⟨(refilled_setQueue M q s).wakes hm'.runs (wakeOne_wakes t _ _), fun ha => ?_⟩
  exact (hm'.following_wakeOne spares hq (by simp)).resolve_left fun hno => hno ha

/-- A new bound sends a producer on the way for each slot that it adds, as long as any wait. -/
theorem refilled_resize (spares : S.SparesTokens) (hq : q < S.queues) (hfits : M.Fits S)
    (hm : S.Midway t none M) {c : ConditionId} (hc : c = S.condition q .add) (capacity : Word)
    {e : Entry α} (he : e.isFinished = false) (count : Nat) :
    let M' := ((M.setQueue q { M.queue q with capacity }).note e).wakeMany (.condition c) count
    S.Refilled M q { M.queue q with capacity } M' ∧
      (S.Awaits M' q .add → M.following q .add + count ≤ M'.following q .add) := by
  subst hc
  have hlt : q < M.queues.size := by rw [hfits.queues]; exact hq
  have hset : S.Midway t none (M.setQueue q { M.queue q with capacity }) :=
    hm.change spares (.refill hlt rfl rfl rfl) trivial
  have hnote : S.Midway t none ((M.setQueue q { M.queue q with capacity }).note e) :=
    hset.change spares (.note he) trivial
  have hset' : S.Refilled M q { M.queue q with capacity }
      (M.setQueue q { M.queue q with capacity }) := refilled_setQueue M q _
  have hrefilled : S.Refilled M q { M.queue q with capacity }
      ((M.setQueue q { M.queue q with capacity }).note e) :=
    ⟨hset'.queue, fun _ h => h, fun _ => Nat.le_refl _⟩
  refine ⟨hrefilled.wakes hnote.runs (wakeTimes_wakes t _ _ _), fun ha => ?_⟩
  -- Each wake that still leaves somebody has sent one more on the way.
  let I : Nat → Machine α → Prop := fun left N => S.Midway t none N ∧
    (S.Awaits N q .add → M.following q .add + count ≤ N.following q .add + left)
  have hstep : ∀ left N, I (left + 1) N →
      I left (N.wakeOne (.condition (S.condition q .add))).1 := by
    rintro left N ⟨hN, hcount⟩
    have hw := wakeOne_wakes t N (.condition (S.condition q .add))
    refine ⟨hN.changes spares hw (by rintro e rfl; simp [IsMild]), fun ha => ?_⟩
    have hbefore := hcount (hw.isAwaited (by rintro e rfl; simp) ha)
    have hmore := (hN.following_wakeOne spares hq (by simp)).resolve_left fun hno => hno ha
    omega
  obtain ⟨left, ⟨-, hcount⟩, hleft⟩ := wakeMany_lowers (.condition (S.condition q .add)) hstep count
    ((M.setQueue q { M.queue q with capacity }).note e) ⟨hnote, fun _ => Nat.le_refl _⟩
  rcases hleft with rfl | hnil
  · exact hcount ha
  · obtain ⟨u, hu, -⟩ := ha
    rw [hnil] at hu
    simp at hu

theorem Refilled.supplied (values : WaitList α) (capacity : Word)
    (hr : S.Refilled M q { M.queue q with values, capacity } M')
    (take : S.Awaits M' q .take → values.toList.length ≤ M'.following q .take)
    (add : S.Awaits M' q .add → 0 < capacity.val ∧
      1 ≤ values.toList.length + M'.following q .add ∧
      (¬ cleared → capacity.val ≤ values.toList.length + M'.following q .add)) :
    S.Supplied M' q cleared (M'.following q) := by
  refine ⟨?_, ?_⟩ <;> rw [hr.queue]
  · exact take
  · exact add

/-- A value more, and a consumer more on the way. -/
theorem Refilled.supplied_add {v : α}
    (hs : S.Supplied M q cleared fun side => M.following q side + if side = .add then 1 else 0)
    (hr : S.Refilled M q { M.queue q with values := (M.queue q).values.push v } M')
    (hsent : S.Awaits M' q .take → M.following q .take + 1 ≤ M'.following q .take) :
    S.Supplied M' q cleared (M'.following q) := by
  have hlength : ((M.queue q).values.push v).toList.length =
      (M.queue q).values.toList.length + 1 := by simp
  refine hr.supplied _ _ (fun ha => ?_) (fun ha => ?_) <;> rw [hlength]
  · have hvalues : _ ≤ M.following q .take := hs.take (hr.awaits .take ha)
    have hmore := hsent ha
    omega
  · obtain ⟨hpos, -, hslots⟩ := hs.add (hr.awaits .add ha)
    have hkept := hr.following .add
    simp only [if_true] at hslots
    refine ⟨hpos, by omega, fun hno => ?_⟩
    have hslots := hslots hno
    omega

/-- A value less, and a producer more on the way if that leaves space. -/
theorem Refilled.supplied_take {v : α} {rest : WaitList α}
    (hs : S.Supplied M q cleared fun side => M.following q side + if side = .take then 1 else 0)
    (hv : (M.queue q).values.toList = v :: rest.toList)
    (hr : S.Refilled M q { M.queue q with values := rest } M')
    (hsent : { M.queue q with values := rest }.hasSpace = true →
      S.Awaits M' q .add → M.following q .add + 1 ≤ M'.following q .add) :
    S.Supplied M' q cleared (M'.following q) := by
  have hlength : (M.queue q).values.toList.length = rest.toList.length + 1 := by simp [hv]
  refine hr.supplied _ _ (fun ha => ?_) (fun ha => ?_)
  · have hvalues : _ ≤ M.following q .take + 1 := hs.take (hr.awaits .take ha)
    have hkept := hr.following .take
    omega
  · obtain ⟨hpos, -, hslots⟩ := hs.add (hr.awaits .add ha)
    simp only [reduceCtorEq, if_false, Nat.add_zero] at hslots
    by_cases space : { M.queue q with values := rest }.hasSpace = true
    · have hmore := hsent space ha
      refine ⟨hpos, by omega, fun hno => ?_⟩
      have hslots := hslots hno
      omega
    · -- There is no space, so there are values left.
      have hfull : (M.queue q).capacity.val ≤ rest.toList.length := by
        simpa [Queue.hasSpace, hpos] using space
      exact ⟨hpos, by omega, fun _ => by omega⟩

/-- No value, and a producer more on the way. -/
theorem Refilled.supplied_clear {coming : Side → Nat} (hs : S.Supplied M q cleared coming)
    (hclear : cleared)
    (hr : S.Refilled M q { M.queue q with values := (M.queue q).values.clear } M')
    (hsent : S.Awaits M' q .add → M.following q .add + 1 ≤ M'.following q .add) :
    S.Supplied M' q cleared (M'.following q) := by
  have hlength : (M.queue q).values.clear.toList.length = 0 := by simp
  refine hr.supplied _ _ (fun _ => ?_) (fun ha => ?_) <;> rw [hlength]
  · exact Nat.zero_le _
  · obtain ⟨hpos, -, -⟩ := hs.add (hr.awaits .add ha)
    have hmore := hsent ha
    exact ⟨hpos, by omega, fun hno => absurd hclear hno⟩

/-- Another bound, and a producer more on the way for each slot that it adds. -/
theorem Refilled.supplied_resize {capacity : Word} (hs : S.Supplied M q cleared (M.following q))
    (hpos' : 0 < capacity.val) (hr : S.Refilled M q { M.queue q with capacity } M')
    (hsent : S.Awaits M' q .add →
      M.following q .add + (M.queue q).addedSlots capacity ≤ M'.following q .add) :
    S.Supplied M' q cleared (M'.following q) := by
  refine hr.supplied _ _ (fun ha => ?_) (fun ha => ?_)
  · exact Nat.le_trans (hs.take (hr.awaits .take ha)) (hr.following .take)
  · obtain ⟨hpos, hone, hslots⟩ := hs.add (hr.awaits .add ha)
    have hmore := hsent ha
    have hadded : capacity.val ≤ (M.queue q).capacity.val + (M.queue q).addedSlots capacity := by
      rw [Queue.addedSlots, if_pos hpos]
      omega
    refine ⟨hpos', by omega, fun hno => ?_⟩
    have hslots := hslots hno
    omega

/-- **A transaction leaves enough threads on the way.** -/
theorem Transacts.supplied {tr : Transaction α} {r : Result α} (spares : S.SparesTokens)
    (hq : q < S.queues) (hfits : M.Fits S) (hm : S.Midway t none M)
    (hpositive : ∀ capacity, tr = .resize capacity → 0 < capacity.val)
    (h : Transacts M q tr M' r) (hclear : tr = .clear → cleared)
    (hs : S.Supplied M q cleared fun side =>
      M.following q side + if tr.side? = some side then 1 else 0) :
    S.Supplied M' q cleared (M'.following q) := by
  have hvalue : (M.queue q).valueAvailable = S.condition q .take := hfits.condition q hq .take
  have hspace : (M.queue q).spaceAvailable = S.condition q .add := hfits.condition q hq .add
  -- A value is taken by the thread itself, whether it would have waited for one or not.
  have taking : tr = .take ∨ tr = .tryTake → S.Supplied M q cleared fun side =>
      M.following q side + if side = .take then 1 else 0 := by
    rintro (rfl | rfl) <;> refine hs.mono rfl (fun _ => id) id ?_ <;>
      simp [Transaction.side?, eq_comm]
  cases h with
  | ask hside =>
      simp only [hside, reduceCtorEq, if_false, Nat.add_zero] at hs
      exact hs
  | @add v space =>
      obtain ⟨hr, hsent⟩ := refilled_wakeOne spares hq hfits hm
        (s := { M.queue q with values := (M.queue q).values.push v }) hvalue rfl rfl rfl
      refine hr.supplied_add ?_ hsent
      simpa [Transaction.side?, eq_comm] using hs
  | @take tr v rest htr hv space =>
      have hr : S.Refilled M q { M.queue q with values := rest } _ := refilled_setQueue M q _
      refine hr.supplied_take (taking htr) hv fun hspace => ?_
      rw [space] at hspace
      cases hspace
  | @takeWaking tr v rest htr hv space =>
      obtain ⟨hr, hsent⟩ := refilled_wakeOne spares hq hfits hm
        (s := { M.queue q with values := rest }) hspace rfl rfl rfl
      exact hr.supplied_take (taking htr) hv fun _ => hsent
  | clear =>
      obtain ⟨hr, hsent⟩ := refilled_wakeOne spares hq hfits hm
        (s := { M.queue q with values := (M.queue q).values.clear }) hspace rfl rfl rfl
      exact hr.supplied_clear hs (hclear rfl) hsent
  | @resize capacity =>
      obtain ⟨hr, hsent⟩ := refilled_resize spares hq hfits hm hspace capacity
        (e := .resized capacity ((M.queue q).addedSlots capacity)) rfl
        ((M.queue q).addedSlots capacity)
      exact hr.supplied_resize hs (hpositive capacity rfl) hsent

/-! ### Strokes -/

/-- A thread that does no transaction stays on its way. -/
theorem Stroke.keeps_serving {i : Instr α} {more code : List (Instr α)} {step : Nat}
    (hfree : ∀ m, i = .lock m → (M.mutex (S.mutex q)).owner = none)
    (hshape : S.Shape step t (i :: code)) (h : S.Stroke M t i M' (.goOn more))
    (hne : ∀ path tr, i ≠ .transact q path tr) (hs : servesSide q side (i :: code) = true) :
    servesSide q side (more ++ code) = true := by
  obtain ⟨path, tr, rest, hside, hcode | ⟨m, hcode⟩⟩ := of_servesSide hs
  · exact absurd (List.cons.inj hcode).1 (hne path tr)
  · obtain ⟨rfl, rfl⟩ := List.cons.inj hcode
    cases h with
    | claim => simp [servesSide, hside]
    | queueUp ho =>
        -- The mutex of a queue is free whenever somebody is about to take it.
        rcases hshape.of_lock with ⟨-, htrails⟩ | ⟨q', path', tr', rest', rfl, heq, -, -⟩
        · exact absurd (trails_cons.1 htrails).1 id
        · obtain ⟨rfl, -, -⟩ := Instr.transact.inj (List.cons.inj heq).1
          rw [hfree _ rfl] at ho
          cases ho

/-- A thread that has to wait is not needed. -/
theorem Supplied.of_mustWait {coming' : Side → Nat} {side : Side}
    (h : S.Supplied M q cleared fun side' => M.following q side' + if side = side' then 1 else 0)
    (hwait : MustWait (M.queue q) side) (hqueue : M'.queue q = M.queue q)
    (hawaits : ∀ side', side' ≠ side → S.Awaits M' q side' → S.Awaits M q side')
    (hcoming : ∀ side', M.following q side' ≤ coming' side') :
    S.Supplied M' q cleared coming' := by
  cases side with
  | take =>
      have hnil : (M.queue q).values.toList = [] := hwait
      refine ⟨fun _ => by simp [hqueue, hnil], fun ha => ?_⟩
      obtain ⟨hpos, hone, hslots⟩ := h.add (hawaits .add (by simp) ha)
      have hle := hcoming .add
      simp only [reduceCtorEq, if_false, Nat.add_zero] at hone hslots
      rw [hqueue]
      refine ⟨hpos, by omega, fun hno => ?_⟩
      have hslots := hslots hno
      omega
  | add =>
      obtain ⟨hpos, hfull⟩ : 0 < (M.queue q).capacity.val ∧
          (M.queue q).capacity.val ≤ (M.queue q).values.toList.length := by
        simpa [MustWait, Queue.isFull] using hwait
      refine ⟨fun ha => ?_, fun _ => ?_⟩ <;> rw [hqueue]
      · have hvalues : _ ≤ M.following q .take := h.take (hawaits .take (by simp) ha)
        exact Nat.le_trans hvalues (hcoming .take)
      · exact ⟨hpos, by omega, fun _ => by omega⟩

theorem comingBehind_transact (path : Path) (tr : Transaction α) (code : List (Instr α)) :
    M.comingBehind q (.transact q path tr :: code) =
      fun side => M.following q side + if tr.side? = some side then 1 else 0 := by
  funext side
  simp [comingBehind, servesSide]

/-- What is away from a queue leaves enough threads on the way. -/
theorem Supplied.of_isAway {code code' : List (Instr α)}
    (hs : S.Supplied M q cleared (M.comingBehind q code)) (hrun : M.ready.head? = some t)
    (h : Changes (S.IsAway q) t M M')
    (hserves : ∀ side, servesSide q side code = true →
      servesSide q side code' = true) :
    S.Supplied M' q cleared (M'.comingBehind q code') := by
  refine hs.mono (h.queue_eq fun _ he => he.1)
    (fun side => h.isAwaited fun e he hc => he.2 side hc) id fun side => ?_
  have hle : M.following q side ≤ M'.following q side := h.following_le hrun
  unfold comingBehind
  by_cases hserve : servesSide q side code = true
  · rw [if_pos hserve, if_pos (hserves side hserve)]
    omega
  · rw [if_neg hserve]
    omega

/-- After a stroke enough threads are still on the way, the thread itself counted in. -/
theorem Stroke.supplied (spares : S.SparesTokens) (hq : q < S.queues) {i : Instr α}
    {more code : List (Instr α)} (hfits : M.Fits S)
    (hshape : S.Shape (M.thread t).step t (i :: code)) (hi : i.place? = none)
    (hfree : ∀ m, i = .lock m → (M.mutex (S.mutex q)).owner = none)
    (h : S.Stroke M t i M' (.goOn more)) (hm : S.Midway t none M)
    (hclear : ∀ path, i = .transact q path .clear → cleared)
    (hs : S.Supplied M q cleared (M.comingBehind q (i :: code))) :
    S.Supplied M' q cleared (M'.comingBehind q (more ++ code)) := by
  by_cases htransact : ∃ path tr, i = .transact q path tr
  · obtain ⟨path, tr, rfl⟩ := htransact
    rw [comingBehind_transact] at hs
    cases h with
    | @wait _ _ _ side hside hwait =>
        have hleave := leave_changes M (S.condition q side) (S.mutex q) t
        refine Supplied.of_mustWait ?_ hwait (hleave.queue_eq ?_)
          (fun side' hne => hleave.isAwaited ?_) fun side' => hleave.following_le hm.runs
        · simpa [hside] using hs
        · rintro e (rfl | rfl | rfl) <;> simp
        · rintro e (rfl | rfl | rfl) <;> simp only [ne_eq, reduceCtorEq, not_false_eq_true]
          intro hc
          simp only [Effect.enter.injEq, Place.condition.injEq] at hc
          exact hne (S.apart.condition_inj q hq q hq _ _ hc).2.symm
    | transact h =>
        have hserves := hshape.of_transact.1
        exact h.supplied spares hq hfits hm hserves.positive (fun hc => hclear path (by rw [hc])) hs
  · have hne : ∀ path tr, i ≠ .transact q path tr := fun path tr hc => htransact ⟨path, tr, hc⟩
    have hserves : ∀ side, servesSide q side (i :: code) = true →
        servesSide q side (more ++ code) = true :=
      fun side => h.keeps_serving hfree hshape hne
    cases hp : i.isPassive with
    | false => exact hs.of_isAway hm.runs (h.isAway hq hfits hshape hp (by simp) hne) hserves
    | true =>
        cases h with
        | report =>
            have hsame : S.Supplied M q cleared (M.comingBehind q ([] ++ code)) :=
              hs.of_isAway hm.runs .refl hserves
            exact hsame.mono rfl (fun _ => id) id fun _ => Nat.le_refl _
        | pass =>
            obtain ⟨p, rfl⟩ := hshape.place_of_suspend spares
            simp [Instr.place?] at hi
        | _ => simp [Instr.isPassive] at hp

/-! ### Ticks -/

theorem Supplied.setThread {s : Thread α} (h : S.Supplied M q cleared (M.comingBehind q s.code))
    (hn : M.ready.Nodup) (hrun : M.ready.head? = some t) :
    S.Supplied (M.setThread t s) q cleared ((M.setThread t s).coming q) :=
  h.mono rfl (fun _ => id) id fun _ => comingBehind_le_coming_setThread hn hrun

/-- A thread that stops was not on the way to any queue. -/
theorem Supplied.behind (spares : S.SparesTokens) (hs : S.Shaped M)
    (hq : S.Supplied M q cleared (M.coming q)) (h : M.Halts t M') :
    S.Supplied M' q cleared (M'.coming q) := by
  refine hq.mono (h.queue q) ?_ id fun side => ?_
  · rintro side ⟨u, hu, live⟩
    exact ⟨u, by rwa [h.waiters] at hu, by rwa [h.resumable] at live⟩
  · have hno : servesSide q side (M.ahead t) = false := by
      rcases ahead_of_halts spares hs h with hnil | ⟨r, rest, hseize⟩
      · simp [hnil, servesSide]
      · simp [hseize, servesSide]
    rw [coming_of_ready h.ready rfl, comingBehind, if_neg (by simp [hno])]
    simp only [following, coming, h.ready, List.tail_cons, Nat.add_zero]
    exact List.countP_mono_left fun u _ => isComing_of_ahead (ahead_behind h)

/-- A thread that takes its notification stays on its way. -/
theorem Supplied.pass {v : HandleId} {w : Option Place} {code : List (Instr α)}
    {others : List ThreadId} (hs : S.Sound M) (spares : S.SparesTokens)
    (h : S.Supplied M q cleared (M.coming q)) (hready : M.ready = t :: others)
    (hcode : (M.thread t).code = .suspend v w :: code) (hn : (M.handle v).notified = true) :
    S.Supplied ((M.setHandle v { M.handle v with notified := false }).setCode t code) q cleared
      (((M.setHandle v { M.handle v with notified := false }).setCode t code).coming q) := by
  have hshape := hcode ▸ (hs.shaped t).code
  obtain ⟨p, rfl⟩ := hshape.place_of_suspend spares
  obtain rfl : v = t := hshape.handle_of_suspend
  have hnodup : M.ready.Nodup := hs.orderly.ready_nodup
  refine Supplied.setThread (M := M.setHandle v _) ?_ hnodup (by simp [setHandle, hready])
  refine h.mono rfl ?_ id fun side => ?_
  · rintro side ⟨u, hu, live⟩
    exact ⟨u, hu, (keeps_setHandle (!·.terminated) (by rfl) u).symm.trans live⟩
  · have hahead : M.ahead v = code := by rw [ahead_of_suspend hcode, if_pos hn]
    rw [coming_of_ready hready hahead]
    refine Nat.add_le_add_right ?_ _
    rw [hready, List.nodup_cons] at hnodup
    have hready' : (M.setHandle v { M.handle v with notified := false }).ready = v :: others :=
      hready
    simp only [following, hready, hready', List.tail_cons]
    refine List.countP_mono_left fun u hu => isComing_of_ahead (ahead_eq rfl ?_)
    have huv : u ≠ v := fun hc => hnodup.1 (hc ▸ hu)
    rw [handle_setHandle_ne huv]
    exact id

/-- **Whatever a tick can do, enough threads are still on the way.** -/
theorem supplied_of_turn (spares : S.SparesTokens) (hq : q < S.queues) (hs : S.Sound M)
    (hb : ∀ u, M.Balanced u)
    (hclear : ∀ t path code, M.ready.head? = some t →
      (M.thread t).code = .transact q path .clear :: code → cleared)
    (h : S.Supplied M q cleared (M.coming q)) (hturn : S.Turn M M') :
    S.Supplied M' q cleared (M'.coming q) := by
  have hnodup := hs.orderly.ready_nodup
  cases hturn with
  | still => exact h
  | finish hready hidle => exact h.behind spares hs.shaped (.finish hready hidle)
  | @next t others i op pending hready hcode hpending =>
      have hbefore : S.Supplied M q cleared (M.comingBehind q []) :=
        h.mono rfl (fun _ => id) id fun side =>
          Nat.le_of_eq (coming_of_ready hready (ahead_of_nil hcode))
      exact Supplied.setThread hbefore hnodup (by simp [hready])
  | @goOn t others i code N more hready hcode hstroke =>
      have hshape : S.Shape (M.thread t).step t (i :: code) := hcode ▸ (hs.shaped t).code
      cases hi : i.place? with
      | some p =>
          cases hstroke with
          | pass hn => exact h.pass hs spares hready hcode hn
          | _ => simp [Instr.place?] at hi
      | none =>
          have hne : ∀ v w, i ≠ .suspend v w := by
            rintro v w rfl
            obtain ⟨p, rfl⟩ := hshape.place_of_suspend spares
            simp [Instr.place?] at hi
          have hm := Midway.of_balanced hs hb hready ((place?_of_code hcode).trans hi)
          have hfree : ∀ m, i = .lock m → (M.mutex (S.mutex q)).owner = none := by
            rintro m rfl
            exact hs.free_of_lock hready hcode hq
          have hbefore : S.Supplied M q cleared (M.comingBehind q (i :: code)) :=
            h.mono rfl (fun _ => id) id fun side =>
              Nat.le_of_eq (coming_of_ready hready (ahead_of_code hcode hne))
          have hafter := hstroke.supplied spares hq hs.fits hshape hi hfree hm
            (by rintro path rfl; exact hclear t path code (by simp [hready]) hcode) hbefore
          have hm' := hstroke.midway spares hs.fits hshape hi hm
          exact hafter.setThread hm'.orderly.ready_nodup hm'.runs
  | park hready hcode hstroke => exact h.behind spares hs.shaped (hstroke.halts hready hcode)
  | @unwind t others i code N message hready hcode hstroke =>
      have hshape : S.Shape (M.thread t).step t (i :: code) := hcode ▸ (hs.shaped t).code
      have horderly := hstroke.orderly hs.fits hshape hs.orderly (by simp)
      obtain ⟨behind, hready'⟩ := hstroke.ready_behind hs.fits hshape hready
      cases hstroke with
      | @start path op _ _ hbegins =>
          have hbefore : S.Supplied M q cleared (M.comingBehind q (.start path op :: code)) :=
            h.mono rfl (fun _ => id) id fun side =>
              Nat.le_of_eq (coming_of_ready hready (ahead_of_code hcode (by simp)))
          refine Supplied.setThread ?_ horderly.ready_nodup (by simp [hready'])
          refine hbefore.of_isAway (by simp [hready]) (hbegins.isAway hq) fun side hserve => ?_
          simp [servesSide] at hserve

/-! ### Clearing -/

/-- A queue that is being cleared has been cleared when the turn is over. -/
theorem clear_mem_calls {others : List ThreadId} {path : Path} {code : List (Instr α)}
    (hs : S.Sound M) (hturn : S.Turn M M') (hready : M.ready = t :: others)
    (hcode : (M.thread t).code = .transact q path .clear :: code) :
    (.clear, .done) ∈ S.calls q M' := by
  have hshape : S.Shape (M.thread t).step t (.transact q path .clear :: code) :=
    hcode ▸ (hs.shaped t).code
  obtain ⟨verb, hcall, hverb⟩ := hshape.of_transact.1.called
  obtain rfl := List.mem_singleton.1 (mem_verbs hverb)
  rcases hturn.of_code hready hcode with
    ⟨N, more, hstroke, rfl⟩ | ⟨N, hstroke, -⟩ | ⟨_, _, hstroke, -⟩
  · have hthreads := hstroke.threads hs.fits hshape
    obtain ⟨behind, hready'⟩ := hstroke.ready_behind hs.fits hshape hready
    rw [calls, unreported_setCode hthreads hready']
    refine List.mem_append_right _ ?_
    cases hstroke with
    | wait hside => cases hside
    | transact h =>
        cases h with
        | ask _ hkeep => exact absurd rfl hkeep
        | take htr | takeWaking htr => rcases htr with h | h <;> cases h
        | clear =>
            have hagrees : Verb.Agrees (.clear : Verb α) .done [] := trivial
            show _ ∈ S.history q [_]
            rw [history_finished hcall hagrees]
            simp
  · cases hstroke
  · cases hstroke

end Setting

/-! ### Throughout a scenario -/

/-- Whether a thread is about to do a transaction of a side of a queue, or waits in order to. -/
def Machine.IsQueueing (M : Machine α) (q : QueueId) (side : Side) (u : ThreadId) : Prop :=
  ∃ path tr, tr.side? = some side ∧ .transact q path tr ∈ (M.thread u).code

namespace Scenario

open Machine Setting

variable {s : Scenario} {k : Nat} {past : List (Entry Json)} {M : Machine Json} {q : QueueId}
  {side : Side}

theorem isAwaited_of_begin {t : ThreadId} {step : Nat} {ops? : Option (List (Op Json))}
    {c : ConditionId} (h : (M.begin t step ops?).IsAwaited c) : M.IsAwaited c := by
  obtain ⟨u, hu, live⟩ := h
  cases ops? <;> exact ⟨u, hu, isResumable_of_begin live⟩

/-- Enough threads are on the way to both sides of every queue, throughout a scenario. -/
theorem Reaches.supplied (spares : s.sparesTokens = true) (h : s.Reaches k past M)
    (hq : q < s.start.1.queues.size) :
    s.setting.Supplied M q
      ((.clear, .done) ∈ s.setting.history q past ++ s.setting.calls q M) (M.coming q) := by
  induction h with
  | start =>
      have hnone : ∀ side, ¬ s.setting.Awaits s.start.1 q side := by
        rintro side ⟨u, hu, -⟩
        simp [s.start_new.fresh.waiters] at hu
      exact ⟨fun ha => absurd ha (hnone _), fun ha => absurd ha (hnone _)⟩
  | @tick k past M h ih =>
      have hturn := h.sound.turn
      refine supplied_of_turn (sparesTokens_setting spares) hq h.sound (h.balanced spares) ?_
        (ih.mono rfl (fun _ => id) ?_ fun _ => Nat.le_refl _) hturn
      · intro t path code hrun hcode
        obtain ⟨others, hready⟩ := List.head?_eq_some_iff.1 hrun
        exact List.mem_append_right _ (clear_mem_calls h.sound hturn hready hcode)
      · exact ((h.sound.advances hq).behind _).mem
  | @order k past M name order t h still hstep ht idle ih =>
      refine ih.mono ?_ (fun _ => isAwaited_of_begin) ?_ fun side => ?_
      · cases order.ops? <;> rfl
      · rw [calls_of_begin still, calls, unreported_of_over still]
        simp
      · simp [coming, still]
  | refuse _ _ _ _ ih => exact ih

/-- A thread that has stopped before a transaction waits on the list of its side. -/
theorem suspends_of_mem {S : Setting α} {step : Nat} {u : ThreadId} {i : Instr α}
    {code : List (Instr α)} {stop : Stop} {path : Path} {tr : Transaction α}
    (h : S.Shape step u (i :: code)) (hstop : i.stop? = some stop)
    (hmem : .transact q path tr ∈ i :: code) : ∃ side, tr.side? = some side ∧
      q < S.queues ∧ i = .suspend u (some (.condition (S.condition q side))) := by
  have trailing : ∀ {code : List (Instr α)}, S.Trails step code → .transact q path tr ∉ code :=
    fun h hmem => h _ hmem
  cases h with
  | trailing h => exact absurd hmem (trailing h)
  | queueing hs hside h =>
      simp only [List.mem_cons, reduceCtorEq, false_or] at hmem
      rcases hmem with heq | hmem
      · obtain ⟨rfl, rfl, rfl⟩ := Instr.transact.inj heq
        exact ⟨_, hside, hs.lt, rfl⟩
      · exact absurd hmem (trailing h)
  | told _ h | locking _ h | waiting _ _ h | waitingRaw _ h | seize h =>
      exact absurd (by simpa using hmem) (trailing h)
  | report | lock | entering | inside | leaving => cases hstop

/-- A thread that serves a queue when a step is over waits on the list of its side. -/
theorem place?_of_isQueueing (h : s.Reaches k past M) (still : M.ready = []) {u : ThreadId}
    (hu : M.IsQueueing q side u) :
    q < s.start.1.queues.size ∧ M.place? u = some (.condition (s.setting.condition q side)) := by
  obtain ⟨path, tr, hside, hmem⟩ := hu
  rcases h.stopped still u with hi | ⟨stop, hat⟩
  · simp [hi.1] at hmem
  · have hshape := (h.sound.shaped u).code
    cases hcode : (M.thread u).code with
    | nil => simp [hcode] at hmem
    | cons i code =>
        rw [stop?_of_code hcode] at hat
        rw [hcode] at hmem hshape
        obtain ⟨side', hside', hq, rfl⟩ := suspends_of_mem hshape hat hmem
        obtain rfl := Option.some.inj (hside'.symm.trans hside)
        exact ⟨hq, place?_of_code hcode⟩

/-- **No wake of a queue is lost.**  When a step is over, no live task waits to take while there are
values, and none waits to add while there are no values; so no two wait for one another.  If the
queue was never cleared, a live task waits to add only as long as there is no space. -/
theorem not_stuck_of_supply (spares : s.sparesTokens = true) (h : s.Reaches k past M)
    (still : M.ready = []) :
    (∀ u, M.IsQueueing q .take u → M.isResumable u = true → (M.queue q).values.toList = []) ∧
      (∀ u, M.IsQueueing q .add u → M.isResumable u = true → (M.queue q).values.toList ≠ []) ∧
      (∀ u v, M.IsQueueing q .take u → M.IsQueueing q .add v →
        ¬ (M.isResumable u = true ∧ M.isResumable v = true)) ∧
      ((.clear, .done) ∉ s.setting.history q (past ++ M.log) →
        ∀ u, M.IsQueueing q .add u → M.isResumable u = true → 0 < (M.queue q).capacity.val ∧
          (M.queue q).capacity.val ≤ (M.queue q).values.toList.length) := by
  have nobody : ∀ side, M.coming q side = 0 := by simp [coming, still]
  have awaited : ∀ {side u}, M.IsQueueing q side u → M.isResumable u = true →
      q < s.start.1.queues.size ∧ s.setting.Awaits M q side := by
    intro side u hu live
    obtain ⟨hq, hplace⟩ := place?_of_isQueueing h still hu
    exact ⟨hq, u, h.mem_waiters spares still hplace live, live⟩
  have taking : ∀ u, M.IsQueueing q .take u → M.isResumable u = true →
      (M.queue q).values.toList = [] := by
    intro u hu live
    obtain ⟨hq, ha⟩ := awaited hu live
    have hvalues := (h.supplied spares hq).take ha
    rw [nobody] at hvalues
    exact List.eq_nil_of_length_eq_zero (Nat.le_zero.1 hvalues)
  have adding : ∀ u, M.IsQueueing q .add u → M.isResumable u = true →
      (M.queue q).values.toList ≠ [] := by
    intro u hu live hnil
    obtain ⟨hq, ha⟩ := awaited hu live
    obtain ⟨-, hone, -⟩ := (h.supplied spares hq).add ha
    simp [nobody, hnil] at hone
  refine ⟨taking, adding, fun u v hu hv live => adding v hv live.2 (taking u hu live.1), ?_⟩
  intro hclear u hu live
  obtain ⟨hq, ha⟩ := awaited hu live
  obtain ⟨hpos, -, hslots⟩ := (h.supplied spares hq).add ha
  rw [nobody] at hslots
  refine ⟨hpos, hslots ?_⟩
  rwa [calls, unreported_of_over still, history_nil, List.append_nil, ← history_append]

/-- A producer that is stuck at a full queue. -/
def backlog : Scenario where
  tasks := ["producer", "consumer"]
  objects := [("q", .queue (.bounded ⟨1, by decide⟩))]
  steps := [("producer", .run [.onObject "q" (.push (.integer 1)),
    .onObject "q" (.push (.integer 2))])]

theorem not_stuck_in_backlog : (backlog.after 1).IsQueueing 0 .add 0 ∧
    (backlog.after 1).isResumable 0 = true ∧ 0 < ((backlog.after 1).queue 0).capacity.val ∧
    ((backlog.after 1).queue 0).capacity.val ≤
      ((backlog.after 1).queue 0).values.toList.length := by
  have h : backlog.Reaches 1 [] (backlog.after 1) :=
    (Reaches.order .start (by decide) rfl rfl rfl).settle _
  have hstuck : (backlog.after 1).IsQueueing 0 .add 0 :=
    ⟨[1], .add (.integer 2), rfl, .tail _ (.tail _ (.head _))⟩
  have hhistory : backlog.setting.history 0 (backlog.after 1).log = [(.push (.integer 1), .done)] :=
    rfl
  obtain ⟨-, -, -, hfull⟩ := not_stuck_of_supply (q := 0) (by decide) h (by decide)
  exact ⟨hstuck, by decide, hfull (by simp [hhistory]) 0 hstuck (by decide)⟩

end Scenario

end BlockingSync
