/-
What a stroke leaves alone.

Nearly every stroke is a row of changes, and the labels of the changes say what they
leave alone.  The others stop the thread that runs, take its notification, or report, and
touch no primitive.
-/
import BlockingSync.Proofs.Stroke

namespace BlockingSync

variable {α : Type}

/-- Whether a change leaves a mutex alone. -/
def Effect.Spares (m : MutexId) (e : Effect) : Prop :=
  (∀ o, e ≠ .own m o) ∧ e ≠ .enter (.mutex m) ∧ e ≠ .wake (.mutex m)

/-- Whether an instruction touches no primitive. -/
def Instr.isPassive : Instr α → Bool
  | .suspend .. | .report .. => true
  | _ => false

namespace Machine

variable {M M' : Machine α} {t : ThreadId}

theorem Changes.threads {allowed : Effect → Prop} (h : Changes allowed t M M') :
    M'.threads = M.threads :=
  h.keeps (I := fun N => N.threads = M.threads) (fun _ _ _ _ hc hN => hc.threads.trans hN) rfl

theorem Changes.ready {allowed : Effect → Prop} (h : Changes allowed t M M') :
    ∃ woken, M'.ready = M.ready ++ woken := by
  refine h.keeps (I := fun N => ∃ woken, N.ready = M.ready ++ woken) ?_ ⟨[], by simp⟩
  rintro e N N' - hc ⟨woken, hN⟩
  obtain ⟨more, hmore⟩ := hc.ready
  exact ⟨woken ++ more, by rw [hmore, hN, List.append_assoc]⟩

theorem Changes.queue_eq {allowed : Effect → Prop} {q : QueueId} (h : Changes allowed t M M')
    (hs : ∀ e, allowed e → e ≠ .refill q) : M'.queue q = M.queue q :=
  h.keeps (I := fun N => N.queue q = M.queue q)
    (fun _ _ _ he hc hN => (hc.queue (hs _ he)).trans hN) rfl

theorem Changes.names {allowed : Effect → Prop} (h : Changes allowed t M M')
    (hs : ∀ e, allowed e → ∀ name, e ≠ .forget name) : M'.names = M.names :=
  h.keeps (I := fun N => N.names = M.names)
    (fun _ _ _ he hc hN => (hc.names (hs _ he)).trans hN) rfl

/-- The log grows by lines that report no operation. -/
theorem Changes.log {allowed : Effect → Prop} (h : Changes allowed t M M') :
    ∃ lines, M'.log = M.log ++ lines ∧ ∀ line ∈ lines, line.isFinished = false := by
  refine h.keeps (I := fun N => ∃ lines, N.log = M.log ++ lines ∧
    ∀ line ∈ lines, line.isFinished = false) ?_ ⟨[], by simp⟩
  rintro e N N' - hc ⟨lines, hN, hlines⟩
  obtain ⟨more, hmore, hmore'⟩ := hc.log
  refine ⟨lines ++ more, by rw [hmore, hN, List.append_assoc], ?_⟩
  intro line hline
  rcases List.mem_append.1 hline with hline | hline
  · exact hlines line hline
  · exact hmore' line hline

theorem Changes.mutex_eq {allowed : Effect → Prop} {m : MutexId} (h : Changes allowed t M M')
    (hs : ∀ e, allowed e → e.Spares m) : M'.mutex m = M.mutex m := by
  refine h.keeps (I := fun N => N.mutex m = M.mutex m) ?_ rfl
  intro e N N' he hc hN
  obtain ⟨hown, henter, hwake⟩ := hs e he
  have howner := hc.owner hown
  have hwaiting : (N'.mutex m).waiting = (N.mutex m).waiting := hc.waiters henter hwake
  rw [← hN]
  cases h' : N'.mutex m
  cases h : N.mutex m
  simp only [h, h'] at howner hwaiting
  rw [howner, hwaiting]

/-! ### Giving a mutex up -/

theorem free_changes (t : ThreadId) (M : Machine α) (m : MutexId) :
    Changes (fun e => e = .own m none ∨ e = .wake (.mutex m)) t M (M.free m) := by
  have hown : Changes (fun e => e = .own m none ∨ e = .wake (.mutex m)) t M (M.setOwner m none) :=
    .single (.inl rfl) (.own m none)
  exact hown.trans ((wakeOne_wakes t _ _).mono fun _ => .inr)

theorem leave_changes (M : Machine α) (c : ConditionId) (m : MutexId) (t : ThreadId) :
    Changes (fun e => e = .own m none ∨ e = .enter (.condition c) ∨ e = .wake (.mutex m)) t M
      (M.leave c m t) := by
  have hown : Changes (fun e => e = .own m none ∨ e = .enter (.condition c) ∨ e = .wake (.mutex m))
      t M ((M.setOwner m none).enqueue (.condition c) t) :=
    .step (.single (.inl rfl) (.own m none)) (.inr (.inl rfl)) (.enter _)
  exact hown.trans ((wakeOne_wakes t _ _).mono fun _ he => .inr (.inr he))

theorem free_mutex_ne {m m' : MutexId} (h : m ≠ m') : (M.free m).mutex m' = M.mutex m' := by
  refine (free_changes 0 M m).mutex_eq ?_
  rintro e (rfl | rfl) <;> simp [Effect.Spares, h]

theorem leave_mutex_ne {c : ConditionId} {m m' : MutexId} (h : m ≠ m') :
    (M.leave c m t).mutex m' = M.mutex m' := by
  refine (leave_changes M c m t).mutex_eq ?_
  rintro e (rfl | rfl | rfl) <;> simp [Effect.Spares, h]

theorem owner_wakeOne (m : MutexId) (p : Place) :
    ((M.wakeOne p).1.mutex m).owner = (M.mutex m).owner := by
  refine (wakeOne_wakes 0 M p).keeps (I := fun N => (N.mutex m).owner = (M.mutex m).owner) ?_ rfl
  rintro e N N' rfl hc hN
  rw [hc.owner (by simp), hN]

@[simp] theorem owner_free (m : MutexId) : ((M.free m).mutex m).owner = none := by
  simp [free, owner_wakeOne, mutex_setOwner]

@[simp] theorem owner_leave (c : ConditionId) (m : MutexId) (t : ThreadId) :
    ((M.leave c m t).mutex m).owner = none := by
  simp [leave, owner_wakeOne, enqueue, owner_setWaiters, mutex_setOwner]

/-- A mutex without waiters has none after its release. -/
theorem waiting_free {m : MutexId} (h : (M.mutex m).waiting.toList = []) :
    ((M.free m).mutex m).waiting.toList = [] := by
  have hsuffix := (wakeOne_wakes 0 (M.setOwner m none) (.mutex m)).suffix
  rw [waiters_setOwner] at hsuffix
  exact List.suffix_nil.1 (h ▸ hsuffix)

theorem waiting_leave {c : ConditionId} {m : MutexId} (h : (M.mutex m).waiting.toList = []) :
    ((M.leave c m t).mutex m).waiting.toList = [] := by
  have hsuffix :=
    (wakeOne_wakes 0 ((M.setOwner m none).enqueue (.condition c) t) (.mutex m)).suffix
  have hsame : ((M.setOwner m none).enqueue (.condition c) t).waiters (.mutex m) =
      (M.mutex m).waiting := by
    rw [enqueue, waiters_setWaiters, if_neg (by simp), waiters_setOwner]
    rfl
  rw [hsame, h] at hsuffix
  exact List.suffix_nil.1 hsuffix

/-! ### Without any change to primitives -/

/-- What stays the same when a thread only stops, takes a notification, or reports. -/
structure Stays (M M' : Machine α) : Prop where
  mutexes : M'.mutexes = M.mutexes
  conditions : M'.conditions = M.conditions
  queues : M'.queues = M.queues
  names : M'.names = M.names
  threads : M'.threads = M.threads
  ready : M'.ready = M.ready

/-- What holds when the thread that ran is not ready any more: it had nothing left to do, or it
parked without a notification.  Neither touches any primitive or token. -/
structure Halts (t : ThreadId) (M M' : Machine α) : Prop where
  ready : M.ready = t :: M'.ready
  stopped : M.IsIdle t ∨ ∃ s, M.stop? t = some s
  unnotified : ∀ v w code, (M.thread t).code = .suspend v w :: code → (M.handle v).notified = false
  mutexes : M'.mutexes = M.mutexes
  conditions : M'.conditions = M.conditions
  queues : M'.queues = M.queues
  threads : M'.threads = M.threads
  log : M'.log = M.log
  notified : ∀ v, (M'.handle v).notified = (M.handle v).notified
  resumable : ∀ v, M'.isResumable v = M.isResumable v

namespace Halts

theorem finish {others : List ThreadId} (hready : M.ready = t :: others) (hidle : M.IsIdle t) :
    M.Halts t { M with ready := others } :=
  ⟨hready, .inl hidle, by simp [hidle.1], rfl, rfl, rfl, rfl, rfl, fun _ => rfl, fun _ => rfl⟩

theorem thread (h : M.Halts t M') (u : ThreadId) : M'.thread u = M.thread u := by
  simp only [Machine.thread, h.threads]

theorem mutex (h : M.Halts t M') (m : MutexId) : M'.mutex m = M.mutex m := by
  simp only [Machine.mutex, h.mutexes]

theorem queue (h : M.Halts t M') (q : QueueId) : M'.queue q = M.queue q := by
  simp only [Machine.queue, h.queues]

theorem waiters (h : M.Halts t M') (p : Place) : M'.waiters p = M.waiters p := by
  cases p <;> simp only [Machine.waiters, h.mutex, h.conditions]

end Halts

end Machine

namespace Setting

variable {S : Setting α} {M M' : Machine α} {t : ThreadId} {q : QueueId} {i : Instr α}
  {code more : List (Instr α)} {step : Nat}

open Machine

/-! ### Inside a transaction -/

variable (S) in
/-- The changes of a transaction. -/
def IsServing (q : QueueId) : Effect → Prop
  | .refill q' => q' = q
  | .wake (.condition c) => ∃ side, c = S.condition q side
  | .note => True
  | _ => False

theorem Transacts.changes {tr : Transaction α} {r : Result α} (hfits : M.Fits S)
    (hq : q < S.queues) (h : Transacts M q tr M' r) : Changes (S.IsServing q) t M M' := by
  have hlt : q < M.queues.size := by rw [hfits.queues]; exact hq
  have refill : ∀ s : Queue α, s.mutex = (M.queue q).mutex →
      s.valueAvailable = (M.queue q).valueAvailable →
      s.spaceAvailable = (M.queue q).spaceAvailable →
      Changes (S.IsServing q) t M (M.setQueue q s) :=
    fun s hm hv hs => .step .refl (e := .refill q) rfl (.refill hlt hm hv hs)
  have value : S.IsServing q (.wake (.condition (M.queue q).valueAvailable)) :=
    ⟨.take, hfits.condition q hq .take⟩
  have space : S.IsServing q (.wake (.condition (M.queue q).spaceAvailable)) :=
    ⟨.add, hfits.condition q hq .add⟩
  have woken : ∀ {N : Machine α} {p : Place}, S.IsServing q (.wake p) →
      Changes (S.IsServing q) t M N → Changes (S.IsServing q) t M (N.wakeOne p).1 :=
    fun hp hN => hN.trans ((wakeOne_wakes t _ _).mono (by rintro e rfl; exact hp))
  cases h with
  | ask => exact .refl
  | add => exact woken value (refill _ rfl rfl rfl)
  | take => exact refill _ rfl rfl rfl
  | takeWaking => exact woken space (refill _ rfl rfl rfl)
  | clear => exact woken space (refill _ rfl rfl rfl)
  | @resize capacity =>
      have noted : ∀ e : Entry α, e.isFinished = false → Changes (S.IsServing q) t M
          ((M.setQueue q { M.queue q with capacity }).note e) :=
        fun e he => .step (refill { M.queue q with capacity } rfl rfl rfl) (e := .note) trivial
          (.note he)
      exact (noted _ rfl).trans ((wakeTimes_wakes t _ _ _).mono (by rintro e rfl; exact space))

/-! ### What a stroke leaves alone -/

theorem Stroke.changes {next : Next α} (hfits : M.Fits S) (hshape : S.Shape step t (i :: code))
    (h : S.Stroke M t i M' next) (hi : i.isPassive = false) (hnext : next ≠ .park) :
    Changes (fun _ => True) t M M' := by
  cases h with
  | start h =>
      cases h with
      | calm h | resumes _ h => exact h.mono fun _ _ => trivial
      | unwind => exact .refl
      | forget => exact .single (e := .forget _) trivial (.forget _)
      | release => exact (free_changes t M _).mono fun _ _ => trivial
      | wait => exact (leave_changes M _ _ t).mono fun _ _ => trivial
      | waitRaw _ _ h =>
          exact (Changes.single (e := .enter _) trivial (.enter _)).trans
            (h.mono fun _ _ => trivial)
  | claim => exact .single (e := .own _ _) trivial (.own _ _)
  | queueUp => exact .single (e := .enter _) trivial (.enter _)
  | unlock => exact (free_changes t M _).mono fun _ _ => trivial
  | unlockFree | closeGuard => exact .refl
  | seize h => exact h.mono fun _ _ => trivial
  | parkRaw | park => exact absurd rfl hnext
  | pass | report => simp [Instr.isPassive] at hi
  | wait => exact (leave_changes M _ _ t).mono fun _ _ => trivial
  | transact h => exact (h.changes hfits hshape.of_transact.1.lt).mono fun _ _ => trivial

theorem Stroke.stays {next : Next α} (h : S.Stroke M t i M' next)
    (hi : i.isPassive = true ∨ next = .park) : M.Stays M' := by
  cases h with
  | parkRaw | pass | park | report => exact ⟨rfl, rfl, rfl, rfl, rfl, rfl⟩
  | start h =>
      rcases hi with hi | rfl
      · simp [Instr.isPassive] at hi
      · exact absurd rfl h.next_ne_park
  | _ => simp [Instr.isPassive] at hi

theorem Stroke.halts {others : List ThreadId} (h : S.Stroke M t i M' .park)
    (hready : M.ready = t :: others) (hcode : (M.thread t).code = i :: code) :
    M.Halts t { M' with ready := M'.ready.tail } := by
  have htail : M.ready = t :: M.ready.tail := by rw [hready, List.tail_cons]
  have hstop : ∀ s, i.stop? = some s → ∃ s, M.stop? t = some s := fun s hs =>
    ⟨s, by rw [stop?_of_code hcode, hs]⟩
  cases h with
  | parkRaw =>
      exact ⟨htail, .inr (hstop _ rfl), by simp [hcode], rfl, rfl, rfl, rfl, rfl, fun _ => rfl,
        fun _ => rfl⟩
  | @park v w hn =>
      refine ⟨htail, .inr (hstop _ rfl), ?_, rfl, rfl, rfl, rfl, rfl,
        keeps_setHandle (·.notified) (by rfl), keeps_setHandle (!·.terminated) (by rfl)⟩
      intro v' w' code' hcode'
      obtain ⟨heq, -⟩ := List.cons.inj (hcode.symm.trans hcode')
      obtain ⟨rfl, -⟩ := Instr.suspend.inj heq
      exact hn
  | start h => exact absurd rfl h.next_ne_park

/-- A stroke is a row of changes, or its thread only stops, takes a notification or reports. -/
theorem Stroke.changes_or_stays {next : Next α} (hfits : M.Fits S)
    (hshape : S.Shape step t (i :: code)) (h : S.Stroke M t i M' next) :
    Changes (fun _ => True) t M M' ∨ M.Stays M' := by
  by_cases hi : i.isPassive = true ∨ next = .park
  · exact .inr (h.stays hi)
  · rw [not_or, Bool.not_eq_true] at hi
    exact .inl (h.changes hfits hshape hi.1 hi.2)

theorem Stroke.fits {next : Next α} (hfits : M.Fits S) (hshape : S.Shape step t (i :: code))
    (h : S.Stroke M t i M' next) : M'.Fits S := by
  rcases h.changes_or_stays hfits hshape with hc | hs
  · exact hfits.changes hc
  · exact hfits.congr hs.queues hs.names

theorem Stroke.threads {next : Next α} (hfits : M.Fits S) (hshape : S.Shape step t (i :: code))
    (h : S.Stroke M t i M' next) : M'.threads = M.threads := by
  rcases h.changes_or_stays hfits hshape with hc | hs
  · exact hc.threads
  · exact hs.threads

theorem Stroke.ready {next : Next α} (hfits : M.Fits S) (hshape : S.Shape step t (i :: code))
    (h : S.Stroke M t i M' next) : ∃ woken, M'.ready = M.ready ++ woken := by
  rcases h.changes_or_stays hfits hshape with hc | hs
  · exact hc.ready
  · exact ⟨[], by rw [hs.ready, List.append_nil]⟩

/-- The thread that runs does so until its stroke is over. -/
theorem Stroke.ready_behind {next : Next α} {others : List ThreadId} (hfits : M.Fits S)
    (hshape : S.Shape step t (i :: code)) (h : S.Stroke M t i M' next)
    (hready : M.ready = t :: others) : ∃ behind, M'.ready = t :: behind := by
  obtain ⟨woken, hwoken⟩ := h.ready hfits hshape
  exact ⟨others ++ woken, by rw [hwoken, hready, List.cons_append]⟩

/-- Names keep their meaning, unless an object is dropped. -/
theorem Begins.names {step : Nat} {path : Path} {op : Op α} {next : Next α}
    (h : S.Begins M t step path op M' next) : M'.names = M.names ∨
      ∃ name leak, op = .drop name ∧ M' = M.forget name ∧
        next = .goOn [.report path (.dropped leak)] := by
  cases h with
  | calm h => exact .inl (h.names (by rintro e he name rfl; exact he))
  | unwind => exact .inl rfl
  | @forget name leak hop => exact .inr ⟨name, leak, hop, rfl, rfl⟩
  | resumes _ h => exact .inl (h.names (by rintro e (rfl | ⟨u, rfl⟩) <;> simp))
  | release => exact .inl ((free_changes t M _).names (by rintro e (rfl | rfl) <;> simp))
  | wait => exact .inl ((leave_changes M _ _ t).names (by rintro e (rfl | rfl | rfl) <;> simp))
  | waitRaw _ _ h =>
      exact .inl ((h.names (by rintro e rfl; simp)).trans (names_setWaiters ..))

theorem Stroke.names {next : Next α} (hfits : M.Fits S) (hshape : S.Shape step t (i :: code))
    (h : S.Stroke M t i M' next) (hstart : ∀ path op, i ≠ .start path op) :
    M'.names = M.names := by
  cases h with
  | start => exact absurd rfl (hstart _ _)
  | queueUp => exact names_setWaiters ..
  | unlock => exact (free_changes t M _).names (by rintro e (rfl | rfl) <;> simp)
  | seize h => exact h.names (by rintro e rfl; simp)
  | wait => exact (leave_changes M _ _ t).names (by rintro e (rfl | rfl | rfl) <;> simp)
  | transact h =>
      refine (h.changes (t := t) hfits hshape.of_transact.1.lt).names ?_
      rintro e he name rfl
      exact he
  | _ => rfl

/-! ### Away from a queue -/

variable (S) in
/-- Whether a change leaves the content of a queue alone, and the lists of its sides to those who
leave them. -/
def IsAway (q : QueueId) (e : Effect) : Prop :=
  e ≠ .refill q ∧ ∀ side, e ≠ .enter (.condition (S.condition q side))

theorem isAway_of_isCalm {e : Effect} (h : S.IsCalm e) : S.IsAway q e := by
  refine ⟨?_, fun side => ?_⟩ <;> rintro rfl <;> exact h

theorem enter_isAway {c : ConditionId} (h : ∀ side, c ≠ S.condition q side) :
    S.IsAway q (.enter (.condition c)) :=
  ⟨by simp, fun side hc => h side (by simpa using hc)⟩

theorem leave_isAway {c : ConditionId} {m : MutexId} (h : ∀ side, c ≠ S.condition q side) :
    Changes (S.IsAway q) t M (M.leave c m t) := by
  refine (leave_changes M c m t).mono ?_
  rintro e (rfl | rfl | rfl)
  · simp [IsAway]
  · exact enter_isAway h
  · simp [IsAway]

theorem free_isAway (m : MutexId) : Changes (S.IsAway q) t M (M.free m) := by
  refine (free_changes t M m).mono ?_
  rintro e (rfl | rfl) <;> simp [IsAway]

theorem raw_isAway {r : RawLockId} (h : Changes (· = .raw r) t M M') :
    Changes (S.IsAway q) t M M' := by
  refine h.mono ?_
  rintro e rfl
  simp [IsAway]

theorem Begins.isAway {step : Nat} {path : Path} {op : Op α} {next : Next α} (hq : q < S.queues)
    (h : S.Begins M t step path op M' next) : Changes (S.IsAway q) t M M' := by
  cases h with
  | calm h => exact h.mono fun _ => isAway_of_isCalm
  | unwind => exact .refl
  | forget => exact .single (by simp [IsAway]) (.forget _)
  | resumes _ h =>
      refine h.mono ?_
      rintro e (rfl | ⟨u, rfl⟩) <;> simp [IsAway]
  | release => exact free_isAway _
  | wait hc => exact leave_isAway fun side => (hc q hq side).symm
  | waitRaw hc _ h =>
      exact (Changes.single (enter_isAway fun side => (hc q hq side).symm) (.enter _)).trans
        (raw_isAway h)

/-- Only a transaction on a queue changes its content, or enters the lists of its sides. -/
theorem Stroke.isAway {i : Instr α} {code : List (Instr α)} {step : Nat} {next : Next α}
    (hq : q < S.queues) (hfits : M.Fits S) (hshape : S.Shape step t (i :: code))
    (h : S.Stroke M t i M' next) (hi : i.isPassive = false) (hnext : next ≠ .park)
    (hne : ∀ path tr, i ≠ .transact q path tr) : Changes (S.IsAway q) t M M' := by
  cases h with
  | start h => exact h.isAway hq
  | claim => exact .single (by simp [IsAway]) (.own _ _)
  | queueUp => exact .single (by simp [IsAway]) (.enter _)
  | unlock => exact free_isAway _
  | unlockFree | closeGuard => exact .refl
  | seize h => exact raw_isAway h
  | parkRaw | park => exact absurd rfl hnext
  | pass | report => simp [Instr.isPassive] at hi
  | @wait q' path tr side =>
      refine leave_isAway fun side' hc => ?_
      obtain ⟨rfl, -⟩ := S.apart.condition_inj q' hshape.of_transact.1.lt q hq _ _ hc
      exact hne path tr rfl
  | @transact q' path tr _ _ h =>
      refine (h.changes hfits hshape.of_transact.1.lt).mono fun e he => ⟨?_, fun side => ?_⟩
      · rintro rfl
        obtain rfl : q = q' := he
        exact hne path tr rfl
      · rintro rfl
        exact he

end Setting

end BlockingSync
