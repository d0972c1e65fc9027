/-
Who takes a raw lock, and who gives it back.

A task that has taken a raw lock or given it back can tell from the way it goes on: its
acquisition is over, an attempt or a release has answered yes, or a wait goes on with its
suspension.  `dealingOf` reads a dealing off an instruction and the way it goes on, without
a look at the lock; `Deals` says what the dealing comes to at the lock.  Whatever is no
dealing leaves the lock as it is, but for a thread that parks on it.
-/
import BlockingSync.Proofs.Custody

namespace BlockingSync

variable {α : Type}

/-- What a task can have done with a raw lock. -/
inductive Dealing where
  | takes (t : ThreadId)
  | gives (t : ThreadId)
  deriving DecidableEq

/-- What a task has done with an adapter when an operation on it goes on so. -/
def Verb.dealing? (t : ThreadId) : Verb α → Next α → Option Dealing
  | .tryAcquire, .goOn [.report _ (.flag true)] => some (.takes t)
  | .release, .goOn [.report _ (.flag true)] => some (.gives t)
  | .exclusiveRelease _, .goOn [.report _ (.released true _)] => some (.gives t)
  | _, _ => none

/-- The raw lock behind a lock. -/
def Lockable.raw? : Lockable → Option RawLockId
  | .raw r => some r
  | .native _ | .wrapped _ | .minimal _ => none

namespace Machine

/-- The raw lock that a name means. -/
def adapter? (M : Machine α) (name : String) : Option RawLockId :=
  match M.object? name with
  | some (.adapter r) => some r
  | _ => none

/-- What a task has done with a raw lock when an instruction of it goes on so. -/
def dealingOf (M : Machine α) (r : RawLockId) (t : ThreadId) : Instr α → Next α → Option Dealing
  | .seize r', .goOn _ => if r' = r then some (.takes t) else none
  | .start _ (.onObject _ (.wait lock)), .goOn (.suspend _ _ :: _) =>
    if M.adapter? lock = some r then some (.gives t) else none
  | .start _ (.onObject name verb), next =>
    if M.adapter? name = some r then verb.dealing? t next else none
  | _, _ => none

variable {M M' N : Machine α} {t u : ThreadId} {r : RawLockId} {m : MutexId} {l : Lockable}
  {path : Path}

/-- What a dealing comes to at the lock, and to the threads that are ready. -/
inductive Deals (r : RawLockId) (t : ThreadId) (M N : Machine α) : Option Dealing → Prop
  | stays (same : N.rawLock r = M.rawLock r) : Deals r t M N none
  | parks (taken : (M.rawLock r).locked = true)
      (last : N.rawLock r = { M.rawLock r with parked := (M.rawLock r).parked ++ [t] }) :
      Deals r t M N none
  | takes (free : (M.rawLock r).locked = false)
      (mine : N.rawLock r = { M.rawLock r with locked := true, owner := some t }) :
      Deals r t M N (some (.takes t))
  /-- The thread that parked first is unparked. -/
  | gives (own : (M.rawLock r).owner = some t)
      (free : N.rawLock r = ⟨false, none, (M.rawLock r).parked.tail⟩)
      (ready : N.ready = M.ready ++ (M.rawLock r).parked.take 1) :
      Deals r t M N (some (.gives t))

theorem Deals.congr {d : Option Dealing} (h : Deals r t M N d)
    (hlock : M'.rawLock r = N.rawLock r) (hready : M'.ready = N.ready) : Deals r t M M' d := by
  cases h with
  | stays same => exact .stays (hlock.trans same)
  | parks taken last => exact .parks taken (hlock.trans last)
  | takes free mine => exact .takes free (hlock.trans mine)
  | gives own free ready => exact .gives own (hlock.trans free) (hready.trans ready)

theorem Deals.congr_none (h : Deals r t M N none) (hlock : M'.rawLock r = N.rawLock r) :
    Deals r t M M' none := by
  cases h with
  | stays same => exact .stays (hlock.trans same)
  | parks taken last => exact .parks taken (hlock.trans last)

/-- A thread that parks has done nothing. -/
theorem dealingOf_park (i : Instr α) : M.dealingOf r t i .park = none := by
  cases i with
  | start path op =>
      cases op with
      | onObject name verb =>
          cases verb <;> exact ite_self none
      | _ => rfl
  | _ => rfl

/-! ### What leaves a raw lock as it is -/

theorem Change.rawLock {e : Effect} (h : Change t M e M') (hne : e ≠ .raw r) :
    M'.rawLock r = M.rawLock r := by
  cases h with
  | @adapt r' | @unpark r' =>
      have hrr : r' ≠ r := fun hc => hne (by rw [hc])
      simp [makeReady, Machine.rawLock, setRawLock, Table.get_set, hrr]
  | enter | relist | skip | rouse => simp [enqueue, Machine.note, roused, Machine.rawLock]
  | _ => rfl

theorem Changes.rawLock {allowed : Effect → Prop} (h : Changes allowed t M M')
    (hs : ∀ e, allowed e → e ≠ .raw r) : M'.rawLock r = M.rawLock r :=
  h.keeps (I := fun N => N.rawLock r = M.rawLock r)
    (fun _ _ _ he hc hN => (hc.rawLock (hs _ he)).trans hN) rfl

theorem rawLock_wakeOne (p : Place) : (M.wakeOne p).1.rawLock r = M.rawLock r :=
  (wakeOne_wakes 0 M p).rawLock (by rintro e rfl; simp)

theorem rawLock_wakeAll (p : Place) : (M.wakeAll p).1.rawLock r = M.rawLock r :=
  (wakeAll_wakes 0 M p).rawLock (by rintro e rfl; simp)

theorem rawLock_enqueue (p : Place) : (M.enqueue p u).rawLock r = M.rawLock r := by
  simp [enqueue, Machine.rawLock]

theorem rawLock_leave (c : ConditionId) : (M.leave c m t).rawLock r = M.rawLock r :=
  (leave_changes M c m t).rawLock (by rintro e (rfl | rfl | rfl) <;> simp)

theorem releaseWith_rawLock {action : Action α} (ha : ∀ N, (action N).1.rawLock r = N.rawLock r)
    (runWhenFree : Bool) : (M.releaseWith m action runWhenFree).1.rawLock r = M.rawLock r := by
  unfold releaseWith
  cases (M.mutex m).owner with
  | none =>
      cases runWhenFree with
      | true => exact ha M
      | false => rfl
  | some o => exact (rawLock_wakeOne _).trans (ha _)

theorem performQueue_fst (path : Path) (q : QueueId) (verb : Verb α) :
    (M.performQueue path q verb).1 = M := by
  cases verb with
  | setCapacity capacity =>
      obtain ⟨n, hn⟩ := capacity
      cases n <;> rfl
  | popWith nonBlocking => cases nonBlocking <;> rfl
  | _ => rfl

theorem rawLock_performTasks (path : Path) (list : TaskListId) (verb : Verb α) :
    (M.performTasks path list verb).1.rawLock r = M.rawLock r := by
  cases verb with
  | shift =>
      unfold performTasks
      simp only
      split <;> rfl
  | drainResume limit =>
      exact (resumeEach_changes 0 _ _).rawLock (by rintro e ⟨u, rfl⟩; simp)
  | _ => rfl

theorem rawLock_performTask (path : Path) (h : HandleId) (verb : TaskVerb) :
    (M.performTask t path h verb).1.rawLock r = M.rawLock r := by
  cases verb with
  | resume =>
      unfold performTask
      cases live : M.isResumable h with
      | true => simp only [resume?_of_resumable h live]; rfl
      | false => simp only [resume?_of_not_resumable h live]
  | isSame | pushTo =>
      unfold performTask
      simp only
      split <;> rfl
  | _ => rfl

/-- The operations of the interface leave raw locks alone if the lock has a mutex inside. -/
theorem rawLock_performLockable (hl : l.mutex? = some m) (path : Path) (verb : Verb α) :
    (M.performLockable t path l verb).1.rawLock r = M.rawLock r := by
  have hrelease : ∀ panic,
      (M.exclusiveRelease l t (.ofPanic panic)).1.rawLock r = M.rawLock r := by
    intro panic
    cases l with
    | raw r' => cases hl
    | native m' | wrapped m' | minimal m' =>
        show (M.releaseWith m' (.ofPanic panic) false).1.rawLock r = _
        exact releaseWith_rawLock (fun _ => rfl) false
  cases verb with
  | release | exclusiveRelease => exact hrelease _
  | _ => rfl

theorem rawLock_performMutex (path : Path) (verb : Verb α) :
    (M.performMutex t path m verb).1.rawLock r = M.rawLock r := by
  cases verb with
  | tryLock =>
      simp only [performMutex, tryLock]
      cases (M.mutex m).owner <;> rfl
  | unlock =>
      show (M.releaseWith m (.ofPanic none) false).1.rawLock r = _
      exact releaseWith_rawLock (fun _ => rfl) false
  | exclusiveUnlock panic =>
      show (M.releaseWith m (.ofPanic panic) true).1.rawLock r = _
      exact releaseWith_rawLock (fun _ => rfl) true
  | release | exclusiveRelease => exact rawLock_performLockable (l := .native m) rfl path _
  | _ => rfl

/-! ### Giving back -/

/-- A raw lock that is given back is free, and the thread that parked first goes on. -/
theorem giveBack (M : Machine α) (r : RawLockId) :
    (((M.setRawLock r { M.rawLock r with owner := none }).unlockRaw r).rawLock r =
        ⟨false, none, (M.rawLock r).parked.tail⟩) ∧
      ((M.setRawLock r { M.rawLock r with owner := none }).unlockRaw r).ready =
        M.ready ++ (M.rawLock r).parked.take 1 := by
  have hmine : (M.setRawLock r { M.rawLock r with owner := none }).rawLock r =
      { M.rawLock r with owner := none } := by
    rw [rawLock_setRawLock, if_pos rfl]
  unfold unlockRaw
  simp only [hmine]
  cases hp : (M.rawLock r).parked with
  | nil =>
      refine ⟨?_, (List.append_nil _).symm⟩
      rw [rawLock_setRawLock, if_pos rfl]
      simp
  | cons u parked => simp [makeReady, Machine.rawLock, setRawLock]

theorem rawLock_giveBack (M : Machine α) (r : RawLockId) :
    (((M.setRawLock r { M.rawLock r with owner := none }).unlockRaw r).rawLock r).locked = false ∧
      (((M.setRawLock r { M.rawLock r with owner := none }).unlockRaw r).rawLock r).owner =
        none := by
  rw [(giveBack M r).1]
  exact ⟨rfl, rfl⟩

/-- Other raw locks are not touched. -/
theorem rawLock_giveBack_ne {r' : RawLockId} (hne : r' ≠ r) :
    ((M.setRawLock r' { M.rawLock r' with owner := none }).unlockRaw r').rawLock r =
      M.rawLock r := by
  refine (giveBackRaw_changes 0 M r').rawLock ?_
  rintro e rfl hc
  exact hne (by injection hc)

/-! ### Operations -/

theorem deals_release (panic : Option String) (result : Bool → Result α) {verb : Verb α}
    (hyes : verb.dealing? t (.yield path (result true)) = some (.gives t))
    (hno : verb.dealing? t (.yield path (result false)) = none)
    (hunwind : ∀ message, verb.dealing? t (.unwind message) = none) :
    Deals r t M (M.releaseRaw r t (.ofPanic panic)).1
      (verb.dealing? t (yieldRelease path result (M.releaseRaw r t (.ofPanic panic)).2)) := by
  unfold releaseRaw
  split
  · rename_i own
    cases panic with
    | some message =>
        simp only [Action.ofPanic, yieldRelease, hunwind]
        exact .stays rfl
    | none =>
        obtain ⟨hlock, hready⟩ := giveBack M r
        simp only [Action.ofPanic, yieldRelease, hyes]
        exact .gives own hlock hready
  · simp only [yieldRelease, hno]
    exact .stays rfl

/-- What an operation on an adapter comes to at its lock. -/
theorem performAdapter_deals (path : Path) (r : RawLockId) (verb : Verb α) :
    Deals r t M (M.performAdapter t path r verb).1
      (verb.dealing? t (M.performAdapter t path r verb).2) := by
  cases verb with
  | tryAcquire =>
      simp only [performAdapter, trySeize]
      split
      · exact .stays rfl
      · rename_i free
        exact .takes (by simpa using free) (by rw [rawLock_setRawLock, if_pos rfl])
  | release => exact deals_release none .flag rfl rfl fun _ => rfl
  | exclusiveRelease panic =>
      exact deals_release panic (fun b => .released b b.toNat) rfl rfl fun _ => rfl
  | _ => exact .stays rfl

theorem rawLock_performAdapter_ne {r' : RawLockId} (hne : r' ≠ r) (path : Path) (verb : Verb α) :
    (M.performAdapter t path r' verb).1.rawLock r = M.rawLock r := by
  have hrelease : ∀ panic, (M.releaseRaw r' t (.ofPanic panic)).1.rawLock r = M.rawLock r := by
    intro panic
    unfold releaseRaw
    split
    · cases panic with
      | some message => rfl
      | none => exact rawLock_giveBack_ne hne
    · rfl
  cases verb with
  | tryAcquire =>
      simp only [performAdapter, trySeize]
      split
      · rfl
      · exact (rawLock_setRawLock r' r _).trans (if_neg hne)
  | release => exact hrelease none
  | exclusiveRelease panic => exact hrelease panic
  | _ => rfl

/-- The state after a task has given a raw lock back in order to wait on a condition variable. -/
def leaveRaw (M : Machine α) (c : ConditionId) (r : RawLockId) (t : ThreadId) : Machine α :=
  ((M.enqueue (.condition c) t).setRawLock r
    { (M.enqueue (.condition c) t).rawLock r with owner := none }).unlockRaw r

theorem depart_raw_of_owned {c : ConditionId} (own : (M.rawLock r).owner = some t) :
    M.depart c (.raw r) t = (M.leaveRaw c r t, .departed) := by
  simp [depart, departThrough, isHeldByOther, isOther, exclusiveRelease, releaseRaw, own,
    Action.ofChange, leaveRaw]

/-- A task that departs with a raw lock owns it. -/
theorem owner_of_departed_raw {c : ConditionId} (hd : (M.depart c (.raw r) t).2 = .departed) :
    (M.rawLock r).owner = some t := by
  by_cases own : (M.rawLock r).owner = some t
  · exact own
  · simp only [depart, departThrough, isHeldByOther, exclusiveRelease, releaseRaw,
      if_neg own] at hd
    split at hd <;> simp at hd

theorem leaveRaw_deals (own : (M.rawLock r).owner = some t) (c : ConditionId) :
    Deals r t M (M.leaveRaw c r t) (some (.gives t)) := by
  obtain ⟨hlock, hready⟩ := giveBack (M.enqueue (.condition c) t) r
  rw [rawLock_enqueue] at hlock hready
  exact .gives own hlock (hready.trans (congrArg (· ++ _) (ready_setWaiters _ _)))

theorem depart_deals {c : ConditionId} (hd : (M.depart c l t).2 = .departed) :
    Deals r t M (M.depart c l t).1 (if l.raw? = some r then some (.gives t) else none) := by
  cases hm : l.mutex? with
  | some m =>
      rcases depart_of_departed hd with ⟨m', -, -, heq⟩ | ⟨r', rfl, -⟩
      · have hraw : l.raw? = none := by
          cases l with
          | raw r' => cases hm
          | _ => rfl
        rw [hraw, if_neg (by simp), heq]
        exact .stays (rawLock_leave c)
      · cases hm
  | none =>
      cases l with
      | native m | wrapped m | minimal m => cases hm
      | raw r' =>
          have own := owner_of_departed_raw hd
          rw [depart_raw_of_owned own]
          by_cases hrr : r' = r
          · subst hrr
            rw [Lockable.raw?, if_pos rfl]
            exact leaveRaw_deals own c
          · rw [Lockable.raw?, if_neg (by simpa using hrr)]
            exact .stays ((rawLock_giveBack_ne hrr).trans (rawLock_enqueue _))

theorem dealingOf_yield_wait {name lock : String} {result : Result α} :
    M.dealingOf r t (.start path (.onObject name (.wait lock))) (.yield path result) = none := by
  show (if M.adapter? name = some r then none else none) = none
  exact ite_self none

/-- An operation on an object other than an adapter is no dealing, unless it is a wait. -/
theorem dealingOf_of_not_adapter {name : String} {verb : Verb α} {next : Next α}
    (hname : M.adapter? name ≠ some r) (hwait : ∀ lock, verb ≠ .wait lock) :
    M.dealingOf r t (.start path (.onObject name verb)) next = none := by
  cases verb with
  | wait lock => exact absurd rfl (hwait lock)
  | _ => exact if_neg hname

theorem dealingOf_adapter {name : String} {verb : Verb α} {next : Next α}
    (hname : M.adapter? name = some r) (hwait : ∀ lock, verb ≠ .wait lock) :
    M.dealingOf r t (.start path (.onObject name verb)) next = verb.dealing? t next := by
  cases verb with
  | wait lock => exact absurd rfl (hwait lock)
  | _ => exact if_pos hname

theorem adapter?_of_object {name : String} {o : Object} (ho : M.object? name = some o) :
    M.adapter? name = some r ↔ o = .adapter r := by
  unfold adapter?
  rw [ho]
  cases o <;> simp

theorem performWait_deals {c : ConditionId} {name lock : String} (path : Path) :
    Deals r t M (M.performWait t path c lock).1
      (M.dealingOf r t (.start path (.onObject name (.wait lock)))
        (M.performWait t path c lock).2) := by
  rcases M.performWait_cases t path c lock with ⟨result, h⟩ | ⟨o, l, ho, hl, hd, h⟩
  · rw [h, dealingOf_yield_wait]
    exact .stays rfl
  · rw [h]
    have hsame : M.adapter? lock = l.raw? := by
      unfold adapter?
      rw [ho]
      cases o <;> cases hl <;> rfl
    show Deals r t M (M.depart c l t).1 (if M.adapter? lock = some r then some (.gives t) else none)
    rw [hsame]
    exact depart_deals hd

/-- An operation on an object other than an adapter leaves raw locks alone, unless it is a wait. -/
theorem rawLock_performObject {o : Object} {verb : Verb α} (ho : o ≠ .adapter r)
    (hwait : ∀ lock, verb ≠ .wait lock) (path : Path) :
    (M.performObject t path o verb).1.rawLock r = M.rawLock r := by
  cases o with
  | mutex m => exact rawLock_performMutex path verb
  | condition c =>
      cases verb with
      | wait lock => exact absurd rfl (hwait lock)
      | signal => exact rawLock_wakeOne _
      | broadcast => exact rawLock_wakeAll _
      | _ => rfl
  | queue q => exact congrArg (·.rawLock r) (performQueue_fst path q verb)
  | adapter r' => exact rawLock_performAdapter_ne (by simpa using ho) path verb
  | wrapped m => exact rawLock_performLockable (l := .wrapped m) rfl path verb
  | minimal m => exact rawLock_performLockable (l := .minimal m) rfl path verb
  | task h => rfl
  | tasks list => exact rawLock_performTasks path list verb

/-- A wait is for condition variables; another object does not know it. -/
theorem performObject_wait {o : Object} (ho : ∀ c, o ≠ .condition c) (lock : String)
    (path : Path) : ∃ result, M.performObject t path o (.wait lock) = (M, .yield path result) := by
  cases o with
  | condition c => exact absurd rfl (ho c)
  | _ => exact ⟨_, rfl⟩

/-- **What an operation comes to at a raw lock is told by the way it goes on.** -/
theorem perform_deals (M : Machine α) (t : ThreadId) (path : Path) (op : Op α) (r : RawLockId) :
    Deals r t M (M.perform t path op).1
      (M.dealingOf r t (.start path op) (M.perform t path op).2) := by
  cases op with
  | panic message => exact .stays rfl
  | drop name | synchronize name | guard name =>
      unfold perform
      simp only
      split <;> exact .stays rfl
  | onTask handle verb =>
      unfold perform
      simp only
      split
      · exact .stays rfl
      · exact .stays (rawLock_performTask path _ verb)
  | onObject name verb =>
      unfold perform
      simp only
      by_cases hwait : ∃ lock, verb = .wait lock
      · obtain ⟨lock, rfl⟩ := hwait
        split
        · rw [dealingOf_yield_wait]
          exact .stays rfl
        · rename_i o ho
          by_cases hc : ∃ c, o = .condition c
          · obtain ⟨c, rfl⟩ := hc
            exact performWait_deals path
          · obtain ⟨result, h⟩ := performObject_wait (M := M) (t := t) (o := o)
              (fun c hc' => hc ⟨c, hc'⟩) lock path
            rw [h, dealingOf_yield_wait]
            exact .stays rfl
      · have hverb : ∀ lock, verb ≠ .wait lock := fun lock h => hwait ⟨lock, h⟩
        split
        · rename_i ho
          rw [dealingOf_of_not_adapter (by simp [adapter?, ho]) hverb]
          exact .stays rfl
        · rename_i o ho
          by_cases hr : o = .adapter r
          · subst hr
            rw [dealingOf_adapter ((adapter?_of_object ho).2 rfl) hverb]
            exact performAdapter_deals path r verb
          · rw [dealingOf_of_not_adapter (by rwa [ne_eq, adapter?_of_object ho]) hverb]
            exact .stays (rawLock_performObject hr hverb path)

/-! ### Ticks -/

/-- What the thread that runs does with a raw lock in its next tick. -/
def dealing? (M : Machine α) (r : RawLockId) : Option Dealing :=
  match M.ready with
  | [] => none
  | t :: _ =>
    match (M.thread t).code with
    | [] => none
    | i :: _ => M.dealingOf r t i (M.execute t i).2

end Machine

namespace Setting

open Machine

variable {S : Setting α} {M M' : Machine α} {t : ThreadId} {r : RawLockId} {i : Instr α}
  {code : List (Instr α)} {others : List ThreadId}

theorem execute_deals (h : S.Sound M) (hready : M.ready = t :: others)
    (hcode : (M.thread t).code = i :: code) :
    Deals r t M (M.execute t i).1 (M.dealingOf r t i (M.execute t i).2) := by
  have hdeed := execute_deed h hready hcode
  cases i with
  | start path op => exact perform_deals M t path op r
  | seize r' =>
      cases hlocked : (M.rawLock r').locked with
      | false =>
          have heq : M.execute t (.seize r') =
              (M.setRawLock r' { M.rawLock r' with locked := true, owner := some t },
                .goOn []) := by
            simp [Machine.execute, trySeize, hlocked]
          rw [heq]
          show Deals r t M _ (if r' = r then some (.takes t) else none)
          split
          · subst r'
            exact .takes hlocked (by rw [rawLock_setRawLock, if_pos rfl])
          · rename_i hne
            exact .stays (by rw [rawLock_setRawLock, if_neg hne])
      | true =>
          have heq : M.execute t (.seize r') = (M.setRawLock r'
              { M.rawLock r' with parked := (M.rawLock r').parked ++ [t] }, .park) := by
            simp [Machine.execute, trySeize, hlocked]
          rw [heq]
          show Deals r t M _ none
          by_cases hrr : r' = r
          · subst hrr
            exact .parks hlocked (by rw [rawLock_setRawLock, if_pos rfl])
          · exact .stays (by rw [rawLock_setRawLock, if_neg hrr])
  | lock m =>
      show Deals r t M _ none
      simp only [Machine.execute, tryLock]
      cases (M.mutex m).owner with
      | none => exact .stays rfl
      | some o => exact .stays (rawLock_enqueue _)
  | unlock m =>
      have hsame : (M.releaseWith m (.ofPanic none) false).1.rawLock r = M.rawLock r :=
        releaseWith_rawLock (fun _ => rfl) false
      exact .stays hsame
  | closeGuard m path => exact .stays rfl
  | suspend v w =>
      show Deals r t M _ none
      simp only [Machine.execute]
      split <;> exact .stays rfl
  | transact q path tr =>
      cases hdeed with
      | stroke _ hstroke =>
          show Deals r t M _ none
          generalize M.execute t (.transact q path tr) = result at hstroke ⊢
          obtain ⟨N, next⟩ := result
          cases hstroke with
          | wait => exact .stays (rawLock_leave _)
          | transact htr =>
              have hq : q < S.queues := (hcode ▸ (h.shaped t).code).of_transact.1.lt
              refine .stays ((htr.changes (t := t) h.fits hq).rawLock ?_)
              rintro e he rfl
              exact he
  | report path result => exact .stays rfl

/-- **What a tick comes to at a raw lock is told by the dealing.** -/
theorem Sound.deals (h : S.Sound M) (hready : M.ready = t :: others) (r : RawLockId) :
    Deals r t M M.tick (M.dealing? r) := by
  unfold Machine.tick Machine.dealing?
  rw [hready]
  simp only
  split
  · rename_i hcode _
    rw [hcode]
    exact .stays rfl
  · rename_i hcode _
    rw [hcode]
    exact .stays rfl
  · rename_i i code hcode
    have hexecute := execute_deals (r := r) h hready hcode
    simp only [hcode]
    split <;> rename_i N he <;> rw [he] at hexecute ⊢
    · exact hexecute.congr rfl rfl
    · rw [dealingOf_park] at hexecute ⊢
      exact hexecute.congr_none rfl
    · exact hexecute.congr rfl rfl

end Setting

end BlockingSync
