/-
What each operation does when it begins.

`Begins` tells what any operation can do at most, which is enough for what no operation
can break.  What holds only while certain operations keep away needs to know which
operation it was that did something; `Does` says that.  Most operations leave alone all
mutexes and all lists of waiters (`IsAside`), and each of the others has a case of its own.
-/
import BlockingSync.Proofs.Sound

namespace BlockingSync

variable {α : Type}

/-- Whether a change leaves alone all mutexes and all lists of waiters. -/
def Effect.IsAside : Effect → Prop
  | .raw _ | .resume _ | .tasks | .forget _ | .terminate _ => True
  | _ => False

/-- Whether an operation takes a lock and keeps it. -/
def Verb.isTaking : Verb α → Bool
  | .lock | .acquire => true
  | _ => false

/-- Whether an operation gives a lock back. -/
def Verb.isGiving : Verb α → Bool
  | .unlock | .exclusiveUnlock _ | .release | .exclusiveRelease _ => true
  | _ => false

namespace Machine

/-- What a thread goes on with when the operation is over, or can do without public mutexes. -/
inductive Brief (M : Machine α) (path : Path) : Next α → Prop
  | answer {r} : Brief M path (.yield path r)
  | unwind {message} : Brief M path (.unwind message)
  | seize {r} : Brief M path (.goOn [.seize r, .report path .done])
  | enter {name q tr} (ho : M.object? name = some (.queue q)) :
      Brief M path (.goOn [.lock (M.queue q).mutex, .transact q path tr])
  | told {h} : Brief M path (.goOn [.suspend h none, .report path .done])

/-- What an operation does when it begins. -/
inductive Does (M : Machine α) (t : ThreadId) (path : Path) (op : Op α) : Machine α → Next α → Prop
  | aside {M' next} (h : Changes Effect.IsAside t M M') (hn : M.Brief path next) :
      Does M t path op M' next
  | claim {name m} (hop : op = .onObject name .tryLock) (ho : M.object? name = some (.mutex m))
      (free : (M.mutex m).owner = none) :
      Does M t path op (M.setOwner m (some t)) (.yield path (.flag true))
  | give {name verb o m u next} (hop : op = .onObject name verb) (hv : verb.isGiving = true)
      (ho : M.object? name = some o) (hm : o.mutex? = some m)
      (owned : (M.mutex m).owner = some u)
      (hn : (∃ r, next = .yield path r) ∨ ∃ message, next = .unwind message) :
      Does M t path op (M.free m) next
  | take {name verb o m} (hop : op = .onObject name verb) (hv : verb.isTaking = true)
      (ho : M.object? name = some o) (hm : o.mutex? = some m) :
      Does M t path op M (.goOn [.lock m, .report path .done])
  | synchronize {name body m} (hop : op = .synchronize name body)
      (ho : M.object? name = some (.mutex m)) :
      Does M t path op M (.goOn (.lock m :: startBody path body ++
        [.unlock m, .report path (.count body.length)]))
  | guard {name body m} (hop : op = .guard name body) (ho : M.object? name = some (.mutex m)) :
      Does M t path op M (.goOn (.lock m :: startBody path body ++ [.closeGuard m path]))
  | wait {name lock c o l} (hop : op = .onObject name (.wait lock))
      (hc : M.object? name = some (.condition c)) (ho : M.object? lock = some o)
      (hl : lockable? o = some l) (hd : (M.depart c l t).2 = .departed) :
      Does M t path op (M.depart c l t).1
        (.goOn [.suspend t (some (.condition c)), acquire l, .report path .ok])
  | signal {name c} (hop : op = .onObject name .signal)
      (hc : M.object? name = some (.condition c)) :
      Does M t path op (M.wakeOne (.condition c)).1 (.yield path .done)
  | broadcast {name c} (hop : op = .onObject name .broadcast)
      (hc : M.object? name = some (.condition c)) :
      Does M t path op (M.wakeAll (.condition c)).1 (.yield path .done)

variable {M M' : Machine α} {t : ThreadId} {path : Path} {op : Op α} {name : String}

/-- An answer that leaves the state alone. -/
theorem Does.reply (r : Result α) : M.Does t path op M (.yield path r) :=
  .aside .refl .answer

theorem Does.next_ne_park {next : Next α} (h : M.Does t path op M' next) : next ≠ .park := by
  cases h with
  | aside _ hn => cases hn <;> simp [Next.yield]
  | give _ _ _ _ _ hn => rcases hn with ⟨r, rfl⟩ | ⟨message, rfl⟩ <;> simp [Next.yield]
  | _ => simp [Next.yield]

/-! ### Locks -/

theorem mutex?_of_lockable? {o : Object} {l : Lockable} (h : lockable? o = some l) :
    o.mutex? = l.mutex? := by
  cases o <;> simp only [lockable?, Option.some.injEq, reduceCtorEq] at h <;> (subst h; rfl)

theorem acquire_of_mutex? {l : Lockable} {m : MutexId} (h : l.mutex? = some m) :
    acquire (α := α) l = .lock m := by
  cases l <;> simp only [Lockable.mutex?, Option.some.injEq, reduceCtorEq] at h <;> (subst h; rfl)

theorem does_yieldRelease (result : Bool → Result α) (r : Release) :
    M.Does t path op M (yieldRelease path result r) := by
  rcases yieldRelease_cases path result r with ⟨b, h⟩ | ⟨message, h⟩
  · rw [h]
    exact .reply _
  · rw [h]
    exact .aside .refl .unwind

theorem does_releaseWith {verb : Verb α} {o : Object} {m : MutexId}
    (hop : op = .onObject name verb) (hv : verb.isGiving = true) (ho : M.object? name = some o)
    (hm : o.mutex? = some m) (panic : Option String) (runWhenFree : Bool)
    (result : Bool → Result α) :
    M.Does t path op (M.releaseWith m (.ofPanic panic) runWhenFree).1
      (yieldRelease path result (M.releaseWith m (.ofPanic panic) runWhenFree).2) := by
  cases howner : (M.mutex m).owner with
  | none =>
      rw [releaseWith_of_free howner]
      exact does_yieldRelease _ _
  | some u =>
      rw [releaseWith_of_owned howner]
      refine .give hop hv ho hm howner ?_
      rcases yieldRelease_cases path result (.after panic .released) with ⟨b, h⟩ | h
      · exact .inl ⟨_, h⟩
      · exact .inr h

theorem isAside_of_raw {r : RawLockId} {e : Effect} (h : e = .raw r) : e.IsAside := by
  subst h
  trivial

theorem does_releaseRaw (r : RawLockId) (panic : Option String) (result : Bool → Result α) :
    M.Does t path op (M.releaseRaw r t (.ofPanic panic)).1
      (yieldRelease path result (M.releaseRaw r t (.ofPanic panic)).2) := by
  unfold releaseRaw
  split
  · cases panic with
    | some message => exact .aside .refl .unwind
    | none => exact .aside ((giveBackRaw_changes t M r).mono fun _ => isAside_of_raw) .answer
  · exact .reply _

theorem does_exclusiveRelease {verb : Verb α} {o : Object} {l : Lockable}
    (hop : op = .onObject name verb) (hv : verb.isGiving = true) (ho : M.object? name = some o)
    (hl : lockable? o = some l) (panic : Option String) (result : Bool → Result α) :
    M.Does t path op (M.exclusiveRelease l t (.ofPanic panic)).1
      (yieldRelease path result (M.exclusiveRelease l t (.ofPanic panic)).2) := by
  have hm := mutex?_of_lockable? hl
  cases l with
  | native m | wrapped m | minimal m => exact does_releaseWith hop hv ho hm panic false _
  | raw r => exact does_releaseRaw r panic _

theorem performLockable_does {verb : Verb α} {o : Object} {l : Lockable}
    (hop : op = .onObject name verb) (ho : M.object? name = some o) (hl : lockable? o = some l) :
    M.Does t path op (M.performLockable t path l verb).1 (M.performLockable t path l verb).2 := by
  cases verb with
  | acquire =>
      have hm := mutex?_of_lockable? hl
      cases l with
      | native m | wrapped m | minimal m => exact .take hop rfl ho hm
      | raw r => exact .aside .refl .seize
  | release => exact does_exclusiveRelease hop rfl ho hl none _
  | exclusiveRelease panic =>
      exact does_exclusiveRelease hop rfl ho hl panic fun b => .released b b.toNat
  | _ => exact .reply _

theorem does_yieldAudit (leak : Option Leak) : M.Does t path op M (yieldAudit path leak) := by
  cases leak <;> exact .reply _

theorem performMutex_does {verb : Verb α} {m : MutexId} (hop : op = .onObject name verb)
    (ho : M.object? name = some (.mutex m)) :
    M.Does t path op (M.performMutex t path m verb).1 (M.performMutex t path m verb).2 := by
  cases verb with
  | lock => exact .take hop rfl ho rfl
  | tryLock =>
      simp only [performMutex, tryLock]
      cases howner : (M.mutex m).owner with
      | none => exact .claim hop ho howner
      | some u => exact .reply _
  | unlock => exact does_releaseWith hop rfl ho rfl none _ _
  | exclusiveUnlock panic =>
      exact does_releaseWith hop rfl ho rfl panic true (.unlocked · true)
  | audit => exact does_yieldAudit _
  | isLocked | isOwned | owner | numWaiting | debug | json => exact .reply _
  | _ => exact performLockable_does hop ho rfl

theorem performAdapter_does {verb : Verb α} {r : RawLockId} (hop : op = .onObject name verb)
    (ho : M.object? name = some (.adapter r)) :
    M.Does t path op (M.performAdapter t path r verb).1
      (M.performAdapter t path r verb).2 := by
  cases verb with
  | tryAcquire => exact .aside ((trySeize_changes t M r).mono fun _ => isAside_of_raw) .answer
  | isLocked | isHeldByCurrent | debug => exact .reply _
  | _ => exact performLockable_does hop ho rfl

/-! ### Condition variables -/

theorem depart_of_free {c : ConditionId} {l : Lockable} {m : MutexId} (hl : l.mutex? = some m)
    (ho : (M.mutex m).owner = none) : M.depart c l t = (M, .unowned) := by
  cases l with
  | raw r => simp [Lockable.mutex?] at hl
  | native m' =>
      obtain rfl := Option.some.inj hl
      simp only [depart, departNative, ho]
  | wrapped m' | minimal m' =>
      obtain rfl := Option.some.inj hl
      simp [depart, departThrough, isHeldByOther, isOther, exclusiveRelease, releaseWith, ho]

theorem depart_of_owned {c : ConditionId} {l : Lockable} {m : MutexId} (hl : l.mutex? = some m)
    (ho : (M.mutex m).owner = some t) : M.depart c l t = (M.leave c m t, .departed) := by
  cases l with
  | raw r => simp [Lockable.mutex?] at hl
  | native m' =>
      obtain rfl := Option.some.inj hl
      simp only [depart, departNative, ho, if_true]
      rfl
  | wrapped m' | minimal m' =>
      obtain rfl := Option.some.inj hl
      simp only [depart, departThrough, isHeldByOther, isOther, exclusiveRelease, releaseWith, ho]
      simp [Action.ofChange, Release.after, leave]

/-- A lock that knows of another owner refuses the wait. -/
theorem depart_of_other {c : ConditionId} {l : Lockable} {m : MutexId} {u : HandleId}
    (hl : l.mutex? = some m) (ho : (M.mutex m).owner = some u) (hu : u ≠ t)
    (hknows : l ≠ .minimal m) : M.depart c l t = (M, .notOwner) := by
  cases l with
  | raw r => simp [Lockable.mutex?] at hl
  | native m' =>
      obtain rfl := Option.some.inj hl
      simp only [depart, departNative, ho, if_neg hu]
  | wrapped m' =>
      obtain rfl := Option.some.inj hl
      simp [depart, departThrough, isHeldByOther, isOther, ho, hu]
  | minimal m' =>
      obtain rfl := Option.some.inj hl
      exact absurd rfl hknows

/-- A task departs only if it owns the lock, or the lock cannot tell who does. -/
theorem owner_of_departed {c : ConditionId} {l : Lockable} {m : MutexId} (hl : l.mutex? = some m)
    (h : (M.depart c l t).2 = .departed) : (M.mutex m).owner = some t ∨ l = .minimal m := by
  by_cases hmin : l = .minimal m
  · exact .inr hmin
  · left
    cases ho : (M.mutex m).owner with
    | none => simp [depart_of_free hl ho] at h
    | some u =>
        by_cases hu : u = t
        · rw [hu]
        · simp [depart_of_other hl ho hu hmin] at h

/-- What a departure is, by the kind of the lock. -/
theorem depart_of_departed {c : ConditionId} {l : Lockable} (h : (M.depart c l t).2 = .departed) :
    (∃ m, l.mutex? = some m ∧ (∃ u, (M.mutex m).owner = some u) ∧
        (M.depart c l t).1 = M.leave c m t) ∨
      ∃ r, l = .raw r ∧
        Changes (· = .raw r) t (M.enqueue (.condition c) t) (M.depart c l t).1 := by
  cases hm : l.mutex? with
  | some m =>
      left
      rcases depart_mutex (M := M) (t := t) (c := c) hm with ⟨-, hne⟩ | ⟨howner, heq⟩
      · exact absurd h hne
      · exact ⟨m, rfl, howner, by rw [heq]⟩
  | none =>
      right
      cases l with
      | native m | wrapped m | minimal m => simp [Lockable.mutex?] at hm
      | raw r =>
          rcases depart_raw (M := M) (t := t) c r with ⟨-, hne⟩ | ⟨hraw, -⟩
          · exact absurd h hne
          · exact ⟨r, rfl, hraw⟩

/-- Who does not depart leaves everything as it is. -/
theorem depart_of_not_departed {c : ConditionId} {l : Lockable}
    (h : (M.depart c l t).2 ≠ .departed) : (M.depart c l t).1 = M := by
  cases hm : l.mutex? with
  | some m =>
      rcases depart_mutex (M := M) (t := t) (c := c) hm with ⟨hsame, -⟩ | ⟨-, heq⟩
      · exact hsame
      · rw [heq] at h
        exact absurd rfl h
  | none =>
      cases l with
      | native m | wrapped m | minimal m => simp [Lockable.mutex?] at hm
      | raw r =>
          rcases depart_raw (M := M) (t := t) c r with ⟨hsame, -⟩ | ⟨-, hdep⟩
          · exact hsame
          · exact absurd hdep h

/-- A wait is refused or over at once, or the task departs. -/
theorem performWait_cases (M : Machine α) (t : ThreadId) (path : Path) (c : ConditionId)
    (lock : String) :
    (∃ r, M.performWait t path c lock = (M, .yield path r)) ∨
      ∃ o l, M.object? lock = some o ∧ lockable? o = some l ∧ (M.depart c l t).2 = .departed ∧
        M.performWait t path c lock = ((M.depart c l t).1,
          .goOn [.suspend t (some (.condition c)), acquire l, .report path .ok]) := by
  cases ho : M.object? lock with
  | none => exact .inl ⟨_, by rw [performWait, ho]⟩
  | some o =>
      cases hl : lockable? o with
      | none => exact .inl ⟨_, by simp only [performWait, ho, hl]; rfl⟩
      | some l =>
          have hperform : ∀ N d, M.depart c l t = (N, d) → M.performWait t path c lock =
              match d with
              | .departed =>
                (N, .goOn [.suspend t (some (.condition c)), acquire l, .report path .ok])
              | .unowned => (N, .yield path .ok)
              | .notOwner => (N, .yield path (.failed .ownership)) := by
            intro N d hd
            cases d <;> simp only [performWait, ho, hl, hd]
          have hsame : (M.depart c l t).2 ≠ .departed → (M.depart c l t).1 = M :=
            depart_of_not_departed
          cases hd : (M.depart c l t).2 with
          | departed => exact .inr ⟨o, l, rfl, hl, hd, hperform _ .departed (Prod.ext rfl hd)⟩
          | unowned => exact .inl ⟨_, hperform M .unowned (Prod.ext (hsame (by simp [hd])) hd)⟩
          | notOwner => exact .inl ⟨_, hperform M .notOwner (Prod.ext (hsame (by simp [hd])) hd)⟩

theorem performWait_does {c : ConditionId} {lock : String} (hop : op = .onObject name (.wait lock))
    (hc : M.object? name = some (.condition c)) :
    M.Does t path op (M.performWait t path c lock).1 (M.performWait t path c lock).2 := by
  rcases M.performWait_cases t path c lock with ⟨r, h⟩ | ⟨o, l, ho, hl, hd, h⟩
  · rw [h]
    exact .reply _
  · rw [h]
    exact .wait hop hc ho hl hd

theorem performCondition_does {verb : Verb α} {c : ConditionId} (hop : op = .onObject name verb)
    (hc : M.object? name = some (.condition c)) :
    M.Does t path op (M.performCondition t path c verb).1
      (M.performCondition t path c verb).2 := by
  cases verb with
  | wait lock => exact performWait_does hop hc
  | signal => exact .signal hop hc
  | broadcast => exact .broadcast hop hc
  | audit => exact does_yieldAudit _
  | _ => exact .reply _

/-! ### Queues and tasks -/

theorem performQueue_does {verb : Verb α} {q : QueueId} (ho : M.object? name = some (.queue q)) :
    M.Does t path op (M.performQueue path q verb).1 (M.performQueue path q verb).2 := by
  have enter : ∀ tr, M.Does t path op M
      (.goOn [.lock (M.queue q).mutex, .transact q path tr]) :=
    fun tr => .aside .refl (.enter ho)
  cases verb with
  | audit => exact does_yieldAudit _
  | setCapacity capacity =>
      obtain ⟨n, hn⟩ := capacity
      cases n with
      | zero => exact .reply _
      | succ n => exact enter _
  | popWith nonBlocking => cases nonBlocking <;> exact enter _
  | push | pop | shift | clear | isEmpty | length | size | numWaiting | capacity | values =>
      exact enter _
  | _ => exact .reply _

theorem performTasks_does {verb : Verb α} (l : TaskListId) :
    M.Does t path op (M.performTasks path l verb).1 (M.performTasks path l verb).2 := by
  have relisted : ∀ lists, Changes Effect.IsAside t M { M with taskLists := lists } :=
    fun lists => .step .refl (e := .tasks) trivial (.tasks lists)
  cases verb with
  | shift =>
      unfold performTasks
      simp only
      split
      · exact .reply _
      · exact .aside (relisted _) .answer
  | clear => exact .aside (relisted _) .answer
  | drainResume limit =>
      have resumed : ∀ N hs, Changes Effect.IsAside t N (resumeEach (α := α) N hs).1 := by
        intro N hs
        refine (resumeEach_changes t N hs).mono ?_
        intro e he
        obtain ⟨u, rfl⟩ := he
        trivial
      exact .aside ((relisted _).trans (resumed _ _)) .answer
  | _ => exact .reply _

theorem performTask_does (h : HandleId) (verb : TaskVerb) :
    M.Does t path op (M.performTask t path h verb).1 (M.performTask t path h verb).2 := by
  cases verb with
  | suspend => exact .aside .refl .told
  | resume =>
      unfold performTask
      cases live : M.isResumable h with
      | true =>
          simp only [resume?_of_resumable h live]
          exact .aside (.step .refl (e := .resume h) trivial (.resume h)) .answer
      | false =>
          simp only [resume?_of_not_resumable h live]
          exact .reply _
  | terminate => exact .aside (.step .refl (e := .terminate h) trivial (.terminate h)) .answer
  | isSame other =>
      unfold performTask
      simp only
      split <;> exact .reply _
  | pushTo list times =>
      unfold performTask
      simp only
      split
      · exact .aside (.step .refl (e := .tasks) trivial (.tasks _)) .answer
      · exact .reply _
  | _ => exact .reply _

/-! ### All operations -/

theorem performObject_does {verb : Verb α} {o : Object} (hop : op = .onObject name verb)
    (ho : M.object? name = some o) :
    M.Does t path op (M.performObject t path o verb).1 (M.performObject t path o verb).2 := by
  cases o with
  | mutex m => exact performMutex_does hop ho
  | condition c => exact performCondition_does hop ho
  | queue q => exact performQueue_does ho
  | adapter r => exact performAdapter_does hop ho
  | wrapped m | minimal m => exact performLockable_does hop ho rfl
  | task h => exact .reply _
  | tasks l => exact performTasks_does l

/-- **Whatever an operation does when it begins is told by `Does`.** -/
theorem perform_does (M : Machine α) (t : ThreadId) (path : Path) (op : Op α) :
    M.Does t path op (M.perform t path op).1 (M.perform t path op).2 := by
  cases op with
  | panic message => exact .aside .refl .unwind
  | drop name =>
      unfold perform
      simp only
      split
      · exact .reply _
      · exact .aside (.step .refl (e := .forget name) trivial (.forget name)) .answer
  | onTask handle verb =>
      unfold perform
      simp only
      split
      · exact .reply _
      · exact performTask_does _ verb
  | onObject name verb =>
      unfold perform
      simp only
      split
      · exact .reply _
      · rename_i o ho
        exact performObject_does rfl ho
  | synchronize name body =>
      unfold perform
      simp only
      split
      · exact .reply _
      · rename_i m ho
        exact .synchronize rfl ho
      · exact .reply _
  | guard name body =>
      unfold perform
      simp only
      split
      · exact .reply _
      · rename_i m ho
        exact .guard rfl ho
      · exact .reply _

/-- Whatever an operation does when it begins is a row of changes. -/
theorem Does.changes {next : Next α} (h : M.Does t path op M' next) :
    Changes (fun _ => True) t M M' := by
  cases h with
  | aside h => exact h.mono fun _ _ => trivial
  | claim => exact .single (e := .own _ _) trivial (.own _ _)
  | give => exact (free_changes t M _).mono fun _ _ => trivial
  | take | synchronize | guard => exact .refl
  | @wait _ _ c _ _ _ _ _ _ hd =>
      rcases depart_of_departed hd with ⟨m, -, -, heq⟩ | ⟨r, -, hraw⟩
      · rw [heq]
        exact (leave_changes M c m t).mono fun _ _ => trivial
      · have henter : Changes (fun _ => True) t M (M.enqueue (.condition c) t) :=
          .single (e := .enter _) trivial (.enter _)
        exact henter.trans (hraw.mono fun _ _ => trivial)
  | signal => exact (wakeOne_wakes t M _).mono fun _ _ => trivial
  | broadcast => exact (wakeAll_wakes t M _).mono fun _ _ => trivial

end Machine

/-! ### Ticks -/

namespace Setting

variable (S : Setting α)

/-- What an instruction of the thread that runs does; `Stroke`, but with the operation that
begins. -/
inductive Deed (M : Machine α) (t : ThreadId) : Instr α → Machine α → Next α → Prop
  | start {path op M' next} (hop : S.find? (M.thread t).step path = some op)
      (h : M.Does t path op M' next) : Deed M t (.start path op) M' next
  | stroke {i M' next} (hi : ∀ path op, i ≠ .start path op) (h : S.Stroke M t i M' next) :
      Deed M t i M' next

/-- What a tick does; `Turn`, but with the operation that begins. -/
inductive Move (M : Machine α) : Machine α → Prop
  | still (hready : M.ready = []) : Move M M
  | finish {t others} (hready : M.ready = t :: others) (hidle : M.IsIdle t) :
      Move M { M with ready := others }
  | next {t others i op pending} (hready : M.ready = t :: others) (hcode : (M.thread t).code = [])
      (hpending : (M.thread t).pending = (i, op) :: pending) :
      Move M (M.setThread t { M.thread t with code := [.start [i] op], pending, top := i })
  | goOn {t others i code M' more} (hready : M.ready = t :: others)
      (hcode : (M.thread t).code = i :: code) (h : S.Deed M t i M' (.goOn more)) :
      Move M (M'.setCode t (more ++ code))
  | park {t others i code M'} (hready : M.ready = t :: others)
      (hcode : (M.thread t).code = i :: code) (h : S.Stroke M t i M' .park) :
      Move M { M' with ready := M'.ready.tail }
  | unwind {t others path op code M' message} (hready : M.ready = t :: others)
      (hcode : (M.thread t).code = .start path op :: code)
      (hop : S.find? (M.thread t).step path = some op)
      (h : M.Does t path op M' (.unwind message)) :
      Move M (M'.setCode t
        (Machine.cleanup code ++ [.report [(M.thread t).top] (.panicked message)]))

variable {S} {M : Machine α} {t : ThreadId}

theorem execute_deed (h : S.Sound M) {others : List ThreadId} {i : Instr α}
    {code : List (Instr α)} (hready : M.ready = t :: others)
    (hcode : (M.thread t).code = i :: code) :
    S.Deed M t i (M.execute t i).1 (M.execute t i).2 := by
  have hshape : S.Shape (M.thread t).step t (i :: code) := hcode ▸ (h.shaped t).code
  by_cases hstart : ∃ path op, i = .start path op
  · obtain ⟨path, op, rfl⟩ := hstart
    exact .start hshape.trails_of_start.1 (Machine.perform_does M t path op)
  · refine .stroke (fun path op hi => hstart ⟨path, op, hi⟩) ?_
    refine Machine.execute_stroke h.fits hshape ?_
    intro q path tr hi
    subst hi
    rw [h.guarded.owner q hshape.of_transact.1.lt, holder_of_ready hready, hcode]
    simp [IsInside]

/-- **Whatever a tick does is told by `Move`.** -/
theorem Sound.move (h : S.Sound M) : S.Move M M.tick := by
  unfold Machine.tick
  split
  · rename_i hready
    exact .still hready
  · rename_i t others hready
    simp only
    split
    · rename_i hcode hpending
      exact .finish hready ⟨hcode, hpending⟩
    · rename_i i op pending hcode hpending
      exact .next hready hcode hpending
    · rename_i i code hcode
      have hdeed := execute_deed h hready hcode
      split <;> rename_i he <;> rw [he] at hdeed
      · exact .goOn hready hcode hdeed
      · cases hdeed with
        | start _ hdoes => exact absurd rfl hdoes.next_ne_park
        | stroke _ hstroke => exact .park hready hcode hstroke
      · cases hdeed with
        | start hop hdoes => exact .unwind hready hcode hop hdoes
        | stroke hi hstroke =>
            cases hstroke with
            | start => exact absurd rfl (hi _ _)

theorem Deed.threads (h : S.Sound M) {i : Instr α} {code : List (Instr α)} {M' : Machine α}
    {next : Next α} (hcode : (M.thread t).code = i :: code) (hdeed : S.Deed M t i M' next) :
    M'.threads = M.threads := by
  cases hdeed with
  | start _ hdoes => exact hdoes.changes.threads
  | stroke _ hstroke => exact hstroke.threads h.fits (hcode ▸ (h.shaped t).code)

/-- The code of a thread after a deed, and that of the others. -/
theorem Deed.code (h : S.Sound M) {i : Instr α} {code code' : List (Instr α)} {M' : Machine α}
    {next : Next α} (hcode : (M.thread t).code = i :: code) (hdeed : S.Deed M t i M' next)
    (u : ThreadId) :
    ((M'.setCode t code').thread u).code = if u = t then code' else (M.thread u).code := by
  rw [Machine.thread_setCode]
  by_cases hu : u = t
  · rw [if_pos hu, if_pos hu.symm]
  · rw [if_neg hu, if_neg (Ne.symm hu), Machine.thread_congr (hdeed.threads h hcode)]

end Setting

end BlockingSync
