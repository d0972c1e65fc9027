/-
What an operation does when it begins.

`Begins` says once what beginning an operation can do, guards included, so that no later
proof takes `perform` apart.  Nearly all that operations do is calm: it frees no mutex,
enters no list, and keeps away from names and from the parts of queues.  What is not calm
stands in cases of its own: releasing a mutex, waiting on a condition variable, and
dropping an object.
-/
import BlockingSync.Proofs.Shape
import BlockingSync.Proofs.Sequential

namespace BlockingSync

variable {α : Type}

/-- The mutex inside a lock. -/
def Lockable.mutex? : Lockable → Option MutexId
  | .native m | .wrapped m | .minimal m => some m
  | .raw _ => none

namespace Machine

/-- The state after a mutex was released. -/
def free (M : Machine α) (m : MutexId) : Machine α :=
  ((M.setOwner m none).wakeOne (.mutex m)).1

/-- The state after a task has released a mutex in order to wait on a condition variable. -/
def leave (M : Machine α) (c : ConditionId) (m : MutexId) (t : ThreadId) : Machine α :=
  (((M.setOwner m none).enqueue (.condition c) t).wakeOne (.mutex m)).1

end Machine

namespace Setting

variable (S : Setting α)

/-- Whether a change frees no mutex, enters no list, resumes only waiters of a condition, leaves
names their meaning, and touches no part of a queue. -/
def IsCalm : Effect → Prop
  | .own m (some _) => S.IsPublicMutex m
  | .wake (.condition c) => S.IsPublicCondition c
  | .raw _ | .tasks | .terminate _ => True
  | _ => False

/-- Whether the name in the operation at a path means nothing. -/
def Lacks (M : Machine α) (step : Nat) (path : Path) : Prop :=
  ∃ name verb, S.find? step path = some (.onObject name verb) ∧ M.object? name = none

/-- Whether a result is right at a path, given the values of the queue.  Where the name means
nothing, an operation says so and does no more. -/
def Answers (M : Machine α) (step : Nat) (path : Path) (r : Result α) : Prop :=
  ∀ q verb, S.call? step path = some (q, verb) →
    r = .noSuchObject ∧ S.Lacks M step path ∨
      verb.Agrees r (M.queue q).values.toList ∧ ∀ vs, verb.effect r vs = vs

/-- The instructions that an operation begins with, when it does not wait on a condition
variable. -/
inductive Opening (M : Machine α) (step : Nat) (path : Path) : List (Instr α) → Prop
  | answer {r} (h : S.Answers M step path r) : Opening M step path [.report path r]
  | lock {m code} (hm : S.IsPublicMutex m) (h : S.Trails step code) :
      Opening M step path (.lock m :: code)
  | seize {r code} (h : S.Trails step code) : Opening M step path (.seize r :: code)
  | enter {q tr} (h : S.Serves step path q tr) :
      Opening M step path [.lock (S.mutex q), .transact q path tr]
  | told {handle name code} (hop : S.find? step path = some (.onTask name .suspend))
      (h : S.Trails step code) : Opening M step path (.suspend handle none :: code)

/-- What beginning an operation can do. -/
inductive Begins (M : Machine α) (t : ThreadId) (step : Nat) (path : Path) (op : Op α) :
    Machine α → Next α → Prop
  | calm {M' code} (h : Machine.Changes S.IsCalm t M M') (ho : S.Opening M step path code) :
      Begins M t step path op M' (.goOn code)
  | unwind {message} : Begins M t step path op M (.unwind message)
  /-- A name loses its meaning. -/
  | forget {name leak} (hop : op = .drop name) (hcall : S.call? step path = none) :
      Begins M t step path op (M.forget name) (.goOn [.report path (.dropped leak)])
  /-- The operation resumes tasks by itself. -/
  | resumes {M' r} (hop : op.sparesTokens = false)
      (h : Machine.Changes (fun e => e = .tasks ∨ ∃ u, e = .resume u) t M M')
      (hcall : S.call? step path = none) :
      Begins M t step path op M' (.goOn [.report path r])
  | release {m o next} (hm : S.IsPublicMutex m) (ho : (M.mutex m).owner = some o)
      (hcall : S.call? step path = none)
      (hn : (∃ r, next = .yield path r) ∨ ∃ message, next = .unwind message) :
      Begins M t step path op (M.free m) next
  | wait {c m o} (hc : S.IsPublicCondition c) (hm : S.IsPublicMutex m)
      (ho : (M.mutex m).owner = some o) (hcall : S.call? step path = none) :
      Begins M t step path op (M.leave c m t)
        (.goOn [.suspend t (some (.condition c)), .lock m, .report path .ok])
  | waitRaw {c r M'} (hc : S.IsPublicCondition c) (hcall : S.call? step path = none)
      (h : Machine.Changes (· = .raw r) t (M.enqueue (.condition c) t) M') :
      Begins M t step path op M'
        (.goOn [.suspend t (some (.condition c)), .seize r, .report path .ok])

variable {S} {M : Machine α} {t : ThreadId} {step : Nat} {path : Path} {op : Op α}

theorem answers_of_call?_eq_none (h : S.call? step path = none) (r : Result α) :
    S.Answers M step path r := by
  intro q verb hcall
  rw [h] at hcall
  simp at hcall

/-- An answer that leaves the state alone. -/
theorem Begins.yield {r : Result α} (h : S.Answers M step path r) :
    S.Begins M t step path op M (.yield path r) :=
  .calm .refl (.answer h)

/-- No operation parks when it begins. -/
theorem Begins.next_ne_park {M' : Machine α} {next : Next α}
    (h : S.Begins M t step path op M' next) : next ≠ .park := by
  cases h with
  | release _ _ _ hn => rcases hn with ⟨r, rfl⟩ | ⟨message, rfl⟩ <;> simp [Next.yield]
  | _ => simp

theorem Begins.reply (h : S.call? step path = none) (r : Result α) :
    S.Begins M t step path op M (.yield path r) :=
  .yield (answers_of_call?_eq_none h r)

end Setting

namespace Machine

open Setting

variable {S : Setting α} {M : Machine α} {t : ThreadId} {step : Nat} {path : Path} {op : Op α}

/-! ### Locks -/

theorem releaseWith_of_free {m : MutexId} (h : (M.mutex m).owner = none) (panic : Option String)
    (runWhenFree : Bool) : (M.releaseWith m (.ofPanic panic) runWhenFree).1 = M := by
  unfold releaseWith
  rw [h]
  cases runWhenFree <;> rfl

theorem releaseWith_of_owned {m : MutexId} {o : HandleId} (h : (M.mutex m).owner = some o)
    (panic : Option String) (runWhenFree : Bool) :
    M.releaseWith m (.ofPanic panic) runWhenFree = (M.free m, .after panic .released) := by
  unfold releaseWith
  rw [h]
  rfl

theorem yieldRelease_cases (path : Path) (result : Bool → Result α) (r : Release) :
    (∃ b, yieldRelease path result r = .yield path (result b)) ∨
      ∃ message, yieldRelease path result r = .unwind message := by
  cases r with
  | refused => exact .inl ⟨false, rfl⟩
  | released => exact .inl ⟨true, rfl⟩
  | panicked message => exact .inr ⟨message, rfl⟩

/-- The end of a release that left the state alone. -/
theorem begins_yieldRelease (hcall : S.call? step path = none) (result : Bool → Result α)
    (r : Release) : S.Begins M t step path op M (yieldRelease path result r) := by
  rcases yieldRelease_cases path result r with ⟨b, h⟩ | ⟨message, h⟩
  · rw [h]; exact .reply hcall _
  · rw [h]; exact .unwind

theorem begins_releaseWith {m : MutexId} (hm : S.IsPublicMutex m)
    (hcall : S.call? step path = none) (panic : Option String) (runWhenFree : Bool)
    (result : Bool → Result α) :
    S.Begins M t step path op (M.releaseWith m (.ofPanic panic) runWhenFree).1
      (yieldRelease path result (M.releaseWith m (.ofPanic panic) runWhenFree).2) := by
  cases ho : (M.mutex m).owner with
  | none =>
      rw [releaseWith_of_free ho]
      exact begins_yieldRelease hcall _ _
  | some o =>
      rw [releaseWith_of_owned ho]
      refine .release hm ho hcall ?_
      rcases yieldRelease_cases path result (.after panic .released) with ⟨b, h⟩ | h
      · exact .inl ⟨_, h⟩
      · exact .inr h

theorem tryLock_changes {m : MutexId} (hm : S.IsPublicMutex m) :
    Changes S.IsCalm t M (M.tryLock m t).1 := by
  unfold tryLock
  cases (M.mutex m).owner with
  | none => exact .single (e := .own m (some t)) hm (.own m (some t))
  | some o => exact .refl

theorem unlockRaw_changes (t : ThreadId) (M : Machine α) (r : RawLockId) :
    Changes (· = .raw r) t M (M.unlockRaw r) := by
  unfold unlockRaw
  simp only
  split
  · exact .single rfl (.adapt rfl)
  · rename_i hp
    exact .single rfl (.unpark hp)

/-- The state after a raw lock was given back. -/
theorem giveBackRaw_changes (t : ThreadId) (M : Machine α) (r : RawLockId) :
    Changes (· = .raw r) t M
      ((M.setRawLock r { M.rawLock r with owner := none }).unlockRaw r) := by
  have hadapt : Changes (· = .raw r) t M (M.setRawLock r { M.rawLock r with owner := none }) :=
    .single rfl (.adapt rfl)
  exact hadapt.trans (unlockRaw_changes t _ r)

theorem isCalm_of_raw {r : RawLockId} {e : Effect} (h : e = .raw r) : S.IsCalm e := by
  subst h
  trivial

theorem begins_releaseRaw {r : RawLockId} (hcall : S.call? step path = none)
    (panic : Option String) (result : Bool → Result α) :
    S.Begins M t step path op (M.releaseRaw r t (.ofPanic panic)).1
      (yieldRelease path result (M.releaseRaw r t (.ofPanic panic)).2) := by
  unfold releaseRaw
  split
  · cases panic with
    | some message => exact .unwind
    | none =>
        exact .calm ((giveBackRaw_changes t M r).mono fun _ => isCalm_of_raw)
          (.answer (answers_of_call?_eq_none hcall _))
  · exact .reply hcall _

theorem begins_exclusiveRelease {l : Lockable} (hl : ∀ m, l.mutex? = some m → S.IsPublicMutex m)
    (hcall : S.call? step path = none) (panic : Option String) (result : Bool → Result α) :
    S.Begins M t step path op (M.exclusiveRelease l t (.ofPanic panic)).1
      (yieldRelease path result (M.exclusiveRelease l t (.ofPanic panic)).2) := by
  cases l with
  | native m | wrapped m | minimal m => exact begins_releaseWith (hl m rfl) hcall panic _ _
  | raw r => exact begins_releaseRaw hcall panic _

theorem performLockable_begins {l : Lockable} (hl : ∀ m, l.mutex? = some m → S.IsPublicMutex m)
    (hcall : S.call? step path = none) (verb : Verb α) :
    S.Begins M t step path op (M.performLockable t path l verb).1
      (M.performLockable t path l verb).2 := by
  have htrail : S.Trails step [.report path .done] := by simp [IsTrailing, hcall]
  cases verb with
  | acquire =>
      cases l with
      | native m | wrapped m | minimal m => exact .calm .refl (.lock (hl m rfl) htrail)
      | raw r => exact .calm .refl (.seize htrail)
  | release => exact begins_exclusiveRelease hl hcall none _
  | exclusiveRelease panic =>
      exact begins_exclusiveRelease hl hcall panic fun b => .released b b.toNat
  | _ => exact .reply hcall _

theorem begins_yieldAudit (hcall : S.call? step path = none) (leak : Option Leak) :
    S.Begins M t step path op M (yieldAudit path leak) := by
  cases leak <;> exact .reply hcall _

theorem performMutex_begins {m : MutexId} (hm : S.IsPublicMutex m)
    (hcall : S.call? step path = none) (verb : Verb α) :
    S.Begins M t step path op (M.performMutex t path m verb).1
      (M.performMutex t path m verb).2 := by
  have hl : ∀ m', (Lockable.native m).mutex? = some m' → S.IsPublicMutex m' := by
    rintro m' ⟨⟩
    exact hm
  cases verb with
  | lock => exact .calm .refl (.lock hm (by simp [IsTrailing, hcall]))
  | tryLock => exact .calm (tryLock_changes hm) (.answer (answers_of_call?_eq_none hcall _))
  | unlock => exact begins_releaseWith hm hcall none _ _
  | exclusiveUnlock panic => exact begins_releaseWith hm hcall panic true (.unlocked · true)
  | audit => exact begins_yieldAudit hcall _
  | isLocked | isOwned | owner | numWaiting | debug | json => exact .reply hcall _
  | _ => exact performLockable_begins hl hcall _

theorem trySeize_changes (t : ThreadId) (M : Machine α) (r : RawLockId) :
    Changes (· = .raw r) t M (M.trySeize r t).1 := by
  unfold trySeize
  simp only
  split
  · exact .refl
  · exact .single rfl (.adapt rfl)

theorem performAdapter_begins {r : RawLockId} (hcall : S.call? step path = none) (verb : Verb α) :
    S.Begins M t step path op (M.performAdapter t path r verb).1
      (M.performAdapter t path r verb).2 := by
  have hl : ∀ m, (Lockable.raw r).mutex? = some m → S.IsPublicMutex m := by
    rintro m ⟨⟩
  cases verb with
  | tryAcquire =>
      exact .calm ((trySeize_changes t M r).mono fun _ => isCalm_of_raw)
        (.answer (answers_of_call?_eq_none hcall _))
  | isLocked | isHeldByCurrent | debug => exact .reply hcall _
  | _ => exact performLockable_begins hl hcall _

/-! ### Condition variables -/

theorem depart_mutex {c : ConditionId} {l : Lockable} {m : MutexId} (hl : l.mutex? = some m) :
    (M.depart c l t).1 = M ∧ (M.depart c l t).2 ≠ .departed ∨
      (∃ o, (M.mutex m).owner = some o) ∧ M.depart c l t = (M.leave c m t, .departed) := by
  cases ho : (M.mutex m).owner with
  | none =>
      left
      cases l with
      | raw r => simp [Lockable.mutex?] at hl
      | native m' | wrapped m' | minimal m' =>
          obtain rfl := Option.some.inj hl
          simp [depart, departNative, departThrough, isHeldByOther, isOther, exclusiveRelease,
            releaseWith, ho]
  | some o =>
      cases l with
      | raw r => simp [Lockable.mutex?] at hl
      | native m' =>
          obtain rfl := Option.some.inj hl
          by_cases hot : o = t
          · exact .inr ⟨⟨o, rfl⟩, by simp only [depart, departNative, ho, hot, if_true]; rfl⟩
          · left
            simp [depart, departNative, ho, hot]
      | wrapped m' =>
          obtain rfl := Option.some.inj hl
          by_cases hot : o = t
          · exact .inr ⟨⟨o, rfl⟩, by
              simp only [depart, departThrough, isHeldByOther, isOther, exclusiveRelease,
                releaseWith, ho, hot]
              simp [Action.ofChange, Release.after, leave]⟩
          · left
            simp [depart, departThrough, isHeldByOther, isOther, ho, hot]
      | minimal m' =>
          obtain rfl := Option.some.inj hl
          exact .inr ⟨⟨o, rfl⟩, by
            simp only [depart, departThrough, isHeldByOther, exclusiveRelease, releaseWith, ho]
            simp [Action.ofChange, Release.after, leave]⟩

theorem depart_raw (c : ConditionId) (r : RawLockId) :
    (M.depart c (.raw r) t).1 = M ∧ (M.depart c (.raw r) t).2 ≠ .departed ∨
      Changes (· = .raw r) t (M.enqueue (.condition c) t) (M.depart c (.raw r) t).1 ∧
        (M.depart c (.raw r) t).2 = .departed := by
  by_cases ho : (M.rawLock r).owner = some t
  · right
    have hback := giveBackRaw_changes t (M.enqueue (.condition c) t) r
    simpa [depart, departThrough, isHeldByOther, isOther, exclusiveRelease, releaseRaw, ho,
      Action.ofChange] using hback
  · left
    cases hother : isOther (M.rawLock r).owner t <;>
      simp [depart, departThrough, isHeldByOther, exclusiveRelease, releaseRaw, ho, hother]

theorem performWait_begins (hfits : M.Fits S) {c : ConditionId} (hc : S.IsPublicCondition c)
    (hcall : S.call? step path = none) (lock : String) :
    S.Begins M t step path op (M.performWait t path c lock).1 (M.performWait t path c lock).2 := by
  unfold performWait
  split
  · exact .reply hcall _
  · rename_i object hobject
    split
    · exact .reply hcall _
    · rename_i l hl
      cases hm : l.mutex? with
      | some m =>
          have hpublic : S.IsPublicMutex m := by
            refine isPublicMutex_of_object (hfits.named _ _ hobject) ?_
            cases object <;> simp only [lockable?, Option.some.injEq, reduceCtorEq] at hl <;>
              (subst hl; exact hm)
          have hacquire : acquire (α := α) l = .lock m := by
            cases l <;> simp only [Lockable.mutex?, Option.some.injEq, reduceCtorEq] at hm <;>
              (subst hm; rfl)
          rcases depart_mutex (M := M) (t := t) (c := c) hm with ⟨hsame, hne⟩ | ⟨⟨o, ho⟩, heq⟩
          · split
            · rename_i M' heq; simp [heq] at hne
            · rename_i M' heq
              simp only [heq] at hsame
              subst hsame
              exact .reply hcall _
            · rename_i M' heq
              simp only [heq] at hsame
              subst hsame
              exact .reply hcall _
          · simp only [heq, hacquire]
            exact .wait hc hpublic ho hcall
      | none =>
          cases l with
          | native m | wrapped m | minimal m => simp [Lockable.mutex?] at hm
          | raw r =>
              rcases depart_raw (M := M) (t := t) c r with ⟨hsame, hne⟩ | ⟨hraw, hdep⟩
              · split
                · rename_i M' heq; simp [heq] at hne
                · rename_i M' heq
                  simp only [heq] at hsame
                  subst hsame
                  exact .reply hcall _
                · rename_i M' heq
                  simp only [heq] at hsame
                  subst hsame
                  exact .reply hcall _
              · split
                · rename_i M' heq
                  simp only [heq] at hraw
                  exact .waitRaw hc hcall hraw
                · rename_i M' heq; simp [heq] at hdep
                · rename_i M' heq; simp [heq] at hdep

theorem performCondition_begins (hfits : M.Fits S) {c : ConditionId} (hc : S.IsPublicCondition c)
    (hcall : S.call? step path = none) (verb : Verb α) :
    S.Begins M t step path op (M.performCondition t path c verb).1
      (M.performCondition t path c verb).2 := by
  have hcalm : ∀ e, e = .wake (.condition c) → S.IsCalm e := by
    rintro e rfl
    exact hc
  cases verb with
  | wait lock => exact performWait_begins hfits hc hcall lock
  | signal =>
      exact .calm ((wakeOne_wakes t M _).mono hcalm) (.answer (answers_of_call?_eq_none hcall _))
  | broadcast =>
      exact .calm ((wakeAll_wakes t M _).mono hcalm) (.answer (answers_of_call?_eq_none hcall _))
  | audit => exact begins_yieldAudit hcall _
  | _ => exact .reply hcall _

/-! ### Queues -/

theorem performQueue_begins (hfits : M.Fits S) {q : QueueId} {verb : Verb α}
    (hcall : S.call? step path = some (q, verb)) :
    S.Begins M t step path op (M.performQueue path q verb).1 (M.performQueue path q verb).2 := by
  -- Whatever is answered at once agrees with the values and does nothing to them.
  have answer : ∀ r, verb.Agrees r (M.queue q).values.toList → (∀ vs, verb.effect r vs = vs) →
      S.Begins M t step path op M (.yield path r) := by
    intro r hr he
    refine .yield fun q' verb' hcall' => ?_
    rw [hcall] at hcall'
    obtain ⟨rfl, rfl⟩ := Prod.mk.inj (Option.some.inj hcall')
    exact .inr ⟨hr, he⟩
  have enter : ∀ tr, transaction? verb = some tr →
      (∀ capacity, tr = .resize capacity → 0 < capacity.val) → S.Begins M t step path op M
        (.goOn [.lock (M.queue q).mutex, .transact q path tr]) := by
    intro tr htr hpos
    rw [hfits.mutex q (lt_of_call? hcall)]
    exact .calm .refl (.enter ⟨⟨verb, hcall, htr⟩, hpos⟩)
  cases verb with
  | audit =>
      unfold performQueue yieldAudit
      cases M.auditQueue q with
      | none => exact answer .ok trivial fun _ => rfl
      | some leak => exact answer (.leaked leak) trivial fun _ => rfl
  | debug => exact answer _ trivial fun _ => rfl
  | snapshot => exact answer _ rfl fun _ => rfl
  | setCapacity capacity =>
      obtain ⟨n, hn⟩ := capacity
      cases n with
      | zero => exact answer _ trivial fun _ => rfl
      | succ n =>
          refine enter _ rfl fun capacity hc => ?_
          rw [← Transaction.resize.inj hc]
          exact Nat.succ_pos n
  | popWith nonBlocking => cases nonBlocking <;> exact enter _ rfl (by simp)
  | push | pop | shift | clear | isEmpty | length | size | numWaiting | capacity | values =>
      exact enter _ rfl (by simp)
  | _ => exact answer .badOperation rfl fun _ => rfl

/-! ### Tasks -/

theorem resumeEach_changes (t : ThreadId) (M : Machine α) (hs : List HandleId) :
    Changes (fun e => ∃ u, e = .resume u) t M (M.resumeEach hs).1 := by
  induction hs generalizing M with
  | nil => exact .refl
  | cons h hs ih =>
      unfold resumeEach
      cases live : M.isResumable h with
      | true =>
          simp only [resume?_of_resumable h live]
          have first : Changes (fun e => ∃ u, e = .resume u) t M (M.roused h) :=
            .single ⟨h, rfl⟩ (.resume h)
          exact first.trans (ih _)
      | false =>
          simp only [resume?_of_not_resumable h live]
          exact ih M

theorem performTasks_begins (hcall : S.call? step path = none) {name : String} {verb : Verb α}
    (hop : op = .onObject name verb) (l : TaskListId) :
    S.Begins M t step path op (M.performTasks path l verb).1 (M.performTasks path l verb).2 := by
  have htasks : ∀ lists r,
      S.Begins M t step path op { M with taskLists := lists } (.yield path r) :=
    fun lists r => .calm (.step .refl (e := .tasks) trivial (.tasks lists))
      (.answer (answers_of_call?_eq_none hcall r))
  cases verb with
  | shift =>
      unfold performTasks
      simp only
      split
      · exact .reply hcall _
      · exact htasks _ _
  | clear => exact htasks _ _
  | drainResume limit =>
      have drained : ∀ lists hs, Changes (fun e => e = .tasks ∨ ∃ u, e = .resume u) t M
          ({ M with taskLists := lists }.resumeEach hs).1 := by
        intro lists hs
        have first : Changes (fun e => e = .tasks ∨ ∃ u, e = .resume u) t M
            { M with taskLists := lists } := .single (.inl rfl) (.tasks _)
        exact first.trans ((resumeEach_changes t _ hs).mono fun _ => Or.inr)
      exact .resumes (by rw [hop]; rfl) (drained _ _) hcall
  | _ => exact .reply hcall _

theorem performTask_begins {name : String} {verb : TaskVerb}
    (hfind : S.find? step path = some op) (hop : op = .onTask name verb) (h : HandleId) :
    S.Begins M t step path op (M.performTask t path h verb).1 (M.performTask t path h verb).2 := by
  have hcall : S.call? step path = none :=
    call?_of_op hfind (by rw [hop]; rintro _ _ ⟨⟩)
  subst hop
  cases verb with
  | suspend => exact .calm .refl (.told hfind (by simp [IsTrailing, hcall]))
  | resume =>
      unfold performTask
      cases live : M.isResumable h with
      | true =>
          simp only [resume?_of_resumable h live]
          exact .resumes rfl (.single (.inr ⟨h, rfl⟩) (.resume h)) hcall
      | false =>
          simp only [resume?_of_not_resumable h live]
          exact .reply hcall _
  | terminate =>
      exact .calm (.step .refl (e := .terminate h) trivial (.terminate h))
        (.answer (answers_of_call?_eq_none hcall _))
  | isSame other =>
      unfold performTask
      simp only
      split <;> exact .reply hcall _
  | pushTo list times =>
      unfold performTask
      simp only
      split
      · exact .calm (.step .refl (e := .tasks) trivial (.tasks _))
          (.answer (answers_of_call?_eq_none hcall _))
      · exact .reply hcall _
  | _ => exact .reply hcall _

/-! ### All operations -/

theorem performObject_begins (hfits : M.Fits S) {name : String} {verb : Verb α} {object : Object}
    (hfind : S.find? step path = some (.onObject name verb)) (ho : M.object? name = some object) :
    S.Begins M t step path (.onObject name verb) (M.performObject t path object verb).1
      (M.performObject t path object verb).2 := by
  have horigin := hfits.named _ _ ho
  cases object with
  | mutex m =>
      exact performMutex_begins (isPublicMutex_of_object horigin rfl)
        (call?_of_object hfind horigin (by simp)) verb
  | condition c =>
      exact performCondition_begins hfits (isPublicCondition_of_object horigin)
        (call?_of_object hfind horigin (by simp)) verb
  | queue q => exact performQueue_begins hfits (call?_of_queue hfind horigin)
  | adapter r => exact performAdapter_begins (call?_of_object hfind horigin (by simp)) verb
  | wrapped m | minimal m =>
      refine performLockable_begins ?_ (call?_of_object hfind horigin (by simp)) verb
      rintro m' ⟨⟩
      exact isPublicMutex_of_object horigin rfl
  | task h => exact .reply (call?_of_object hfind horigin (by simp)) _
  | tasks l => exact performTasks_begins (call?_of_object hfind horigin (by simp)) rfl l

/-- Whatever an operation does when it begins is told by `Begins`. -/
theorem perform_begins (hfits : M.Fits S) (hfind : S.find? step path = some op) :
    S.Begins M t step path op (M.perform t path op).1 (M.perform t path op).2 := by
  have missing : ∀ r : Result α, (∀ name verb, op ≠ .onObject name verb) →
      S.Begins M t step path op M (.yield path r) :=
    fun r hne => .reply (call?_of_op hfind hne) r
  cases op with
  | panic message => exact .unwind
  | drop name =>
      unfold perform
      simp only
      split
      · exact missing _ (by simp)
      · exact .forget rfl (call?_of_op hfind (by simp))
  | onTask handle verb =>
      unfold perform
      simp only
      split
      · exact missing _ (by simp)
      · exact performTask_begins hfind rfl _
  | onObject name verb =>
      unfold perform
      simp only
      split
      · rename_i hlost
        exact .yield fun q verb' hcall => .inl ⟨rfl, name, verb, hfind, hlost⟩
      · rename_i object ho
        exact performObject_begins hfits hfind ho
  | synchronize name body =>
      have hbody : S.Trails step (startBody path body) := trails_startBody hfind
      have hcall : S.call? step path = none := call?_of_op hfind (by simp)
      unfold perform
      simp only
      split
      · exact missing _ (by simp)
      · rename_i m ho
        have hm := isPublicMutex_of_object (hfits.named _ _ ho) rfl
        refine .calm .refl (.lock hm ?_)
        simpa [IsTrailing, hcall, hm] using hbody
      · exact missing _ (by simp)
  | guard name body =>
      have hbody : S.Trails step (startBody path body) := trails_startBody hfind
      have hcall : S.call? step path = none := call?_of_op hfind (by simp)
      unfold perform
      simp only
      split
      · exact missing _ (by simp)
      · rename_i m ho
        have hm := isPublicMutex_of_object (hfits.named _ _ ho) rfl
        refine .calm .refl (.lock hm ?_)
        simpa [IsTrailing, hcall, hm] using hbody
      · exact missing _ (by simp)

end Machine

end BlockingSync
