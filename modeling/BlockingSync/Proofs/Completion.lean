/-
A release completes, also when its action panics.

The wake that ends a release is owed by a local of the block that releases: it is armed
once the owner is gone, and it is done when the local is dropped.  Locals are dropped when
a block is left in whatever way, the last declared first, and the wake is declared before
the critical section; so the section is always left before the waiters are looked at.
`releaseInBlock` releases a mutex in this way, local by local, and comes to what
`releaseWith` does in one line.  What else there is to say of panics then lies in that
line.
-/
import BlockingSync.Proofs.Resumes

namespace BlockingSync

variable {α : Type}

/-- The action without its panic. -/
def Action.calmed (action : Action α) : Action α :=
  fun M => ((action M).1, none)

/-- A local of the block that releases a mutex. -/
inductive Local where
  /-- The critical section of the mutex; dropping it leaves the section. -/
  | critical
  /-- A wake of the waiters that is done when it is dropped, provided it is armed. -/
  | wake (armed : Bool)
  deriving DecidableEq

namespace Machine

/-! ### The block that releases a mutex -/

/-- Drops locals, given with the last declared in front.  A wake enters the critical section for
itself, so it never ends while that is among the locals still to be dropped. -/
def dropLocals (m : MutexId) : List Local → Machine α → Option (Machine α)
  | [], M => some M
  | .critical :: locals, M => dropLocals m locals M
  | .wake false :: locals, M => dropLocals m locals M
  | .wake true :: locals, M =>
    if Local.critical ∈ locals then none else dropLocals m locals (M.wakeOne (.mutex m)).1

/-- Releases a mutex by a block with two locals.  A panic of the action drops both of them; after
an action that returns, the block leaves the critical section itself. -/
def releaseInBlock (M : Machine α) (m : MutexId) (action : Action α) (runWhenFree : Bool) :
    Option (Machine α × Release) :=
  match (M.mutex m).owner with
  | none =>
    let (M, panic) := if runWhenFree then action M else (M, none)
    (dropLocals m [.critical, .wake false] M).map (·, .after panic .refused)
  | some _ =>
    match action (M.setOwner m none) with
    | (M, some message) =>
      (dropLocals m [.critical, .wake true] M).map (·, .panicked message)
    | (M, none) => (dropLocals m [.wake true] M).map (·, .released)

/-- If the wake were declared after the critical section, an armed one would never end. -/
theorem dropLocals_wake_first (m : MutexId) (locals : List Local) (M : Machine α) :
    dropLocals m (.wake true :: .critical :: locals) M = none := by
  simp [dropLocals]

theorem releaseInBlock_eq (M : Machine α) (m : MutexId) (action : Action α) (runWhenFree : Bool) :
    M.releaseInBlock m action runWhenFree = some (M.releaseWith m action runWhenFree) := by
  unfold releaseInBlock releaseWith
  cases (M.mutex m).owner with
  | none => cases runWhenFree <;> rfl
  | some o =>
      rcases action (M.setOwner m none) with ⟨N, _ | message⟩ <;> rfl

/-! ### Any action -/

variable {M : Machine α} {m : MutexId} {t : ThreadId} {path : Path}

/-- Whether the action panics does not matter to the state. -/
theorem releaseWith_calmed (M : Machine α) (m : MutexId) (action : Action α)
    (runWhenFree : Bool) :
    (M.releaseWith m action.calmed runWhenFree).1 = (M.releaseWith m action runWhenFree).1 := by
  unfold releaseWith
  cases (M.mutex m).owner with
  | none => cases runWhenFree <;> rfl
  | some o => rfl

/-- An action that leaves the state alone leaves the release as it is without one. -/
theorem releaseWith_neutral {action : Action α} (h : ∀ N, (action N).1 = N) (runWhenFree : Bool) :
    (M.releaseWith m action runWhenFree).1 = (M.unlock m).1 := by
  unfold unlock releaseWith
  cases (M.mutex m).owner with
  | none =>
      cases runWhenFree with
      | false => rfl
      | true => exact h M
  | some o =>
      show ((action (M.setOwner m none)).1.wakeOne (.mutex m)).1 = _
      rw [h]
      rfl

/-- A free mutex runs the action if it is told to, and does nothing else. -/
theorem releaseWith_free (h : (M.mutex m).owner = none) (action : Action α) (runWhenFree : Bool) :
    M.releaseWith m action runWhenFree =
      if runWhenFree then ((action M).1, .after (action M).2 .refused) else (M, .refused) := by
  unfold releaseWith
  rw [h]

theorem unlock_of_owned {o : HandleId} (h : (M.mutex m).owner = some o) :
    M.unlock m = (M.free m, .released) :=
  releaseWith_of_owned h none false

/-! ### The operations -/

/-- How an operation goes on behind an action: it gives way to a panic. -/
def nextUnless (panic : Option String) (otherwise : Next α) : Next α :=
  match panic with
  | some message => .unwind message
  | none => otherwise

theorem performMutex_unlock (M : Machine α) (t : ThreadId) (path : Path) (m : MutexId) :
    M.performMutex t path m .unlock =
      ((M.unlock m).1, .yield path (.flag (M.mutex m).owner.isSome)) := by
  cases ho : (M.mutex m).owner with
  | none =>
      simp only [performMutex, unlock, releaseWith_free ho]
      rfl
  | some o =>
      simp only [performMutex, unlock_of_owned ho]
      rfl

/-- An exclusive unlock is an unlock that runs its action on every mutex. -/
theorem performMutex_exclusiveUnlock (M : Machine α) (t : ThreadId) (path : Path) (m : MutexId)
    (panic : Option String) :
    M.performMutex t path m (.exclusiveUnlock panic) =
      ((M.unlock m).1,
        nextUnless panic (.yield path (.unlocked (M.mutex m).owner.isSome true))) := by
  cases ho : (M.mutex m).owner with
  | none =>
      simp only [performMutex, unlock, releaseWith_free ho]
      cases panic <;> rfl
  | some o =>
      simp only [performMutex, unlock, releaseWith_of_owned ho]
      cases panic <;> rfl

/-- An exclusive release is an unlock that runs its action on a mutex that is held. -/
theorem performLockable_exclusiveRelease (M : Machine α) (t : ThreadId) (path : Path)
    {l : Lockable} (hl : l.mutex? = some m) (panic : Option String) :
    M.performLockable t path l (.exclusiveRelease panic) =
      ((M.unlock m).1,
        if (M.mutex m).owner.isSome then nextUnless panic (.yield path (.released true 1))
        else .yield path (.released false 0)) := by
  have hrelease : M.exclusiveRelease l t (.ofPanic panic) =
      M.releaseWith m (.ofPanic panic) false := by
    cases l <;> cases hl <;> rfl
  cases ho : (M.mutex m).owner with
  | none =>
      simp only [performLockable, hrelease, unlock, releaseWith_free ho]
      rfl
  | some o =>
      simp only [performLockable, hrelease, unlock, releaseWith_of_owned ho]
      cases panic <;> rfl

/-- **A release with a panicking action completes.**  Whether the action panics makes no difference
to the state, whichever way the mutex is released, and every way does what an unlock does.  A
mutex that is held loses its owner, and its earliest waiter that can be resumed is resumed; a
free mutex stays as it is.  The two ways differ in what they run on a free mutex. -/
theorem release_completes (M : Machine α) (m : MutexId) (t : ThreadId) (path : Path) :
    -- any action, which the block of the release runs with its two locals
    (∀ action runWhenFree,
      M.releaseInBlock m action runWhenFree = some (M.releaseWith m action runWhenFree) ∧
      (M.releaseWith m action runWhenFree).1 = (M.releaseWith m action.calmed runWhenFree).1 ∧
      ((∀ N, (action N).1 = N) → (M.releaseWith m action runWhenFree).1 = (M.unlock m).1)) ∧
    -- the operations
    M.performMutex t path m .unlock =
      ((M.unlock m).1, .yield path (.flag (M.mutex m).owner.isSome)) ∧
    (∀ panic, M.performMutex t path m (.exclusiveUnlock panic) =
      ((M.unlock m).1,
        nextUnless panic (.yield path (.unlocked (M.mutex m).owner.isSome true)))) ∧
    (∀ l : Lockable, l.mutex? = some m → ∀ panic,
      M.performLockable t path l (.exclusiveRelease panic) =
        ((M.unlock m).1,
          if (M.mutex m).owner.isSome then nextUnless panic (.yield path (.released true 1))
          else .yield path (.released false 0))) ∧
    -- a mutex that is held
    (∀ o, (M.mutex m).owner = some o →
      ((M.unlock m).1.mutex m).owner = none ∧
        Awakens (.mutex m) (M.setOwner m none) (M.unlock m).1) ∧
    -- a free mutex
    ((M.mutex m).owner = none →
      (M.unlock m).1 = M ∧
        ∀ action, M.releaseWith m action true = ((action M).1, .after (action M).2 .refused) ∧
          M.releaseWith m action false = (M, .refused)) := by
  refine ⟨fun action runWhenFree => ⟨?_, ?_, fun h => ?_⟩, ?_, ?_, ?_, fun o ho => ⟨?_, ?_⟩,
    fun ho => ⟨?_, fun action => ⟨?_, ?_⟩⟩⟩
  · exact releaseInBlock_eq M m action runWhenFree
  · exact (releaseWith_calmed M m action runWhenFree).symm
  · exact releaseWith_neutral h runWhenFree
  · exact performMutex_unlock M t path m
  · exact performMutex_exclusiveUnlock M t path m
  · exact fun l hl => performLockable_exclusiveRelease M t path hl
  · rw [unlock_of_owned ho]
    exact owner_free m
  · rw [unlock_of_owned ho]
    exact wakeOne_awakens _ _
  · exact releaseWith_of_free ho none false
  · exact releaseWith_free ho action true
  · exact releaseWith_free ho action false

/-- A mutex that task 0 holds.  Tasks 1, 2 and 3 wait for it, and task 1 has terminated. -/
def contended : Machine Nat :=
  { handles := ⟨[{}, { terminated := true, parked := [1] }, { parked := [2] }, { parked := [3] }]⟩
    mutexes := ⟨[{ owner := some 0, waiting := (WaitList.empty {}).append [1, 2, 3] }]⟩
    ready := [0] }

/-- A panicking release passes over the waiter that has terminated and resumes the one behind it;
once the mutex is free, the action still panics but wakes nobody. -/
theorem release_completes_past_terminated :
    let M := contended
    let N := (M.performMutex 0 [0] 0 (.exclusiveUnlock (some "action failed"))).1
    N = (M.unlock 0).1 ∧ (N.mutex 0).owner = none ∧ (N.waiters (.mutex 0)).toList = [3] ∧
      N.ready = [0, 2] ∧ N.handles = rouse M.handles 2 ∧ N.log = [.skipped 1] ∧
      N.performMutex 0 [1] 0 (.exclusiveUnlock (some "action failed")) =
        (N, .unwind "action failed") := by
  intro M N
  obtain ⟨-, -, hunlock, -, hheld, -⟩ := release_completes M 0 0 [0]
  have hN : N = (M.unlock 0).1 := congrArg Prod.fst (hunlock _)
  obtain ⟨howner, hwakes⟩ := hheld 0 (by decide)
  rw [← hN] at howner hwakes
  obtain ⟨-, -, hagain, -, -, hfree⟩ := release_completes N 0 0 [1]
  refine ⟨hN, howner, hwakes.waiters.trans (by decide), hwakes.ready.trans (by decide),
    hwakes.handles.trans rfl, hwakes.log.trans rfl, ?_⟩
  rw [hagain, (hfree howner).1]
  rfl

end Machine

end BlockingSync
