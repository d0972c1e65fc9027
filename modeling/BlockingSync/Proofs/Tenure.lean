/-
Who holds a lock, and who can release it.

An adapter is locked exactly while a task owns it, and it asks who releases it.  So it
stays with its owner whatever other tasks do, until the owner gives it back itself
(`Deals`): a wait of another task does not take it away, not even a wait that knows
nothing of owners.  A reference to a lock forwards every operation, so it is not told
apart from the lock.

A mutex does not ask.  As long as nobody releases what another task holds, it keeps the
same contract as the adapter; but a task that does release it takes it away from its
owner (`seizure`), through the interface of locks as well as by a wait that cannot tell
who the owner is.
-/
import BlockingSync.Proofs.Dealing
import BlockingSync.Proofs.Reach

namespace BlockingSync

variable {α : Type}

/-- Whether a lock asks who releases it. -/
def Lockable.isStrict : Lockable → Bool
  | .raw _ => true
  | .native _ | .wrapped _ | .minimal _ => false

namespace Machine

/-- Whether a lock is locked. -/
def isLocked (M : Machine α) : Lockable → Bool
  | .native m | .wrapped m | .minimal m => (M.mutex m).owner.isSome
  | .raw r => (M.rawLock r).locked

variable {M M' N : Machine α} {t u : ThreadId} {r : RawLockId} {m : MutexId} {l : Lockable}

theorem holder?_of_mutex? (hl : l.mutex? = some m) : M.holder? l = (M.mutex m).owner := by
  cases l <;> simp only [Lockable.mutex?, Option.some.injEq, reduceCtorEq] at hl <;> (subst hl; rfl)

/-! ### Raw locks and their owners -/

/-- Whether a raw lock is locked exactly while a task owns it. -/
def Matched (r : RawLockId) (M : Machine α) : Prop :=
  (M.rawLock r).locked = (M.rawLock r).owner.isSome

theorem Deals.matched {d : Option Dealing} (h : Deals r t M M' d) (hM : M.Matched r) :
    M'.Matched r := by
  unfold Matched at hM ⊢
  cases h with
  | stays same => rw [same, hM]
  | parks taken last => rw [last]; exact hM
  | takes free mine => rw [mine]; rfl
  | gives own free => rw [free]; rfl

/-- A raw lock stays with its owner while another task runs. -/
theorem Deals.owner {d : Option Dealing} (h : Deals r t M M' d) (hM : M.Matched r)
    (ho : (M.rawLock r).owner = some u) (hut : u ≠ t) : (M'.rawLock r).owner = some u := by
  unfold Matched at hM
  cases h with
  | stays same => rw [same, ho]
  | parks taken last => rw [last]; exact ho
  | takes free => simp [ho, free] at hM
  | gives own => exact absurd (Option.some.inj (ho.symm.trans own)) hut

end Machine

/-! ### Releases -/

namespace Machine

variable {M : Machine α} {t u : ThreadId} {l : Lockable} {c : ConditionId}

/-- What a release comes to, whoever calls it.  A mutex is released for any task. -/
structure HonoursRelease (M : Machine α) (l : Lockable) (t : ThreadId) : Prop where
  /-- A lock is locked exactly while a task holds it. -/
  locked : M.isLocked l = (M.holder? l).isSome
  /-- A task that does not hold the lock is refused: whatever the action is, it does not run, and
  nothing changes. -/
  refused : M.holder? l ≠ some t → l.isStrict = true ∨ M.holder? l = none →
    (∀ action, M.exclusiveRelease l t action = (M, .refused)) ∧
      (∀ path, M.performLockable t path l .release = (M, .yield path (.flag false))) ∧
        ∀ path panic, M.performLockable t path l (.exclusiveRelease panic) =
          (M, .yield path (.released false 0))
  /-- Else the action runs once, between what is done before it and what is done after, and once
  it returns the lock is free, unless the action itself takes it. -/
  released : M.holder? l = some t ∨ l.isStrict = false ∧ M.holder? l ≠ none →
    (∃ (before : Machine α) (after : Machine α × Option String → Machine α × Release),
      ∀ action : Action α, M.exclusiveRelease l t action = after (action before) ∧
        ∀ N, action before = (N, none) → N.holder? l = before.holder? l →
          (after (N, none)).2 = .released ∧ (after (N, none)).1.holder? l = none ∧
            (after (N, none)).1.isLocked l = false) ∧
      (∀ path, (M.performLockable t path l .release).2 = .yield path (.flag true)) ∧
        ∀ path, (M.performLockable t path l (.exclusiveRelease none)).2 =
          .yield path (.released true 1)

theorem releaseWith_of_none {m : MutexId} (h : (M.mutex m).owner = none) (action : Action α) :
    M.releaseWith m action false = (M, .refused) := by
  unfold releaseWith
  rw [h]
  rfl

theorem releaseWith_of_some {m : MutexId} {o : HandleId} (h : (M.mutex m).owner = some o)
    (action : Action α) : M.releaseWith m action false =
      (((action (M.setOwner m none)).1.wakeOne (.mutex m)).1,
        .after (action (M.setOwner m none)).2 .released) := by
  unfold releaseWith
  rw [h]

theorem releaseRaw_of_ne {r : RawLockId} (h : (M.rawLock r).owner ≠ some t) (action : Action α) :
    M.releaseRaw r t action = (M, .refused) := by
  unfold releaseRaw
  rw [if_neg h]

/-- What is done after the action that runs while a raw lock is released. -/
def endRelease (r : RawLockId) : Machine α × Option String → Machine α × Release
  | (N, some message) => (N, .panicked message)
  | (N, none) => ((N.setRawLock r { N.rawLock r with owner := none }).unlockRaw r, .released)

theorem releaseRaw_of_eq {r : RawLockId} (h : (M.rawLock r).owner = some t) (action : Action α) :
    M.releaseRaw r t action = endRelease r (action M) := by
  unfold releaseRaw
  rw [if_pos h]
  split <;> rename_i heq <;> rw [heq] <;> rfl

theorem honoursRelease_of_mutex? {m : MutexId} (hl : l.mutex? = some m) : M.HonoursRelease l t := by
  have hholder : ∀ N : Machine α, N.holder? l = (N.mutex m).owner := fun N => holder?_of_mutex? hl
  have hlocked : ∀ N : Machine α, N.isLocked l = (N.mutex m).owner.isSome := by
    cases l <;> simp only [Lockable.mutex?, Option.some.injEq, reduceCtorEq] at hl <;>
      (subst hl; exact fun _ => rfl)
  have hrelease : ∀ action, M.exclusiveRelease l t action = M.releaseWith m action false := by
    cases l <;> simp only [Lockable.mutex?, Option.some.injEq, reduceCtorEq] at hl <;>
      (subst hl; exact fun _ => rfl)
  refine ⟨by rw [hlocked, hholder], fun _ hfree => ?_, fun hheld => ?_⟩
  · have hnone : (M.mutex m).owner = none := by
      rcases hfree with hstrict | hfree
      · cases l <;> simp [Lockable.isStrict, Lockable.mutex?] at hstrict hl
      · rw [← hholder, hfree]
    have hall : ∀ action, M.exclusiveRelease l t action = (M, .refused) := fun action => by
      rw [hrelease, releaseWith_of_none hnone]
    refine ⟨hall, fun path => ?_, fun path panic => ?_⟩
    · simp only [performLockable, hall, yieldRelease]
    · simp only [performLockable, hall, yieldRelease, Bool.toNat_false]
  · obtain ⟨o, howner⟩ : ∃ o, (M.mutex m).owner = some o := by
      rw [hholder] at hheld
      rcases hheld with hmine | ⟨-, hheld⟩
      · exact ⟨t, hmine⟩
      · exact Option.ne_none_iff_exists'.1 hheld
    have hall : ∀ action, M.exclusiveRelease l t action =
        (((action (M.setOwner m none)).1.wakeOne (.mutex m)).1,
          .after (action (M.setOwner m none)).2 .released) := fun action => by
      rw [hrelease, releaseWith_of_some howner]
    refine ⟨⟨M.setOwner m none,
      fun result => ((result.1.wakeOne (.mutex m)).1, .after result.2 .released),
      fun action => ⟨hall action, fun N _ hN => ?_⟩⟩, fun path => ?_, fun path => ?_⟩
    · have hfree : (N.mutex m).owner = none := by
        rw [hholder, hholder, mutex_setOwner, if_pos rfl] at hN
        exact hN
      refine ⟨rfl, ?_, ?_⟩
      · rw [hholder, owner_wakeOne, hfree]
      · rw [hlocked, owner_wakeOne, hfree]
        rfl
    · simp only [performLockable, hall, Action.ofPanic, Release.after, yieldRelease]
    · simp only [performLockable, hall, Action.ofPanic, Release.after, yieldRelease,
        Bool.toNat_true]

theorem honoursRelease_of_matched {r : RawLockId} (hM : M.Matched r) :
    M.HonoursRelease (.raw r) t := by
  refine ⟨hM, fun hother _ => ?_, fun hheld => ?_⟩
  · have hall : ∀ action, M.exclusiveRelease (.raw r) t action = (M, .refused) :=
      fun action => releaseRaw_of_ne hother action
    refine ⟨hall, fun path => ?_, fun path panic => ?_⟩
    · simp only [performLockable, hall, yieldRelease]
    · simp only [performLockable, hall, yieldRelease, Bool.toNat_false]
  · have hmine : (M.rawLock r).owner = some t := by
      rcases hheld with hmine | ⟨hstrict, -⟩
      · exact hmine
      · simp [Lockable.isStrict] at hstrict
    have hall : ∀ action, M.exclusiveRelease (.raw r) t action = endRelease r (action M) :=
      fun action => releaseRaw_of_eq hmine action
    refine ⟨⟨M, endRelease r, fun action => ⟨hall action, fun N _ _ => ?_⟩⟩, fun path => ?_,
      fun path => ?_⟩
    · obtain ⟨hlocked, howner⟩ := rawLock_giveBack N r
      exact ⟨rfl, howner, hlocked⟩
    · simp only [performLockable, hall, Action.ofPanic, endRelease, yieldRelease]
    · simp only [performLockable, hall, Action.ofPanic, endRelease, yieldRelease,
        Bool.toNat_true]

/-- What a release does is so for every lock, if the raw ones are locked while they are owned. -/
theorem honoursRelease (hM : ∀ r, M.Matched r) (l : Lockable) (t : ThreadId) :
    M.HonoursRelease l t := by
  cases l with
  | native m | wrapped m | minimal m => exact honoursRelease_of_mutex? rfl
  | raw r => exact honoursRelease_of_matched (hM r)

/-! ### Waits -/

end Machine

/-! ### Scenarios -/

theorem Machine.rawLock_ofTasks (names : List String) (r : RawLockId) :
    (Machine.ofTasks names : Machine Json).rawLock r = {} := by
  simp only [Machine.ofTasks, Machine.rawLock, Table.get, List.getD_nil]
  rfl

theorem Machine.rawLock_make {M M' : Machine Json} {name : String} {spec : Spec}
    (h : ∀ r, M.rawLock r = {}) (hmake : M.make name spec = .ok M') (r : RawLockId) :
    M'.rawLock r = {} := by
  cases spec with
  | queue source =>
      simp only [Machine.make] at hmake
      cases hopen : source.open with
      | error e => simp [hopen, Functor.map, Except.map] at hmake
      | ok start =>
          simp only [hopen] at hmake
          obtain rfl := Except.ok.inj hmake
          exact h r
  | adapter =>
      obtain rfl := Except.ok.inj hmake
      show (M.rawLocks.add {}).get r = {}
      rw [Table.get_add]
      split
      · rfl
      · exact h r
  | _ =>
      obtain rfl := Except.ok.inj hmake
      exact h r

theorem Machine.rawLock_makeAll {M : Machine Json} (h : ∀ r, M.rawLock r = {})
    (specs : List (String × Spec)) (r : RawLockId) : (M.makeAll specs).1.rawLock r = {} := by
  induction specs generalizing M with
  | nil => exact h r
  | cons entry specs ih =>
      unfold Machine.makeAll
      split
      · rename_i M' hmake
        exact ih (rawLock_make h hmake)
      · exact ih h

namespace Scenario

open Machine

variable {s : Scenario} {k : Nat} {past : List (Entry Json)} {M : Machine Json}

/-- A raw lock is free at first, and nobody is parked on it. -/
theorem rawLock_start (s : Scenario) (r : RawLockId) : s.start.1.rawLock r = {} :=
  rawLock_makeAll (rawLock_ofTasks s.tasks) s.objects r

/-- **A raw lock is locked exactly while a task owns it.** -/
theorem Reaches.matched (h : s.Reaches k past M) (r : RawLockId) : M.Matched r := by
  induction h with
  | start =>
      rw [Matched, s.rawLock_start r]
      rfl
  | @tick k past M h ih =>
      cases hready : M.ready with
      | nil =>
          rw [tick_eq_self hready]
          exact ih
      | cons t others => exact (h.sound.deals hready r).matched ih
  | @order k past M name order t h still hstep ht idle ih =>
      cases order.ops? <;> exact ih
  | refuse _ _ _ _ ih => exact ih

end Scenario

end BlockingSync
