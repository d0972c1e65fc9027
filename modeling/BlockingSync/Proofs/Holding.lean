/-
An adapter is held by whoever dealt with it last.

The owner slot and the raw lock are written one after the other, by several operations.
That they stay in step is a matter of one tick (`Deals`): every way to write one of them
writes the other.  So the history of dealings, which looks at neither, tells who owns the
lock at any moment.

Threads that park on a raw lock are unparked one at a time, and an acquisition may overtake
the one that was unparked.  No thread is forgotten all the same: while the lock is free and
threads are parked, one that was unparked is still about to seize it (`Sought`).
-/
import BlockingSync.Proofs.Tenure
import BlockingSync.Proofs.Passage

namespace BlockingSync

variable {α : Type}

/-- Who took a lock last and has not given it back. -/
def lastTaker (dealings : List Dealing) : Option ThreadId :=
  match dealings.getLast? with
  | some (.takes t) => some t
  | _ => none

theorem lastTaker_eq_some {dealings : List Dealing} {t : ThreadId} :
    lastTaker dealings = some t ↔ dealings.getLast? = some (.takes t) := by
  unfold lastTaker
  split <;> simp_all

namespace Machine

variable {M M' : Machine α} {t u : ThreadId} {r : RawLockId} {path : Path} {l : Lockable}
  {code : List (Instr α)} {others : List ThreadId}

/-! ### Who owns the lock -/

/-- If the history names the owner before a dealing, it does so after it. -/
theorem Deals.lastTaker {d : Option Dealing} {dealings : List Dealing} (h : Deals r t M M' d)
    (howner : (M.rawLock r).owner = lastTaker dealings) :
    (M'.rawLock r).owner = BlockingSync.lastTaker (dealings ++ d.toList) := by
  cases h with
  | stays same => simp [same, howner]
  | parks taken last => simp [last, howner]
  | takes free mine => simp [mine, BlockingSync.lastTaker]
  | gives own free => simp [free, BlockingSync.lastTaker]

/-! ### What the operations of an adapter answer -/

/-- How an adapter treats those who release it. -/
structure KnowsOwner (r : RawLockId) (M : Machine α) : Prop where
  /-- A release answers whether the caller is the owner. -/
  release : ∀ t path, (M.performAdapter t path r .release).2 =
    .yield path (.flag ((M.rawLock r).owner == some t))
  exclusiveRelease : ∀ t path, (M.performAdapter t path r (.exclusiveRelease none)).2 =
    .yield path (.released ((M.rawLock r).owner == some t) ((M.rawLock r).owner == some t).toNat)
  /-- A release by anybody else runs no action and changes nothing. -/
  refused : ∀ t, (M.rawLock r).owner ≠ some t →
    (∀ action, M.releaseRaw r t action = (M, .refused)) ∧
      (∀ path, (M.performAdapter t path r .release).1 = M) ∧
        ∀ path panic, M.performAdapter t path r (.exclusiveRelease panic) =
          (M, .yield path (.released false 0))
  /-- An action that panics leaves the lock as it leaves it. -/
  panics : ∀ t, (M.rawLock r).owner = some t →
    (∀ (action : Action α) N message, action M = (N, some message) →
      M.releaseRaw r t action = (N, .panicked message)) ∧
        ∀ path message, M.performAdapter t path r (.exclusiveRelease (some message)) =
          (M, .unwind message)

theorem knowsOwner (M : Machine α) (r : RawLockId) : KnowsOwner r M := by
  have hrefused : ∀ t, (M.rawLock r).owner ≠ some t → ∀ action,
      M.exclusiveRelease (.raw r) t action = (M, .refused) :=
    fun t hne action => releaseRaw_of_ne hne action
  have hmine : ∀ t, (M.rawLock r).owner = some t → ∀ action,
      M.exclusiveRelease (.raw r) t action = endRelease r (action M) :=
    fun t own action => releaseRaw_of_eq own action
  refine ⟨fun t path => ?_, fun t path => ?_, fun t hne => ⟨hrefused t hne, fun path => ?_,
    fun path panic => ?_⟩, fun t own => ⟨fun action N message hact => ?_, fun path message => ?_⟩⟩
  · by_cases own : (M.rawLock r).owner = some t
    · simp only [performAdapter, performLockable, hmine t own, Action.ofPanic, endRelease,
        yieldRelease, own, beq_self_eq_true]
    · simp only [performAdapter, performLockable, hrefused t own, yieldRelease,
        beq_eq_false_iff_ne.2 own]
  · by_cases own : (M.rawLock r).owner = some t
    · simp only [performAdapter, performLockable, hmine t own, Action.ofPanic, endRelease,
        yieldRelease, own, beq_self_eq_true]
    · simp only [performAdapter, performLockable, hrefused t own, yieldRelease,
        beq_eq_false_iff_ne.2 own]
  · simp only [performAdapter, performLockable, hrefused t hne]
  · simp only [performAdapter, performLockable, hrefused t hne, yieldRelease, Bool.toNat_false]
  · rw [releaseRaw_of_eq own, hact]
    rfl
  · simp only [performAdapter, performLockable, hmine t own, Action.ofPanic, endRelease,
      yieldRelease]

/-! ### Nobody is forgotten -/

/-- Whether somebody is about to seize a raw lock if it is free and threads are parked on it. -/
def Sought (r : RawLockId) (M : Machine α) : Prop :=
  (M.rawLock r).locked = false → (M.rawLock r).parked ≠ [] →
    ∃ u ∈ M.ready, M.stop? u = some (.raw r)

/-- A thread that finds a raw lock free takes it. -/
theorem dealing?_of_free (hready : M.ready = t :: others) (hstop : M.stop? t = some (.raw r))
    (free : (M.rawLock r).locked = false) : M.dealing? r = some (.takes t) := by
  cases hcode : (M.thread t).code with
  | nil => simp [stop?, hcode] at hstop
  | cons i code =>
      rw [stop?_of_code hcode] at hstop
      cases i with
      | seize r' =>
          obtain rfl := Stop.raw.inj (Option.some.inj hstop)
          have hexecute : (M.execute t (.seize r')).2 = .goOn [] := by
            simp [execute, trySeize, free]
          simp only [dealing?, hready, hcode, hexecute, dealingOf, if_true]
      | _ => cases hstop

end Machine

namespace Setting

open Machine

variable {S : Setting α} {M : Machine α} {t u : ThreadId} {r : RawLockId}
  {others : List ThreadId}

/-- Behind the thread that runs nobody moves. -/
theorem Sound.stop?_ne (h : S.Sound M) (hready : M.ready = t :: others) (hut : u ≠ t) :
    M.tick.stop? u = M.stop? u := by
  have hhead : M.ready.head? ≠ some u := by
    rw [hready]
    exact fun hc => hut (Option.some.inj hc).symm
  rw [stop?, stop?, h.turn.thread_ne h hhead]

theorem Sound.sought (h : S.Sound M) (hM : Sought r M) : Sought r M.tick := by
  cases hready : M.ready with
  | nil =>
      rwa [tick_eq_self hready]
  | cons t others =>
      have hdeals := h.deals hready r
      generalize hd : M.dealing? r = d at hdeals
      intro free hparked
      cases hdeals with
      | takes _ mine => rw [mine] at free; cases free
      | parks taken last => rw [last, taken] at free; cases free
      | stays same =>
          rw [same] at free hparked
          obtain ⟨u, hu, hstop⟩ := hM free hparked
          -- Whoever is about to seize the lock does not run, for it would take the lock.
          have hut : u ≠ t := by
            rintro rfl
            rw [dealing?_of_free hready hstop free] at hd
            cases hd
          have hothers : u ∈ others := by
            rw [hready, List.mem_cons] at hu
            exact hu.resolve_left hut
          refine ⟨u, ?_, (h.stop?_ne hready hut).trans hstop⟩
          rcases h.tick_ready hready with ⟨woken, hwoken⟩ | hgone
          · rw [hwoken]
            simp [hothers]
          · rwa [hgone]
      | gives _ given hwoken =>
          -- The thread that parked first is unparked where it stands.
          cases hp : (M.rawLock r).parked with
          | nil => simp [given, hp] at hparked
          | cons u parked =>
              have hon : u ∈ M.parkedOn (.raw r) := by simp [parkedOn, hp]
              obtain ⟨hnot, hstop⟩ := h.orderly.of_parked _ u hon
              have hut : u ≠ t := by
                rintro rfl
                exact hnot (by simp [hready])
              refine ⟨u, ?_, (h.stop?_ne hready hut).trans hstop⟩
              rw [hwoken, hp]
              simp

/-- A thread that does not run and stands at a raw lock is parked there. -/
theorem Sound.mem_parked (h : S.Sound M) (hu : u ∉ M.ready) (hstop : M.stop? u = some (.raw r)) :
    u ∈ (M.rawLock r).parked := by
  rcases h.orderly.of_not_ready u hu with hidle | ⟨stop, hat, hmem⟩
  · simp [stop?, hidle.1] at hstop
  · obtain rfl := Option.some.inj (hat.symm.trans hstop)
    exact hmem

end Setting

namespace Scenario

open Machine

/-- The states that a scenario comes to, with what its tasks have done with a raw lock so far. -/
inductive Dealt (s : Scenario) (r : RawLockId) :
    List Dealing → Nat → List (Entry Json) → Machine Json → Prop
  | start : Dealt s r [] 0 [] s.start.1
  | tick {dealings k past M} (h : Dealt s r dealings k past M) :
      Dealt s r (dealings ++ (M.dealing? r).toList) k past M.tick
  | order {dealings k past M name order t} (h : Dealt s r dealings k past M) (still : M.ready = [])
      (hstep : s.steps[k]? = some (name, order)) (ht : M.thread? name = some t)
      (idle : M.status t = .idle) :
      Dealt s r dealings (k + 1) (past ++ M.log) (M.begin t k order.ops?)
  | refuse {dealings k past M name order} (h : Dealt s r dealings k past M) (still : M.ready = [])
      (hstep : s.steps[k]? = some (name, order))
      (hno : ∀ t, M.thread? name = some t → M.status t ≠ .idle) :
      Dealt s r dealings (k + 1) past M

variable {s : Scenario} {r : RawLockId} {dealings : List Dealing} {k : Nat}
  {past : List (Entry Json)} {M : Machine Json}

theorem Dealt.reaches (h : s.Dealt r dealings k past M) : s.Reaches k past M := by
  induction h with
  | start => exact .start
  | tick _ ih => exact ih.tick
  | order _ still hstep ht idle ih => exact ih.order still hstep ht idle
  | refuse _ still hstep hno ih => exact ih.refuse still hstep hno

/-- Every state that a scenario comes to has a history of dealings. -/
theorem Reaches.dealt (h : s.Reaches k past M) (r : RawLockId) :
    ∃ dealings, s.Dealt r dealings k past M := by
  induction h with
  | start => exact ⟨[], .start⟩
  | tick _ ih =>
      obtain ⟨dealings, h⟩ := ih
      exact ⟨_, h.tick⟩
  | order _ still hstep ht idle ih =>
      obtain ⟨dealings, h⟩ := ih
      exact ⟨dealings, h.order still hstep ht idle⟩
  | refuse _ still hstep hno ih =>
      obtain ⟨dealings, h⟩ := ih
      exact ⟨dealings, h.refuse still hstep hno⟩

/-- **The history of dealings names the owner of a raw lock.** -/
theorem Dealt.owner (h : s.Dealt r dealings k past M) :
    (M.rawLock r).owner = lastTaker dealings := by
  induction h with
  | start =>
      rw [s.rawLock_start r]
      rfl
  | @tick dealings k past M h ih =>
      cases hready : M.ready with
      | nil =>
          have hnone : M.dealing? r = none := by rw [dealing?, hready]
          rw [tick_eq_self hready, hnone, Option.toList_none, List.append_nil, ih]
      | cons t others => exact (h.reaches.sound.deals hready r).lastTaker ih
  | @order dealings k past M name order t h still hstep ht idle ih =>
      cases order.ops? <;> exact ih
  | refuse _ _ _ _ ih => exact ih

/-- While a raw lock is free and threads are parked on it, one of them is about to seize it. -/
theorem Reaches.sought (h : s.Reaches k past M) (r : RawLockId) : Sought r M := by
  induction h with
  | start =>
      intro _ hparked
      rw [s.rawLock_start r] at hparked
      exact absurd rfl hparked
  | tick h ih => exact h.sound.sought ih
  | @order k past M name order t h still hstep ht idle ih =>
      -- Nobody is parked on a free lock when a step begins, since nobody is ready.
      intro free hparked
      have hsame : (M.begin t k order.ops?).rawLock r = M.rawLock r := by
        cases order.ops? <;> rfl
      rw [hsame] at free hparked
      obtain ⟨u, hu, -⟩ := ih free hparked
      simp [still] at hu
  | refuse _ _ _ _ ih => exact ih

/-- **An adapter is held by whoever dealt with it last, and forgets nobody.**  At every moment it is
locked exactly while its owner slot is filled, and the slot names the task that took the lock last,
unless the lock was given back since.  Only that task can release it; a panic of its action leaves
the lock as it was.  When a step is over and the lock is free, nobody is parked in an acquisition
of it. -/
theorem held_by_last_taker (s : Scenario) (r : RawLockId) :
    (∀ k past M, s.Reaches k past M ↔ ∃ dealings, s.Dealt r dealings k past M) ∧
    ∀ dealings k past M, s.Dealt r dealings k past M →
      (M.rawLock r).locked = (M.rawLock r).owner.isSome ∧
      (∀ t, (M.rawLock r).owner = some t ↔ dealings.getLast? = some (.takes t)) ∧
      KnowsOwner r M ∧
      (M.ready = [] → (M.rawLock r).locked = false →
        (M.rawLock r).parked = [] ∧ ∀ u code, (M.thread u).code ≠ .seize r :: code) := by
  refine ⟨fun k past M => ⟨fun h => h.dealt r, fun ⟨_, h⟩ => h.reaches⟩, fun dealings k past M h =>
    ⟨h.reaches.matched r, fun t => ?_, knowsOwner M r, fun still free => ?_⟩⟩
  · rw [h.owner, lastTaker_eq_some]
  · have hparked : (M.rawLock r).parked = [] := by
      by_cases hp : (M.rawLock r).parked = []
      · exact hp
      · obtain ⟨u, hu, -⟩ := h.reaches.sought r free hp
        simp [still] at hu
    refine ⟨hparked, fun u code hcode => ?_⟩
    have hmem := h.reaches.sound.mem_parked (u := u) (r := r) (by simp [still])
      (stop?_of_code hcode)
    simp [hparked] at hmem

/-- Two tasks wait for an adapter.  Its owner releases it, which unparks the first of them, and
takes it again before that one runs. -/
def barged : Scenario where
  tasks := ["a", "b", "c"]
  objects := [("r", .adapter)]
  steps := [("a", .run [.onObject "r" .acquire]), ("b", .run [.onObject "r" .acquire]),
    ("c", .run [.onObject "r" .acquire, .onObject "r" .release]),
    ("a", .run [.onObject "r" .release, .onObject "r" .tryAcquire]),
    ("a", .run [.onObject "r" .release]), ("b", .run [.onObject "r" .release])]

theorem held_by_last_taker_barged :
    (barged.after 4).ready = [] ∧ ((barged.after 4).rawLock 0).parked = [2, 1] ∧
    (∃ dealings past, barged.Dealt 0 dealings 4 past (barged.after 4) ∧
      dealings.getLast? = some (.takes 0)) ∧
    (barged.after 4).releaseRaw 0 1 (.ofPanic none) = (barged.after 4, .refused) ∧
    ((barged.after 5).rawLock 0).owner = some 1 ∧
    ((barged.after 6).rawLock 0).locked = false ∧
      ((barged.after 6).rawLock 0).parked = [] := by
  obtain ⟨hreaches, hheld⟩ := held_by_last_taker barged 0
  obtain ⟨past, h⟩ := barged.reaches_after (k := 4) (by decide) (by decide)
  obtain ⟨dealings, hdealt⟩ := (hreaches _ _ _).1 h
  obtain ⟨-, howner, hknows, -⟩ := hheld _ _ _ _ hdealt
  obtain ⟨past', h'⟩ := barged.reaches_after (k := 6) (by decide) (by decide)
  obtain ⟨dealings', hdealt'⟩ := (hreaches _ _ _).1 h'
  have hfree : ((barged.after 6).rawLock 0).locked = false := by decide
  refine ⟨by decide, by decide, ⟨dealings, past, hdealt, (howner 0).1 (by decide)⟩,
    (hknows.refused 1 (by decide)).1 _, by decide, hfree, ?_⟩
  exact ((hheld _ _ _ _ hdealt').2.2.2 (by decide) hfree).1

end Scenario

end BlockingSync
