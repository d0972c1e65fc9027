/-
The roster of a condition variable.

Somebody who watches a run keeps a roster of the waits on one condition variable.  One half
of it follows the rule by which signals choose: a new wait goes to the end of the line, a
signal selects the earliest wait in the line whose task can be resumed and passes over
those before it, and a broadcast does so with all.  The other half follows what the
threads are seen to do: which of them are suspended, which have left their suspension, and
which have returned.  Neither half looks at the other.
-/
import BlockingSync.Proofs.Reach

namespace BlockingSync

variable {α : Type}

deriving instance DecidableEq for Lockable

/-- A wait that has begun: how many had begun before it, its thread, and the lock it gave up. -/
structure Wait where
  number : Nat
  thread : ThreadId
  lock : Lockable
  deriving DecidableEq

/-- What is known of the waits on a condition variable. -/
structure Roster where
  /-- How many waits have begun. -/
  begun : Nat := 0
  /-- The waits that no signal has come to yet, earliest first. -/
  line : List Wait := []
  /-- The waits that were selected, in that order. -/
  selected : List Wait := []
  /-- The waits that were passed over. -/
  passed : List Wait := []
  /-- The waits that are seen suspended. -/
  suspended : List Wait := []
  /-- The waits that have stopped being suspended, in that order. -/
  left : List Wait := []
  /-- Those of them that have not returned yet. -/
  acquiring : List Wait := []
  /-- The waits that have returned after a suspension, in that order. -/
  returned : List Wait := []

namespace Machine

/-- The thread that runs, and the instruction it is about to do. -/
def doing? (M : Machine α) : Option (ThreadId × Instr α) :=
  match M.ready with
  | [] => none
  | t :: _ => (M.thread t).code.head?.map fun i => (t, i)

/-- Whether a name means a condition variable. -/
def isCondition (M : Machine α) (c : ConditionId) (name : String) : Bool :=
  match M.object? name with
  | some (.condition c') => c' == c
  | _ => false

variable {M : Machine α} {t : ThreadId} {i : Instr α}

theorem doing?_eq_some : M.doing? = some (t, i) ↔
    ∃ others code, M.ready = t :: others ∧ (M.thread t).code = i :: code := by
  unfold doing?
  cases hready : M.ready with
  | nil => simp
  | cons u others =>
      cases hcode : (M.thread u).code with
      | nil =>
          simp only [hcode, List.head?_nil, Option.map_none, List.cons.injEq]
          constructor
          · rintro ⟨⟩
          · rintro ⟨others, code, ⟨rfl, -⟩, hc⟩
            simp [hcode] at hc
      | cons j code =>
          simp only [hcode, List.head?_cons, Option.map_some, Option.some.injEq, Prod.mk.injEq,
            List.cons.injEq]
          constructor
          · rintro ⟨rfl, rfl⟩
            exact ⟨others, code, ⟨rfl, rfl⟩, hcode⟩
          · rintro ⟨others', code', ⟨rfl, -⟩, hc⟩
            exact ⟨rfl, (List.cons.inj (hcode.symm.trans hc)).1⟩

theorem doing?_of_code {others : List ThreadId} {code : List (Instr α)}
    (hready : M.ready = t :: others) (hcode : (M.thread t).code = i :: code) :
    M.doing? = some (t, i) :=
  doing?_eq_some.2 ⟨others, code, hready, hcode⟩

theorem isCondition_iff {c : ConditionId} {name : String} :
    M.isCondition c name = true ↔ M.object? name = some (.condition c) := by
  unfold isCondition
  split
  · rename_i c' ho
    simp [ho]
  · rename_i hne
    simp only [Bool.false_eq_true, false_iff]
    exact hne c

end Machine

namespace Roster

/-! ### By the rule, and by observation -/

/-- A wait begins. -/
def enter (r : Roster) (t : ThreadId) (l : Lockable) : Roster :=
  let w : Wait := ⟨r.begun, t, l⟩
  { r with begun := r.begun + 1, line := r.line ++ [w], suspended := r.suspended ++ [w] }

/-- A signal selects the earliest wait in the line whose task can be resumed. -/
def signal (r : Roster) (live : ThreadId → Bool) : Roster :=
  { r with
    selected := r.selected ++ (r.line.find? fun w => live w.thread).toList
    passed := r.passed ++ r.line.takeWhile fun w => !live w.thread
    line := (r.line.dropWhile fun w => !live w.thread).tail }

/-- A broadcast selects all waits in the line whose tasks can be resumed. -/
def broadcast (r : Roster) (live : ThreadId → Bool) : Roster :=
  { r with
    selected := r.selected ++ r.line.filter fun w => live w.thread
    passed := r.passed ++ r.line.filter fun w => !live w.thread
    line := [] }

/-- A thread leaves its suspension. -/
def leave (r : Roster) (t : ThreadId) : Roster :=
  let leaving := r.suspended.filter (·.thread = t)
  { r with
    suspended := r.suspended.filter (·.thread ≠ t)
    left := r.left ++ leaving
    acquiring := r.acquiring ++ leaving }

/-- A thread returns from its wait, if it was in one. -/
def conclude (r : Roster) (t : ThreadId) : Roster :=
  { r with
    acquiring := r.acquiring.filter (·.thread ≠ t)
    returned := r.returned ++ r.acquiring.filter (·.thread = t) }

/-- An operation begins. -/
def begin (c : ConditionId) (M : Machine α) (t : ThreadId) (r : Roster) : Op α → Roster
  | .onObject name .signal => if M.isCondition c name then r.signal M.isResumable else r
  | .onObject name .broadcast => if M.isCondition c name then r.broadcast M.isResumable else r
  | .onObject name (.wait lock) =>
    match (M.object? lock).bind Machine.lockable? with
    | some l =>
      if M.isCondition c name ∧ M.tick.place? t = some (.condition c) then r.enter t l else r
    | none => r
  | _ => r

/-- The roster after a tick. -/
def tick (c : ConditionId) (M : Machine α) (r : Roster) : Roster :=
  match M.doing? with
  | some (t, .start _ op) => r.begin c M t op
  | some (t, .suspend _ (some (.condition c'))) =>
    if c' = c ∧ M.tick.place? t ≠ some (.condition c) then r.leave t else r
  | some (t, .report _ _) => r.conclude t
  | _ => r

end Roster

/-! ### Moments of a run -/

/-- A moment of a run: how many steps have begun, the state, and the roster so far. -/
structure Moment where
  steps : Nat
  machine : Machine Json
  roster : Roster

namespace Moment

/-- The moment after a tick. -/
def tick (c : ConditionId) (x : Moment) : Moment :=
  ⟨x.steps, x.machine.tick, x.roster.tick c x.machine⟩

/-- Ticks until no thread is ready, at most `fuel` times. -/
def settle (c : ConditionId) : Nat → Moment → Moment
  | 0, x => x
  | fuel + 1, x => if x.machine.ready.isEmpty then x else settle c fuel (x.tick c)

/-- Whether a property holds before each of these ticks. -/
def holdsUntilStill (c : ConditionId) (ok : Moment → Bool) : Nat → Moment → Bool
  | 0, _ => true
  | fuel + 1, x => x.machine.ready.isEmpty || ok x && holdsUntilStill c ok fuel (x.tick c)

end Moment

namespace Scenario

/-- The moments that come after a moment, as long as `ok` holds before every tick. -/
inductive Leads (s : Scenario) (c : ConditionId) (ok : Moment → Bool) (a : Moment) : Moment → Prop
  | refl : Leads s c ok a a
  | tick {b} (h : Leads s c ok a b) (hok : ok b = true) : Leads s c ok a (b.tick c)
  | order {b name order t} (h : Leads s c ok a b) (still : b.machine.ready = [])
      (hstep : s.steps[b.steps]? = some (name, order)) (ht : b.machine.thread? name = some t)
      (idle : b.machine.status t = .idle) :
      Leads s c ok a ⟨b.steps + 1, b.machine.begin t b.steps order.ops?, b.roster⟩
  | refuse {b name order} (h : Leads s c ok a b) (still : b.machine.ready = [])
      (hstep : s.steps[b.steps]? = some (name, order))
      (hno : ∀ t, b.machine.thread? name = some t → b.machine.status t ≠ .idle) :
      Leads s c ok a ⟨b.steps + 1, b.machine, b.roster⟩

/-- The first moment. -/
def opening (s : Scenario) : Moment :=
  ⟨0, s.start.1, {}⟩

/-- Whether a moment is one of the run. -/
def Sees (s : Scenario) (c : ConditionId) (x : Moment) : Prop :=
  s.Leads c (fun _ => true) s.opening x

variable {s : Scenario} {c : ConditionId} {ok ok' : Moment → Bool} {a b x : Moment}

theorem Leads.trans (h : s.Leads c ok a b) (h' : s.Leads c ok b x) : s.Leads c ok a x := by
  induction h' with
  | refl => exact h
  | tick _ hok ih => exact ih.tick hok
  | order _ still hstep ht idle ih => exact ih.order still hstep ht idle
  | refuse _ still hstep hno ih => exact ih.refuse still hstep hno

theorem Leads.mono (h : s.Leads c ok a b) (hmono : ∀ x, ok x = true → ok' x = true) :
    s.Leads c ok' a b := by
  induction h with
  | refl => exact .refl
  | tick _ hok ih => exact ih.tick (hmono _ hok)
  | order _ still hstep ht idle ih => exact ih.order still hstep ht idle
  | refuse _ still hstep hno ih => exact ih.refuse still hstep hno

theorem Sees.leads (h : s.Sees c a) (h' : s.Leads c ok a b) : s.Sees c b :=
  Leads.trans h (h'.mono fun _ _ => rfl)

/-- The moments of a run are those of the states that the scenario comes to. -/
theorem Sees.reaches (h : s.Sees c x) : ∃ past, s.Reaches x.steps past x.machine := by
  induction h with
  | refl => exact ⟨[], .start⟩
  | tick _ _ ih =>
      obtain ⟨past, h⟩ := ih
      exact ⟨past, h.tick⟩
  | order _ still hstep ht idle ih =>
      obtain ⟨past, h⟩ := ih
      exact ⟨_, h.order still hstep ht idle⟩
  | refuse _ still hstep hno ih =>
      obtain ⟨past, h⟩ := ih
      exact ⟨_, h.refuse still hstep hno⟩

/-- **Every state that a scenario comes to is seen, with some roster.** -/
theorem Reaches.seen {k : Nat} {past : List (Entry Json)} {M : Machine Json}
    (h : s.Reaches k past M) (c : ConditionId) : ∃ r, s.Sees c ⟨k, M, r⟩ := by
  induction h with
  | start => exact ⟨{}, .refl⟩
  | tick _ ih =>
      obtain ⟨r, h⟩ := ih
      exact ⟨_, h.tick rfl⟩
  | order _ still hstep ht idle ih =>
      obtain ⟨r, h⟩ := ih
      exact ⟨r, h.order still hstep ht idle⟩
  | refuse _ still hstep hno ih =>
      obtain ⟨r, h⟩ := ih
      exact ⟨r, h.refuse still hstep hno⟩

/-! ### The moments between steps -/

/-- The moment in which a task begins a step. -/
def embark (x : Moment) (t : ThreadId) (order : Order) : Moment :=
  ⟨x.steps + 1, x.machine.begin t x.steps order.ops?, x.roster⟩

/-- The moment after a task was given an order and the step was over. -/
def advance (c : ConditionId) (x : Moment) (task : String) (order : Order) : Moment :=
  match x.machine.thread? task with
  | none => { x with steps := x.steps + 1 }
  | some t =>
    match x.machine.status t with
    | .blocked | .exited => { x with steps := x.steps + 1 }
    | .idle => (embark x t order).settle c (embark x t order).machine.effort

/-- Whether a property holds before each tick of a step. -/
def holdsDuring (c : ConditionId) (ok : Moment → Bool) (x : Moment) (task : String)
    (order : Order) : Bool :=
  match x.machine.thread? task with
  | none => true
  | some t =>
    match x.machine.status t with
    | .blocked | .exited => true
    | .idle => (embark x t order).holdsUntilStill c ok (embark x t order).machine.effort

/-- The moment after the first `k` steps. -/
def moment (s : Scenario) (c : ConditionId) : Nat → Moment
  | 0 => s.opening
  | k + 1 =>
    match s.steps[k]? with
    | some (name, order) => advance c (s.moment c k) name order
    | none => s.moment c k

theorem Leads.settle (h : s.Leads c ok a x) (fuel : Nat)
    (hok : x.holdsUntilStill c ok fuel = true) : s.Leads c ok a (x.settle c fuel) := by
  induction fuel generalizing x with
  | zero => exact h
  | succ fuel ih =>
      unfold Moment.holdsUntilStill at hok
      unfold Moment.settle
      split
      · exact h
      · rename_i hready
        simp only [hready, Bool.false_or, Bool.and_eq_true] at hok
        exact ih (h.tick hok.1) hok.2

theorem steps_settle (fuel : Nat) (x : Moment) : (x.settle c fuel).steps = x.steps := by
  induction fuel generalizing x with
  | zero => rfl
  | succ fuel ih =>
      unfold Moment.settle
      split
      · rfl
      · exact ih _

theorem Leads.advance {name : String} {order : Order} (h : s.Leads c ok a x)
    (still : x.machine.ready = []) (hstep : s.steps[x.steps]? = some (name, order))
    (hok : holdsDuring c ok x name order = true) : s.Leads c ok a (advance c x name order) := by
  unfold holdsDuring at hok
  unfold Scenario.advance
  split
  · rename_i ht
    exact h.refuse still hstep (by simp [ht])
  · rename_i t ht
    have refused : ∀ status, x.machine.status t = status → status ≠ .idle →
        s.Leads c ok a { x with steps := x.steps + 1 } := by
      intro status hs hne
      refine h.refuse still hstep fun u hu => ?_
      obtain rfl := Option.some.inj (ht.symm.trans hu)
      rw [hs]
      exact hne
    split
    · rename_i hs; exact refused _ hs (by simp)
    · rename_i hs; exact refused _ hs (by simp)
    · rename_i hs
      simp only [ht, hs] at hok
      exact (h.order still hstep ht hs).settle _ hok

theorem steps_advance (x : Moment) (name : String) (order : Order) :
    (advance c x name order).steps = x.steps + 1 := by
  unfold advance
  split
  · rfl
  · split
    · rfl
    · rfl
    · exact steps_settle _ _

theorem steps_moment (s : Scenario) (c : ConditionId) {k : Nat} (hk : k ≤ s.steps.length) :
    (s.moment c k).steps = k := by
  induction k with
  | zero => rfl
  | succ k ih =>
      have hstep : s.steps[k]? = some (s.steps[k].1, s.steps[k].2) :=
        List.getElem?_eq_getElem (by omega)
      unfold moment
      rw [hstep]
      exact (steps_advance ..).trans (congrArg (· + 1) (ih (by omega)))

/-- Whether a property holds before each tick of the step with an index. -/
def holdsIn (s : Scenario) (c : ConditionId) (ok : Moment → Bool) (k : Nat) : Bool :=
  match s.steps[k]? with
  | some (name, order) => holdsDuring c ok (s.moment c k) name order
  | none => true

/-- The moments between the steps come one after another. -/
theorem Leads.moment {j k : Nat} (h : s.Leads c ok a (s.moment c j)) (hjk : j ≤ k)
    (hk : k ≤ s.steps.length) (still : ∀ i < k, (s.moment c i).machine.ready = [])
    (hok : ∀ i < k, j ≤ i → s.holdsIn c ok i = true) : s.Leads c ok a (s.moment c k) := by
  induction hjk with
  | refl => exact h
  | @step k hjk ih =>
      have hstep : s.steps[k]? = some (s.steps[k].1, s.steps[k].2) :=
        List.getElem?_eq_getElem (by omega)
      have hbefore := ih (by omega) (fun i hi => still i (by omega)) fun i hi => hok i (by omega)
      have hholds := hok k (by omega) hjk
      unfold holdsIn at hholds
      unfold Scenario.moment
      rw [hstep] at hholds ⊢
      refine hbefore.advance (still k (by omega)) ?_ hholds
      rw [steps_moment s c (by omega)]
      exact hstep

theorem holdsUntilStill_true (fuel : Nat) (x : Moment) :
    x.holdsUntilStill c (fun _ => true) fuel = true := by
  induction fuel generalizing x with
  | zero => rfl
  | succ fuel ih => simp [Moment.holdsUntilStill, ih]

/-- The moments between the steps are moments of the run. -/
theorem sees_moment (s : Scenario) (c : ConditionId) {k : Nat} (hk : k ≤ s.steps.length)
    (still : ∀ j < k, (s.moment c j).machine.ready = []) : s.Sees c (s.moment c k) := by
  refine Leads.moment (j := 0) .refl (by omega) hk still fun i _ _ => ?_
  unfold holdsIn holdsDuring
  split
  · split
    · rfl
    · split
      · rfl
      · rfl
      · exact holdsUntilStill_true ..
  · rfl

end Scenario

end BlockingSync
