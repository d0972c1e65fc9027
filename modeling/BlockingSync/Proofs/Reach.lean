/-
The states of a scenario.

`Reaches` has a case for each thing that takes a scenario on: a tick of the thread that
runs, an order that is taken when the step before is over, and an order that is refused.
The reports of a scenario are taken from states that it reaches.
-/
import BlockingSync.Proofs.Start
import BlockingSync.Proofs.Balance

namespace BlockingSync

/-! ### Balance between steps -/

namespace Machine

variable {α : Type} {M : Machine α} {t : ThreadId}

theorem Balanced.origin (h : M.Fresh) (u : ThreadId) : M.Balanced u := by
  have hplace : M.place? u = none := by simp [place?, (h.idle u).1]
  have hentries : ∀ p, M.entries p u = 0 := fun p => by simp [entries, h.waiters]
  exact ⟨fun _ => ⟨h.notified u, hentries⟩, by simp [hplace], by simp [hplace]⟩

theorem Balanced.give {u : ThreadId} (h : M.Balanced u) (hready : M.ready = [])
    (hidle : M.IsIdle t) (step : Nat) (ops : List (Op α)) : (M.give t step ops).Balanced u := by
  refine h.congr ?_ rfl (fun p => by cases p <;> rfl) id (by simp [hready]) ?_
  · simp only [place?, thread_give]
    split
    · subst u; simp [hidle.1]
    · rfl
  · simp [ready_give, hready]

theorem Balanced.exit {u : ThreadId} (h : M.Balanced u) (t : ThreadId) : (M.exit t).Balanced u := by
  refine h.congr ?_ ?_ (fun p => by cases p <;> rfl) ?_ (fun _ => id) (fun _ => id)
  · simp only [place?, thread_exit]
    split
    · subst u; rfl
    · rfl
  · rw [handle_exit]
    split
    · subst u; rfl
    · rfl
  · simp only [isResumable, handle_exit]
    split
    · simp
    · exact id

/-- Whoever can be resumed when a step has begun could be before. -/
theorem isResumable_of_begin {step : Nat} {ops? : Option (List (Op α))} {u : HandleId}
    (h : (M.begin t step ops?).isResumable u = true) : M.isResumable u = true := by
  cases ops? with
  | some ops => exact h
  | none =>
      have live : (M.exit t).isResumable u = true := h
      simp only [isResumable, handle_exit] at live ⊢
      split at live
      · simp at live
      · exact live

theorem isIdle_of_status (h : M.status t = .idle) : M.IsIdle t := by
  unfold status at h
  simp only at h
  split at h
  · cases h
  · split at h
    · rename_i hempty
      simpa [IsIdle] using hempty
    · cases h

theorem tick_eq_self (still : M.ready = []) : M.tick = M := by
  simp only [tick, still]

theorem Balanced.clearLog {u : ThreadId} (h : M.Balanced u) :
    ({ M with log := [] } : Machine α).Balanced u :=
  h.congr rfl rfl (fun p => by cases p <;> rfl) id (fun _ => id) (fun _ => id)

end Machine

/-! ### Runs -/

namespace Scenario

/-- The operations that are given in a step, if any. -/
def given (s : Scenario) (k : Nat) : List (Op Json) :=
  ((s.steps[k]?).bind fun (_, order) => order.ops?).getD []

/-- What is fixed before a scenario is played. -/
def setting (s : Scenario) : Setting Json :=
  ⟨s.start.1, s.given, s.start_new.apart⟩

/-- Whether no operation in a scenario suspends or resumes a task by itself. -/
def sparesTokens (s : Scenario) : Bool :=
  s.steps.all fun (_, order) => (order.ops?.map Op.allSpareTokens).getD true

/-- The states that a scenario comes to, with the number of steps that have begun, and the log of
those before the last. -/
inductive Reaches (s : Scenario) : Nat → List (Entry Json) → Machine Json → Prop
  | start : Reaches s 0 [] s.start.1
  | tick {k past M} (h : Reaches s k past M) : Reaches s k past M.tick
  /-- A step begins when the one before is over. -/
  | order {k past M name order t} (h : Reaches s k past M) (still : M.ready = [])
      (hstep : s.steps[k]? = some (name, order)) (ht : M.thread? name = some t)
      (idle : M.status t = .idle) : Reaches s (k + 1) (past ++ M.log) (M.begin t k order.ops?)
  /-- The task does not take its order. -/
  | refuse {k past M name order} (h : Reaches s k past M) (still : M.ready = [])
      (hstep : s.steps[k]? = some (name, order))
      (hno : ∀ t, M.thread? name = some t → M.status t ≠ .idle) : Reaches s (k + 1) past M

/-- The states of a scenario in which a step is over, or the thread that ran has just parked or
come to the end of its list. -/
inductive Pauses (s : Scenario) : Nat → List (Entry Json) → Machine Json → Prop
  | still {k past M} (h : Reaches s k past M) (still : M.ready = []) : Pauses s k past M
  | stop {k past M t} (h : Reaches s k past M) (stop : M.ready = t :: M.tick.ready) :
      Pauses s k past M.tick

variable {s : Scenario} {k : Nat} {past : List (Entry Json)} {M : Machine Json}

theorem Reaches.settle (h : s.Reaches k past M) (fuel : Nat) :
    s.Reaches k past (Machine.settle fuel M) := by
  induction fuel generalizing M with
  | zero => exact h
  | succ fuel ih =>
      unfold Machine.settle
      split
      · exact h
      · exact ih h.tick

/-- **Performing a step leads from one state of the scenario to another.** -/
theorem Reaches.step {name : String} {order : Order} (h : s.Reaches k past M) (still : M.ready = [])
    (hstep : s.steps[k]? = some (name, order)) :
    ∃ past', s.Reaches (k + 1) past' (step M k name order).1 := by
  unfold Scenario.step
  split
  · rename_i ht
    exact ⟨past, h.refuse still hstep (by simp [ht])⟩
  · rename_i t ht
    have hno : ∀ status, M.status t = status → status ≠ .idle →
        s.Reaches (k + 1) past M := by
      intro status hs hne
      refine h.refuse still hstep fun u hu => ?_
      obtain rfl := Option.some.inj (ht.symm.trans hu)
      rw [hs]
      exact hne
    split
    · rename_i hs; exact ⟨past, hno _ hs (by simp)⟩
    · rename_i hs; exact ⟨past, hno _ hs (by simp)⟩
    · rename_i hs; exact ⟨past ++ M.log, (h.order still hstep ht hs).settle _⟩

/-- The machine after the first `k` steps. -/
def after (s : Scenario) : Nat → Machine Json
  | 0 => s.start.1
  | k + 1 =>
    match s.steps[k]? with
    | some (name, order) => (step (s.after k) k name order).1
    | none => s.after k

/-- The states between the steps are reached. -/
theorem reaches_after (s : Scenario) {k : Nat} (hk : k ≤ s.steps.length)
    (still : ∀ j < k, (s.after j).ready = []) : ∃ past, s.Reaches k past (s.after k) := by
  induction k with
  | zero => exact ⟨[], .start⟩
  | succ k ih =>
      obtain ⟨past, h⟩ := ih (by omega) fun j hj => still j (by omega)
      have hstep : s.steps[k]? = some (s.steps[k].1, s.steps[k].2) :=
        List.getElem?_eq_getElem (by omega)
      obtain ⟨past', h'⟩ := h.step (still k (by omega)) hstep
      refine ⟨past', ?_⟩
      unfold after
      rw [hstep]
      exact h'

theorem given_of_run {name : String} {order : Order} {ops : List (Op Json)}
    (hstep : s.steps[k]? = some (name, order)) (hops : order.ops? = some ops) :
    s.setting.given k = ops := by
  simp [setting, given, hstep, hops]

theorem sparesTokens_setting (h : s.sparesTokens = true) : s.setting.SparesTokens := by
  intro k
  show Op.allSpareTokens (s.given k) = true
  unfold given
  cases hstep : s.steps[k]? with
  | none => rfl
  | some entry =>
      obtain ⟨name, order⟩ := entry
      have horder := List.all_eq_true.1 h (name, order) (List.mem_of_getElem? hstep)
      cases hops : order.ops? with
      | none => simp [hops, Op.allSpareTokens]
      | some ops => simpa [hops] using horder

/-- **What holds in every state holds throughout a scenario.** -/
theorem Reaches.sound (h : s.Reaches k past M) : s.setting.Sound M := by
  induction h with
  | start => exact .origin s.start_new.fresh
  | tick _ ih => exact ih.tick
  | @order k past M name order t h still hstep ht idle ih =>
      cases hops : order.ops? with
      | none => exact (ih.exit still t).clearLog
      | some ops =>
          rw [← given_of_run hstep hops]
          exact ih.clearLog.give still (Machine.isIdle_of_status idle) k
  | refuse _ _ _ _ ih => exact ih

theorem Pauses.reaches (h : s.Pauses k past M) : s.Reaches k past M := by
  cases h with
  | still h => exact h
  | stop h => exact h.tick

/-- Entries and notifications are in balance throughout a scenario that leaves tokens to the
primitives. -/
theorem Reaches.balanced (spares : s.sparesTokens = true) (h : s.Reaches k past M)
    (u : ThreadId) : M.Balanced u := by
  induction h generalizing u with
  | start => exact .origin s.start_new.fresh u
  | tick h ih =>
      exact Setting.balanced_of_turn (sparesTokens_setting spares) h.sound ih h.sound.turn u
  | @order k past M name order t h still hstep ht idle ih =>
      cases order.ops? with
      | none => exact ((ih u).exit t).clearLog
      | some ops => exact (ih u).clearLog.give still (Machine.isIdle_of_status idle) k ops
  | refuse _ _ _ _ ih => exact ih u

/-- A task that waits at a place when a step is over is on the list there, unless it has
terminated. -/
theorem Reaches.mem_waiters (spares : s.sparesTokens = true) (h : s.Reaches k past M)
    (still : M.ready = []) {u : ThreadId} {p : Place} (hplace : M.place? u = some p)
    (live : M.isResumable u = true) : u ∈ (M.waiters p).toList := by
  have hb := h.balanced spares u
  have hn : (M.handle u).notified = false := by
    cases hw : (M.handle u).notified with
    | false => rfl
    | true => exact absurd (hb.woken p hplace hw).1 (by simp [still])
  have hone : M.entries p u = 1 := (hb.waiting p hplace hn).2.2.2 live
  rw [Machine.entries] at hone
  exact List.count_pos_iff.1 (by omega)

/-- A thread that is not ready when a step is over has nothing to do, or has stopped. -/
theorem Reaches.stopped (h : s.Reaches k past M) (still : M.ready = []) (u : ThreadId) :
    M.IsIdle u ∨ ∃ stop, M.stop? u = some stop := by
  rcases h.sound.orderly.of_not_ready u (by simp [still]) with hi | ⟨stop, hat, -⟩
  · exact .inl hi
  · exact .inr ⟨stop, hat⟩

/-- Two tasks after one mutex. -/
def handover : Scenario where
  tasks := ["a", "b"]
  objects := [("m", .mutex {})]
  steps := [("a", .run [.onObject "m" .lock]), ("b", .run [.onObject "m" .lock]),
    ("a", .run [.onObject "m" .unlock]), ("b", .run [.onObject "m" .unlock])]

end Scenario

end BlockingSync
