/-
Who has queued up for a mutex, and what a release of it starts.

The line of a mutex that is held is nothing but the tasks that have asked for it since, in
the order in which they asked (`Arrives.waiters`).  Whatever operation releases the mutex
then, it leaves the mutex free and passes over the dead at the head of the line, and the
rest of the step is a succession.
-/
import BlockingSync.Proofs.Succession

namespace BlockingSync

variable {α : Type}

deriving instance DecidableEq for Object

namespace Machine

variable {M : Machine α} {t : ThreadId} {name : String} {m : MutexId} {others ts : List ThreadId}

/-! ### Crew and release -/

/-- Whether a thread waits for a mutex in a list of operations that gives it back: it takes the
mutex and releases it in a later operation, or has it around a body that keeps away from it. -/
inductive Intends (name : String) (m : MutexId) (t : ThreadId) (s : Thread α) : Prop
  | takes {path before i verb behind}
      (hcode : s.code = [.suspend t (some (.mutex m)), .lock m, .report path .done])
      (hpending : s.pending = before ++ (i, .onObject name verb) :: behind)
      (hverb : verb.isGiving = true) (hbefore : ∀ entry ∈ before, entry.2.avoids name = true)
      (hbehind : ∀ entry ∈ behind, entry.2.avoids name = true) : Intends name m t s
  | synchronizes {path body}
      (hcode : s.code = .suspend t (some (.mutex m)) :: .lock m :: startBody path body ++
        [.unlock m, .report path (.count body.length)])
      (hbody : ∀ op ∈ body, op.avoids name = true)
      (hpending : ∀ entry ∈ s.pending, entry.2.avoids name = true) : Intends name m t s
  | guards {path body}
      (hcode : s.code = .suspend t (some (.mutex m)) :: .lock m :: startBody path body ++
        [.closeGuard m path])
      (hbody : ∀ op ∈ body, op.avoids name = true)
      (hpending : ∀ entry ∈ s.pending, entry.2.avoids name = true) : Intends name m t s

/-- The ways in which a thread is about to release a mutex. -/
inductive Releases (name : String) (m : MutexId) (t : ThreadId) (M : Machine α) : Prop
  | gives {path verb code} (hcode : (M.thread t).code = .start path (.onObject name verb) :: code)
      (hverb : verb.isGiving = true) : Releases name m t M
  /-- At the end of a body, or when a guard is dropped. -/
  | unlocks {code} (hcode : (M.thread t).code = .unlock m :: code) : Releases name m t M
  | waits {path c code} {condition : String}
      (hcode : (M.thread t).code = .start path (.onObject condition (.wait name)) :: code)
      (hcondition : M.object? condition = some (.condition c)) : Releases name m t M

theorem Intends.queues (h : Intends name m t (M.thread t)) : M.Queues name m t := by
  cases h with
  | takes hcode hpending hverb hbefore hbehind =>
      refine ⟨_, hcode, ?_⟩
      rw [hpending]
      exact .later hverb (by simp [Instr.Avoids]) hbefore hbehind
  | synchronizes hcode hbody hpending =>
      refine ⟨_, hcode, .closes (avoids_startBody hbody _) (.inl rfl) ?_ hpending⟩
      simp [Instr.Avoids]
  | guards hcode hbody hpending =>
      exact ⟨_, hcode, .closes (avoids_startBody hbody _) (.inr ⟨_, rfl⟩) (by simp) hpending⟩

theorem Releases.vacates (h : M.Releases name m t) (hready : M.ready = t :: others)
    (hname : M.object? name = some (.mutex m)) (owned : (M.mutex m).owner = some t) :
    Vacates m M M.tick := by
  cases h with
  | gives hcode hverb =>
      rcases tick_giving hready hcode hname hverb owned with ⟨r, htick⟩ | ⟨message, htick⟩ <;>
        exact htick ▸ vacates_free.setCode t _
  | unlocks hcode => exact tick_unlock_of_owned hready hcode owned ▸ vacates_free.setCode t _
  | @waits path c code condition hcode hcondition =>
      have he : M.execute t (.start path (.onObject condition (.wait name))) =
          (M.leave c m t, .goOn [.suspend t (some (.condition c)), .lock m, .report path .ok]) := by
        have hdepart : M.depart c (.native m) t = (M.leave c m t, .departed) :=
          depart_of_owned rfl owned
        simp only [execute, perform, hcondition, performObject, performCondition, performWait,
          hname, lockable?, hdepart]
        rfl
      exact tick_of_goOn hready hcode he ▸ (vacates_leave c t).setCode t _

/-! ### The line -/

/-- Who queues up for a mutex in the next tick, if it is held. -/
def comers (M : Machine α) (m : MutexId) : List ThreadId :=
  match M.doing? with
  | some (t, .lock m') => if m' = m then [t] else []
  | _ => []

theorem comers_of_lock (hready : M.ready = t :: others) {code : List (Instr α)}
    (hcode : (M.thread t).code = .lock m :: code) : M.comers m = [t] := by
  rw [comers, doing?_of_code hready hcode]
  exact if_pos rfl

theorem comers_eq_nil (hready : M.ready = t :: others)
    (hno : ∀ code, (M.thread t).code ≠ .lock m :: code) : M.comers m = [] := by
  unfold comers
  split
  · rename_i u m' hdoing
    obtain ⟨others', code, hready', hcode⟩ := doing?_eq_some.1 hdoing
    obtain rfl := (List.cons.inj (hready.symm.trans hready')).1
    refine if_neg ?_
    rintro rfl
    exact hno _ hcode
  · rfl

/-- The same for so many ticks. -/
def arrivals (m : MutexId) : Nat → Machine α → List ThreadId
  | 0, _ => []
  | n + 1, M => M.comers m ++ arrivals m n M.tick

/-! ### The rest of the step -/

instance (name : String) (m : MutexId) (ts : List ThreadId) (M : Machine α) :
    Decidable (M.Undisputed name m ts) :=
  decidable_of_iff
    (M.object? name = some (.mutex m) ∧
      (∀ t ∈ M.ready.head?, t ∉ ts → (M.tick.mutex m).owner = (M.mutex m).owner ∧
        (M.tick.waiters (.mutex m)).toList = (M.waiters (.mutex m)).toList) ∧
      ∀ t ∈ M.ready.head?, t ∈ ts → (M.mutex m).owner = some t → M.stop? t ≠ none →
        M.tick.ready.head? = some t)
    ⟨fun ⟨named, others, keeps⟩ => ⟨named, others, keeps⟩,
      fun ⟨named, others, keeps⟩ => ⟨named, others, keeps⟩⟩

/-- What holds until nobody is ready holds forever. -/
theorem undisputed_of_le {n : Nat} (still : (ticks n M).ready = [])
    (h : ∀ i ≤ n, (ticks i M).Undisputed name m ts) (i : Nat) :
    (ticks i M).Undisputed name m ts := by
  rcases Nat.le_total i n with hle | hle
  · exact h i hle
  · obtain ⟨extra, rfl⟩ := Nat.exists_eq_add_of_le hle
    rw [ticks_add, ticks_of_still still]
    exact h n le_rfl

end Machine

namespace Scenario

open Machine Setting

variable {s : Scenario} {k : Nat} {past : List (Entry Json)} {M : Machine Json} {name : String}
  {m : MutexId} {a : ThreadId} {others ts : List ThreadId}

/-- The states of a scenario throughout which a task has held a mutex, and who has queued up for it
since; nobody waited for it before. -/
inductive Arrives (s : Scenario) (m : MutexId) (a : ThreadId) :
    List ThreadId → Nat → List (Entry Json) → Machine Json → Prop
  | start {k : Nat} {past : List (Entry Json)} {M : Machine Json} (h : s.Reaches k past M)
      (owned : (M.mutex m).owner = some a)
      (nobody : (M.waiters (.mutex m)).toList = []) : Arrives s m a [] k past M
  | tick {ts : List ThreadId} {k : Nat} {past : List (Entry Json)} {M : Machine Json}
      (h : Arrives s m a ts k past M) (owned : (M.tick.mutex m).owner = some a) :
      Arrives s m a (ts ++ M.comers m) k past M.tick
  | order {ts : List ThreadId} {k : Nat} {past : List (Entry Json)} {M : Machine Json}
      {name : String} {order : Order} {t : ThreadId} (h : Arrives s m a ts k past M)
      (still : M.ready = []) (hstep : s.steps[k]? = some (name, order))
      (ht : M.thread? name = some t) (idle : M.status t = .idle) :
      Arrives s m a ts (k + 1) (past ++ M.log) (M.begin t k order.ops?)
  | refuse {ts : List ThreadId} {k : Nat} {past : List (Entry Json)} {M : Machine Json}
      {name : String} {order : Order} (h : Arrives s m a ts k past M) (still : M.ready = [])
      (hstep : s.steps[k]? = some (name, order))
      (hno : ∀ t, M.thread? name = some t → M.status t ≠ .idle) : Arrives s m a ts (k + 1) past M

theorem Arrives.reaches (h : s.Arrives m a ts k past M) : s.Reaches k past M := by
  induction h with
  | start h => exact h
  | tick _ _ ih => exact ih.tick
  | order _ still hstep ht idle ih => exact ih.order still hstep ht idle
  | refuse _ still hstep hno ih => exact ih.refuse still hstep hno

theorem Arrives.owner (h : s.Arrives m a ts k past M) : (M.mutex m).owner = some a := by
  induction h with
  | start _ owned | tick _ owned => exact owned
  | @order _ _ _ _ _ order _ _ _ _ _ _ ih => cases order <;> exact ih
  | refuse _ _ _ _ ih => exact ih

/-- **Those who queue up stand in line in the order in which they come.** -/
theorem Arrives.waiters (h : s.Arrives m a ts k past M) :
    (M.waiters (.mutex m)).toList = ts := by
  induction h with
  | start _ _ nobody => exact nobody
  | @order _ _ _ _ _ order _ _ _ _ _ _ ih => cases order <;> exact ih
  | refuse _ _ _ _ ih => exact ih
  | @tick ts k past M h owned ih =>
      cases hready : M.ready with
      | nil =>
          have hnone : M.comers m = [] := by simp [comers, doing?, hready]
          rw [tick_eq_self hready, hnone, List.append_nil, ih]
      | cons t others =>
          by_cases hlock : ∃ code, (M.thread t).code = .lock m :: code
          · obtain ⟨code, hcode⟩ := hlock
            rw [tick_lock_of_owned hready hcode h.owner, waiters_setCode, enqueue,
              waiters_setWaiters_self, WaitList.toList_push, ih, comers_of_lock hready hcode]
          · rw [comers_eq_nil hready (not_exists.1 hlock), List.append_nil, ← ih]
            cases h.reaches.sound.touch hready m with
            | stays _ hsame | claims _ _ hsame => exact hsame
            | frees _ _ free =>
                rw [owned] at free
                cases free
            | takes hcode | queues hcode => exact absurd ⟨_, hcode⟩ hlock

theorem Arrives.ticks (h : s.Arrives m a ts k past M) (n : Nat)
    (owned : ∀ i < n, ((Machine.ticks (i + 1) M).mutex m).owner = some a) :
    s.Arrives m a (ts ++ M.arrivals m n) k past (Machine.ticks n M) := by
  induction n generalizing M ts with
  | zero => simpa [arrivals, Machine.ticks] using h
  | succ n ih =>
      rw [arrivals, ← List.append_assoc]
      exact ih (h.tick (owned 0 (by omega))) fun i hi => owned (i + 1) (by omega)

/-- The tasks that queue up in a whole step. -/
theorem Arrives.step {t : ThreadId} {order : Order} (h : s.Arrives m a ts k past M)
    (still : M.ready = []) (hstep : s.steps[k]? = some (name, order))
    (ht : M.thread? name = some t) (idle : M.status t = .idle) {n : Nat}
    (hend : (Machine.ticks n (M.begin t k order.ops?)).ready = [])
    (owned : ∀ i < n, ((Machine.ticks (i + 1) (M.begin t k order.ops?)).mutex m).owner = some a) :
    s.Arrives m a (ts ++ (M.begin t k order.ops?).arrivals m n) (k + 1) (past ++ M.log)
      (Scenario.step M k name order).1 := by
  have hbegun := h.order still hstep ht idle
  have hsame : (Scenario.step M k name order).1 = Machine.ticks n (M.begin t k order.ops?) := by
    simp only [Scenario.step, ht, idle]
    exact hbegun.reaches.sound.run_eq_ticks hend
  exact hsame ▸ hbegun.ticks n owned

/-- What a mutex is named is known from the start. -/
theorem Reaches.knownAs (h : s.Reaches k past M) (hname : M.object? name = some (.mutex m)) :
    s.setting.KnownAs name m := by
  have horigin := h.sound.fits.named _ _ hname
  exact ⟨isPublicMutex_of_object horigin rfl, fun name' o ho hm =>
    s.start_singled name' name o _ m ho horigin hm rfl⟩

/-- **A mutex is granted in the order of arrival, past those who have terminated.**  Tasks have
queued up for a mutex while another held it; each of them will give it back once it has it and has
nothing else to do with it, nobody else contends for it in the rest of the step, and none of them
stops while it has the mutex.  Then, after whatever release, each of them takes the mutex and gives
it back once before the step is over, in the order in which they came, but for those who terminate
in the line: one line of the log says so of each of them, and none of them is woken. -/
theorem granted_in_arrival_order (spares : s.sparesTokens = true)
    (h : s.Arrives m a ts k past M) (hready : M.ready = a :: others)
    (hname : M.object? name = some (.mutex m)) (hrelease : M.Releases name m a)
    (hcrew : ∀ t ∈ ts, Intends name m t (M.thread t))
    (hrest : ∀ n, (Machine.ticks n M.tick).Undisputed name m ts) :
    ∃ n served, M.run = Machine.ticks n M ∧ (Machine.ticks n M).ready = [] ∧ ts.Nodup ∧
      M.PassesOn m ts [.gives a] n served := by
  have hreaches := h.reaches
  have hk := hreaches.knownAs hname
  have hvacates := hrelease.vacates hready hname h.owner
  have hturnover : M.turnover m = [.gives a] := by
    unfold turnover
    rw [h.owner, hvacates.owner]
  obtain ⟨dead, first, rest, hsplit, hdismisses⟩ := hreaches.dismisses spares hready hvacates
    h.waiters (fun t ht => (hcrew t ht).queues) (fun _ => id) fun t ht hnot => absurd ht hnot
  obtain ⟨n, -, hrun, hend⟩ := hreaches.sound.tick.ends
  rw [← hrun] at hend
  obtain ⟨served, hpasses⟩ := hreaches.tick.passes_on spares hk hrest hdismisses.next hend
  have hlater := hreaches.tick.line_ticks spares hk hrest hdismisses.next
  have hwaiters := h.waiters
  have hnodup : ts.Nodup := hwaiters ▸ hreaches.nodup_waiters spares (.mutex m)
  subst hsplit
  refine ⟨n + 1, first.toList ++ served, hreaches.sound.run_eq_ticks hend, hend, hnodup, ?_⟩
  rw [← hturnover]
  exact hreaches.passes_on_of_dismisses spares hwaiters hdismisses hlater hpasses

/-- Five tasks queue up for a mutex.  Its holder terminates the first and the third of them and
then releases it with an action that panics; the fourth terminates the fifth while it has the
mutex. -/
def convoy : Scenario where
  tasks := ["a", "b", "c", "d", "e", "f"]
  objects := [("m", .mutex {})]
  steps := [("a", .run [.onObject "m" .lock]),
    ("b", .run [.onObject "m" .lock, .onObject "m" .unlock]),
    ("c", .run [.synchronize "m" [.onTask "b" .isResumable]]),
    ("d", .run [.onObject "m" .acquire, .onObject "m" .release]),
    ("e", .run [.guard "m" [.onTask "f" .terminate]]),
    ("f", .run [.onObject "m" .lock, .onObject "m" (.exclusiveRelease none)]),
    ("a", .run [.onTask "b" .terminate, .onTask "d" .terminate,
      .onObject "m" (.exclusiveUnlock (some "x"))])]

/-- The convoy when its mutex is about to be released. -/
def beforeRelease : Machine Json :=
  Machine.ticks 7 ((convoy.after 6).begin 0 6 (some [.onTask "b" .terminate, .onTask "d" .terminate,
    .onObject "m" (.exclusiveUnlock (some "x"))]))

theorem convoy_arrives : ∃ past, convoy.Arrives 0 0 [1, 2, 3, 4, 5] 7 past beforeRelease := by
  obtain ⟨past, hreaches⟩ := convoy.reaches_after (k := 1) (by decide) (by decide)
  have h1 : convoy.Arrives 0 0 [] 1 past (convoy.after 1) := .start hreaches (by decide) (by decide)
  have h2 : convoy.Arrives 0 0 [1] 2 _ (convoy.after 2) :=
    h1.step (t := 1) (n := 5) (by decide) rfl (by decide) (by rfl) (by decide) (by decide)
  have h3 : convoy.Arrives 0 0 [1, 2] 3 _ (convoy.after 3) :=
    h2.step (t := 2) (n := 5) (by decide) rfl (by decide) (by rfl) (by decide) (by decide)
  have h4 : convoy.Arrives 0 0 [1, 2, 3] 4 _ (convoy.after 4) :=
    h3.step (t := 3) (n := 5) (by decide) rfl (by decide) (by rfl) (by decide) (by decide)
  have h5 : convoy.Arrives 0 0 [1, 2, 3, 4] 5 _ (convoy.after 5) :=
    h4.step (t := 4) (n := 5) (by decide) rfl (by decide) (by rfl) (by decide) (by decide)
  have h6 : convoy.Arrives 0 0 [1, 2, 3, 4, 5] 6 _ (convoy.after 6) :=
    h5.step (t := 5) (n := 5) (by decide) rfl (by decide) (by rfl) (by decide) (by decide)
  exact ⟨_, (h6.order (t := 0) (by decide) rfl (by decide) (by rfl)).ticks 7 (by decide)⟩

theorem granted_in_arrival_order_past_expired :
    ∃ past, convoy.Arrives 0 0 [1, 2, 3, 4, 5] 7 past beforeRelease ∧
      ∃ n served, beforeRelease.run = Machine.ticks n beforeRelease ∧
        beforeRelease.PassesOn 0 [1, 2, 3, 4, 5] [.gives 0] n served ∧
        1 ∉ served ∧ 3 ∉ served ∧ 5 ∉ served ∧
        beforeRelease.turnovers 0 18 = .gives 0 :: [2, 4].flatMap Dealing.turn := by
  obtain ⟨past, harrives⟩ := convoy_arrives
  have hcrew : ∀ t ∈ [1, 2, 3, 4, 5], Intends "m" 0 t (beforeRelease.thread t) := by
    have hunlock := @Intends.takes _ "m" 0 1 (beforeRelease.thread 1) [0] [] 1 .unlock []
      rfl rfl rfl (by simp) (by simp)
    have hcount := @Intends.synchronizes _ "m" 0 2 (beforeRelease.thread 2) [0]
      [.onTask "b" .isResumable] rfl (by decide) (by decide)
    have hrelease := @Intends.takes _ "m" 0 3 (beforeRelease.thread 3) [0] [] 1 .release []
      rfl rfl rfl (by simp) (by simp)
    have hguard := @Intends.guards _ "m" 0 4 (beforeRelease.thread 4) [0]
      [.onTask "f" .terminate] rfl (by decide) (by decide)
    have hexclusive := @Intends.takes _ "m" 0 5 (beforeRelease.thread 5) [0] [] 1
      (.exclusiveRelease none) [] rfl rfl rfl (by simp) (by simp)
    simp only [List.forall_mem_cons, List.not_mem_nil, false_imp_iff, implies_true, and_true]
    exact ⟨hunlock, hcount, hrelease, hguard, hexclusive⟩
  have hready : beforeRelease.ready = [0] := by decide
  have hname : beforeRelease.object? "m" = some (.mutex 0) := by decide
  have hrest : ∀ i, (Machine.ticks i beforeRelease.tick).Undisputed "m" 0 [1, 2, 3, 4, 5] :=
    undisputed_of_le (n := 17) (by decide) (by decide)
  obtain ⟨n, served, hrun, -, -, hpasses⟩ := granted_in_arrival_order (by decide) harrives hready
    hname (.gives (by rfl) rfl) hcrew hrest
  refine ⟨past, harrives, n, served, hrun, hpasses, ?_, ?_, ?_, by decide⟩
  · rw [hpasses.served 1 (by simp), not_not]
    exact ⟨0, by decide, by decide⟩
  · rw [hpasses.served 3 (by simp), not_not]
    exact ⟨0, by decide, by decide⟩
  · rw [hpasses.served 5 (by simp), not_not]
    exact ⟨13, by decide, by decide⟩

end Scenario

end BlockingSync
