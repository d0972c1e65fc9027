/-
What a pipeline can be relied on for.

Each clause of `Accounted` is one of the things that the main thread, the producers and the
consumers do for each other; all of them hold at every moment of every run, and every run
comes to an end.
-/
import BlockingSync.Proofs.Pipeline.Progress

namespace BlockingSync.Pipeline

variable {p : Plan} {s s' : State} {event : Option Event} {events : List Event}

/-! ### What the main thread has told of the snapshot -/

/-- What the main thread must have told before it comes to a stage. -/
def MainStage.HasTold (events : List Event) : MainStage → Prop
  | .clear _ | .restore _ => .snapshotKept snapshotText ∈ events
  | .done => .snapshotKept snapshotText ∈ events ∧ .snapshotRestored raisedBound 3 ∈ events
  | _ => True

theorem MainStage.HasTold.mono {m : MainStage} (h : m.HasTold events) (event : Option Event) :
    m.HasTold (event.toList ++ events) := by
  have hkept : ∀ e ∈ events, e ∈ event.toList ++ events := fun e he =>
    List.mem_append.2 (.inr he)
  cases m with
  | clear | restore => exact hkept _ h
  | done => exact ⟨hkept _ h.1, hkept _ h.2⟩
  | _ => exact trivial

theorem Accounts.hasTold_goes (h : Accounts p s events) (htold : s.main.HasTold events)
    {m : MainStage} (hgoes : Goes p s s.main m event) :
    m.HasTold (event.toList ++ events) := by
  generalize hm : s.main = m₀ at hgoes
  cases hgoes with
  | kept hsnapshot =>
      obtain rfl := Except.ok.inj (hsnapshot.symm.trans (h.snapshot_eq hm))
      exact List.mem_cons_self
  | restored hread =>
      rw [hm] at htold
      obtain ⟨-, rfl⟩ := h.leaves hm (Nat.le_refl 7)
      obtain rfl := Except.ok.inj (hread.symm.trans ofJsonText_snapshotText)
      exact ⟨List.mem_cons_of_mem _ htold, List.mem_cons_self⟩
  | _ => exact trivial

theorem Accounts.hasTold_step (h : Accounts p s events) (htold : s.main.HasTold events)
    (hmoves : Moves p s s' event) : s'.main.HasTold (event.toList ++ events) := by
  cases hmoves with
  | goes hm hgoes => exact h.hasTold_goes htold (hm ▸ hgoes)
  | produce | takeNumber | takeStop | sum | count | lock | unlock => exact htold.mono _
  | announce =>
      by_cases hasleep : s.main = .asleep
      · simp [State.announce, State.setConsumer, hasleep, MainStage.HasTold]
      · simpa [State.announce, State.setConsumer, hasleep] using htold
  | clear hm =>
      rw [hm] at htold
      exact htold
  | _ => exact trivial

theorem Reachable.hasTold (h : Reachable p s events) (hfits : p.Fits) :
    s.main.HasTold events := by
  induction h with
  | initial => exact trivial
  | step a hreach hstep ih => exact (hreach.accounts hfits).hasTold_step ih (moves_of_step hstep)

/-! ### The account -/

/-- What a pipeline can be relied on for at every moment. -/
structure Accounted (p : Plan) (s : State) (events : List Event) : Prop where
  /-- No number is taken for the mark that stops a consumer. -/
  distinct : ∀ id sent, id < p.producers → sent < p.share → p.number id sent ≠ stopMark
  /-- Whoever takes a stop mark does so when all numbers are taken, each of them once. -/
  behind : ∀ after id before, events = after ++ .took id stopMark :: before →
    (taken before).Perm p.numbers
  /-- No more is counted than there is. -/
  counted : s.counted.val ≤ p.producers * p.share
  /-- When the main thread has waited all numbers are counted, and their sum is right. -/
  waited : 5 ≤ s.main.phase → s.counted.val = p.producers * p.share ∧
    s.checksum = .wrap (List.range (p.producers * p.share)).sum
  /-- The main thread is never refused to wait for the announcement. -/
  granted : ∀ e, .waitFailed e ∉ events
  /-- Nobody announces anything between the main thread's look at the count and its sleep. -/
  heard : s.main = .depart → .announce ∉ s.consumers
  /-- Whenever the main thread sleeps an announcement is still to come. -/
  awaited : s.main = .asleep → s.counted.val < p.producers * p.share ∨
    .lock ∈ s.consumers ∨ .announce ∈ s.consumers
  /-- No consumer takes two stop marks. -/
  once : ∀ id, events.count (.took id stopMark) ≤ 1
  /-- When the main thread has seen all consumers end each of them has taken one. -/
  stopped : 7 ≤ s.main.phase → ∀ id < p.consumers, events.count (.took id stopMark) = 1
  kept : ∀ text, .snapshotKept text ∈ events → text = "[32,0,1,2]"
  restored : ∀ capacity length, .snapshotRestored capacity length ∈ events →
    capacity.val = 32 ∧ length = 3
  /-- When the main thread is done it has kept a snapshot and restored it. -/
  ended : s.main = .done → .snapshotKept "[32,0,1,2]" ∈ events ∧
    .snapshotRestored raisedBound 3 ∈ events
  /-- As long as the main thread is not done some thread can move. -/
  onward : s.main ≠ .done → ∃ a, s.CanMove p a
  /-- Every move takes some labour off what is left to do. -/
  shorter : ∀ a s' event, s.step p a = some (s', event) → s'.labour p < s.labour p

namespace Accounts

theorem counted_le (h : Accounts p s events) : s.counted.val ≤ p.producers * p.share := by
  rcases Nat.lt_or_ge s.main.phase 5 with hlt | hge
  · exact Nat.le_of_add_right_le (h.numbered.counted_add_le h.sized (by omega))
  · exact Nat.le_of_eq (h.announced.passed hge)

theorem checksum_eq (h : Accounts p s events) (hfits : p.Fits) (hpassed : 5 ≤ s.main.phase) :
    s.checksum = .wrap (List.range (p.producers * p.share)).sum := by
  rcases Nat.lt_or_ge s.main.phase 7 with hlt | hge
  · exact (h.complete hfits hpassed hlt).checksum
  · exact h.numbered.checksum_eq hfits (h.closed hge).taken (h.announced.passed hpassed)

/-- While the main thread holds the lock nobody else is in a position to announce anything. -/
theorem announce_not_mem (h : Accounts p s events) (hm : s.main = .depart) :
    .announce ∉ s.consumers := by
  intro hmem
  obtain ⟨id, hid⟩ := List.mem_iff_getElem?.1 hmem
  have hmain := h.announced.holder_eq_main (by rw [hm]; rfl)
  have howner := h.announced.holder_eq_consumer hid rfl
  rw [hmain] at howner
  cases howner

theorem count_took_le_one (h : Accounts p s events) (id : Nat) :
    events.count (.took id stopMark) ≤ 1 := by
  rw [h.marked.took]
  split
  · exact Nat.le_refl 1
  · exact Nat.zero_le 1

theorem count_took_eq_one (h : Accounts p s events) (hphase : 7 ≤ s.main.phase) {id : Nat}
    (hid : id < p.consumers) : events.count (.took id stopMark) = 1 := by
  rw [← h.sized.allConsumers (by omega)] at hid
  rw [h.marked.took, if_pos]
  rw [List.getElem?_eq_getElem hid, (h.closed hphase).stopped _ (List.getElem_mem hid)]

end Accounts

/-- **A pipeline accounts for every number.**  Whatever the number of producers, consumers and
numbers, and in whatever order the threads move, all clauses of the account hold at every
moment; and the main thread is done in the end. -/
theorem every_number_accounted (hfits : p.producers * p.share ≤ 18446744073709551615)
    (hconsumers : 0 < p.consumers) :
    (∀ s events, Reachable p s events → Accounted p s events) ∧ p.run.state.main = .done := by
  refine ⟨fun s events h => ?_, Plan.main_run hfits hconsumers⟩
  have haccounts := h.accounts hfits
  have htold := h.hasTold hfits
  exact {
    distinct := fun _ _ hid hsent => Plan.number_ne_stopMark hfits hid hsent
    behind := haccounts.last
    counted := haccounts.counted_le
    waited := fun hpassed =>
      ⟨haccounts.announced.passed hpassed, haccounts.checksum_eq hfits hpassed⟩
    granted := fun _ hmem => haccounts.told _ hmem
    heard := haccounts.announce_not_mem
    awaited := haccounts.announced.asleep
    once := haccounts.count_took_le_one
    stopped := fun hphase _ hid => haccounts.count_took_eq_one hphase hid
    kept := fun _ hmem => haccounts.told _ hmem
    restored := fun _ _ hmem => haccounts.told _ hmem
    ended := fun hm => by
      rw [hm] at htold
      exact htold
    onward := haccounts.exists_canMove hconsumers
    shorter := fun _ _ _ hstep => haccounts.labour_lt hfits (moves_of_step hstep) }

/-- Two producers and two consumers that move in turn. -/
theorem two_by_two_accounted :
    Accounted ⟨2, 2, 3⟩ (Plan.run ⟨2, 2, 3⟩).state (Plan.run ⟨2, 2, 3⟩).events ∧
      (Plan.run ⟨2, 2, 3⟩).state.main = .done := by
  obtain ⟨hreachable, hdone⟩ := every_number_accounted (p := ⟨2, 2, 3⟩) (by decide) (by decide)
  exact ⟨hreachable _ _ (Plan.run_isReachable _), hdone⟩

end BlockingSync.Pipeline
