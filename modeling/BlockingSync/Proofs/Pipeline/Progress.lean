/-
A pipeline comes to its end.

As long as the main thread is not done some thread can move: whoever holds the lock can go
on to release it, a full queue is taken from and an empty one is added to, and the main
thread sleeps only while an announcement is still to come.  As every move takes some labour
off, the main thread is done in the end whichever threads move.
-/
import BlockingSync.Proofs.Pipeline.Labour

namespace BlockingSync.Pipeline

variable {p : Plan} {s s' : State} {event : Option Event} {events : List Event} {id : Nat}
  {c c' : ConsumerStage}

/-! ### Somebody can move -/

/-- Whether a thread can move. -/
def State.CanMove (p : Plan) (s : State) (a : Actor) : Prop := (s.step p a).isSome

theorem consumer_canMove (hc : s.consumers[id]? = some c) (hne : c ≠ .stopped)
    (htake : c = .take → s.values ≠ []) (hlock : c = .lock → s.holder = none) :
    s.CanMove p (.consumer id) := by
  simp only [State.CanMove, State.step, State.stepConsumer, hc]
  cases c with
  | take =>
      obtain ⟨v, values, hv⟩ := List.exists_cons_of_ne_nil (htake rfl)
      simp [hv]
  | lock => simp [hlock rfl]
  | stopped => exact absurd rfl hne
  | _ => rfl

theorem producer_canMove {sent : Nat} (hp : s.producers[id]? = some sent) (hmore : sent < p.share)
    (hspace : s.isFull = false) : s.CanMove p (.producer id) := by
  simp [State.CanMove, State.step, State.stepProducer, State.add?, hp, hmore, hspace]

/-- Whoever can move is one of the threads of the plan. -/
theorem Sized.mem_actors (h : Sized p s) {a : Actor} (ha : s.CanMove p a) : a ∈ p.actors := by
  obtain ⟨next, hstep⟩ := Option.isSome_iff_exists.1 ha
  cases a with
  | main => exact List.mem_cons_self
  | producer id =>
      have hlt : id < s.producers.length := by
        refine Nat.lt_of_not_le fun hle => ?_
        simp [State.step, State.stepProducer, hle] at hstep
      simp [Plan.actors, Nat.lt_of_lt_of_le hlt h.producers]
  | consumer id =>
      have hlt : id < s.consumers.length := by
        refine Nat.lt_of_not_le fun hle => ?_
        simp [State.step, State.stepConsumer, hle] at hstep
      simp [Plan.actors, Nat.lt_of_lt_of_le hlt h.consumers]

namespace Accounts

/-- Whoever holds the lock can move. -/
theorem holder_canMove (h : Accounts p s events) {a : Actor} (hheld : s.holder = some a) :
    s.CanMove p a := by
  have hinside := (h.announced.holder a).1 hheld
  cases a with
  | main =>
      simp only [State.CanMove, State.step, State.stepMain]
      simp only [State.isInside] at hinside
      cases hm : s.main with
      | check | depart | unlock => rfl
      | _ =>
          rw [hm] at hinside
          cases hinside
  | producer => cases hinside
  | consumer id =>
      obtain ⟨c, hc, hin⟩ := Option.any_eq_true _ _ |>.1 hinside
      refine consumer_canMove hc ?_ ?_ ?_ <;> rintro rfl <;> cases hin

/-- Some thread can move if a consumer has something to do, or something to take. -/
theorem exists_canMove_of_mem (h : Accounts p s events) (hc : c ∈ s.consumers)
    (hne : c ≠ .stopped) (htake : c = .take → s.values ≠ []) : ∃ a, s.CanMove p a := by
  obtain ⟨id, hid⟩ := List.mem_iff_getElem?.1 hc
  cases hholder : s.holder with
  | none => exact ⟨.consumer id, consumer_canMove hid hne htake fun _ => hholder⟩
  | some a => exact ⟨a, h.holder_canMove hholder⟩

/-- As long as not all stop marks are taken there is a consumer that has not stopped. -/
theorem exists_mem_ne_stopped (h : Accounts p s events) (hphase : 1 ≤ s.main.phase)
    (hfew : s.tally ConsumerStage.stops < p.consumers) : ∃ c ∈ s.consumers, c ≠ .stopped := by
  by_contra hnone
  have hall : ∀ c ∈ s.consumers, c.stops = 1 := fun c hc => by
    have hstopped : c = .stopped := not_not.1 fun hne => hnone ⟨c, hc, hne⟩
    rw [hstopped]
    rfl
  rw [State.tally, List.map_congr_left hall, ← h.sized.allConsumers hphase] at hfew
  simp at hfew

theorem stops_lt_of_mem (h : Accounts p s events) (hc : c ∈ s.consumers) (hne : c ≠ .stopped) :
    s.tally ConsumerStage.stops < p.consumers := by
  have hzero := ConsumerStage.stops_eq_zero hne
  have hone : ∀ c ∈ s.consumers, c.stops ≤ 1 := by
    rintro (_ | _ | _ | _ | _ | _ | _) - <;> simp [ConsumerStage.stops]
  calc s.tally ConsumerStage.stops < (s.consumers.map fun _ => 1).sum :=
        List.sum_lt_sum _ _ hone ⟨c, hc, by omega⟩
    _ = s.consumers.length := by simp
    _ ≤ p.consumers := h.sized.consumers

/-- A queue that holds something is taken from as long as stop marks are to be sent. -/
theorem exists_canMove_of_values (h : Accounts p s events) (hphase : 1 ≤ s.main.phase)
    (hvalues : s.values ≠ []) (hfew : s.tally ConsumerStage.stops < p.consumers) :
    ∃ a, s.CanMove p a := by
  obtain ⟨c, hc, hne⟩ := h.exists_mem_ne_stopped hphase hfew
  exact h.exists_canMove_of_mem hc hne fun _ => hvalues

theorem stops_lt (h : Accounts p s events) (hunsent : 0 < s.main.unsent p) :
    s.tally ConsumerStage.stops < p.consumers := by
  have hconserved := h.marked.conserved
  omega

end Accounts

theorem values_ne_nil_of_isFull (h : s.isFull = true) : s.values ≠ [] := by
  intro hnil
  simp [State.isFull, hnil] at h
  omega

namespace Accounts

/-- While the main thread sleeps somebody can move, for not all numbers are counted yet or the
announcement is about to be made. -/
theorem exists_canMove_of_asleep (h : Accounts p s events) (hconsumers : 0 < p.consumers)
    (hm : s.main = .asleep) : ∃ a, s.CanMove p a := by
  rcases h.announced.asleep hm with hmore | hlock | hannounce
  · by_cases hbusy : ∃ c ∈ s.consumers, c.uncounted ≠ 0
    · obtain ⟨c, hc, hpos⟩ := hbusy
      refine h.exists_canMove_of_mem hc ?_ ?_ <;> rintro rfl <;> exact absurd rfl hpos
    · push Not at hbusy
      have hidle : s.tally ConsumerStage.uncounted = 0 := by
        refine List.sum_eq_zero fun n hn => ?_
        obtain ⟨c, hc, rfl⟩ := List.mem_map.1 hn
        exact hbusy c hc
      have hconserved := h.numbered.conserved (by simp [hm, MainStage.phase])
      rw [h.sized.added_eq (by simp [hm, MainStage.phase])] at hconserved
      have hlength := hconserved.length_eq
      rw [List.length_append, ← h.numbered.counted, Plan.length_numbers] at hlength
      refine h.exists_canMove_of_values (by simp [hm, MainStage.phase]) ?_
        (h.stops_lt (by simpa [hm, MainStage.unsent] using hconsumers))
      intro hnil
      simp only [State.numbers, hnil, List.filter_nil, List.length_nil] at hlength
      omega
  · exact h.exists_canMove_of_mem hlock (by simp) (by simp)
  · exact h.exists_canMove_of_mem hannounce (by simp) (by simp)

theorem isFull_of_leave (h : Accounts p s events) {n : Nat} {left : List Nat}
    (hm : s.main = .leave (n :: left)) : s.isFull = false := by
  have hphase : s.main.phase = 7 := by rw [hm]; rfl
  obtain ⟨gone, hgone, hvalues⟩ := h.leaves hm (Nat.le_refl 7)
  have hlength : s.values.length < leftovers.length := by
    rw [hvalues, List.length_map, ← hgone]
    simp
  have hfew : s.values.length < raisedBound.val := hlength.trans (by decide)
  rw [State.isFull, h.sized.raised (by omega)]
  simp [hfew]

theorem main_ne_failed (h : Accounts p s events) (e : SyncError) : s.main ≠ .failed e :=
  fun hm => h.leaves hm (Nat.le_refl 7)

theorem main_of_isOver (h : Accounts p s events) (hover : s.isOver = true) : s.main = .done := by
  unfold State.isOver at hover
  split at hover
  · assumption
  · rename_i e hm
    exact absurd hm (h.main_ne_failed e)
  · cases hover

/-- **Nobody waits forever: as long as the main thread is not done some thread can move.** -/
theorem exists_canMove (h : Accounts p s events) (hconsumers : 0 < p.consumers)
    (hm : s.main ≠ .done) : ∃ a, s.CanMove p a := by
  have hmain : (s.stepMain p).isSome → ∃ a, s.CanMove p a := fun hsome => ⟨.main, hsome⟩
  cases hstage : s.main with
  | done => exact absurd hstage hm
  | failed e => exact absurd hstage (h.main_ne_failed e)
  | asleep => exact h.exists_canMove_of_asleep hconsumers hstage
  | joinProducers =>
      by_cases hall : ∀ sent ∈ s.producers, p.share ≤ sent
      · refine hmain ?_
        simpa [State.stepMain, hstage] using hall
      · push Not at hall
        obtain ⟨sent, hmem, hmore⟩ := hall
        obtain ⟨id, hid⟩ := List.mem_iff_getElem?.1 hmem
        cases hfull : s.isFull with
        | false => exact ⟨.producer id, producer_canMove hid hmore hfull⟩
        | true =>
            exact h.exists_canMove_of_values (by simp [hstage, MainStage.phase])
              (values_ne_nil_of_isFull hfull)
              (h.stops_lt (by simpa [hstage, MainStage.unsent] using hconsumers))
  | lock | relock =>
      cases hholder : s.holder with
      | none =>
          refine hmain ?_
          simp [State.stepMain, hstage, hholder]
      | some a => exact ⟨a, h.holder_canMove hholder⟩
  | sendStops left =>
      cases left with
      | zero =>
          refine hmain ?_
          simp [State.stepMain, hstage]
      | succ left =>
          cases hfull : s.isFull with
          | false =>
              refine hmain ?_
              simp [State.stepMain, hstage, State.add?, hfull]
          | true =>
              exact h.exists_canMove_of_values (by simp [hstage, MainStage.phase])
                (values_ne_nil_of_isFull hfull) (h.stops_lt (by simp [hstage, MainStage.unsent]))
  | joinConsumers =>
      by_cases hall : ∀ c ∈ s.consumers, c = .stopped
      · refine hmain ?_
        simpa [State.stepMain, hstage] using hall
      · push Not at hall
        obtain ⟨c, hc, hne⟩ := hall
        have hfew := h.stops_lt_of_mem hc hne
        refine h.exists_canMove_of_mem hc hne fun _ hnil => ?_
        have hconserved := h.marked.conserved
        rw [hnil, hstage] at hconserved
        simp only [List.count_nil, MainStage.unsent] at hconserved
        omega
  | leave left =>
      refine hmain ?_
      cases left with
      | nil => simp [State.stepMain, hstage]
      | cons n left => simp [State.stepMain, hstage, State.add?, h.isFull_of_leave hstage]
  | keepSnapshot | restore =>
      refine hmain ?_
      simp only [State.stepMain, hstage]
      split <;> rfl
  | startConsumers | startProducers =>
      refine hmain ?_
      simp only [State.stepMain, hstage]
      split <;> rfl
  | _ =>
      refine hmain ?_
      simp [State.stepMain, hstage]

end Accounts
/-! ### Whole runs -/

namespace Run

variable {r : Run} {a : Actor}

theorem IsReachable.labour_move_lt (h : r.IsReachable p) (hfits : p.Fits)
    (ha : r.state.CanMove p a) : (r.move p a).state.labour p < r.state.labour p := by
  obtain ⟨⟨s', event⟩, hstep⟩ := Option.isSome_iff_exists.1 ha
  rw [Run.move, hstep]
  exact (h.accounts hfits).labour_lt hfits (moves_of_step hstep)

theorem move_of_not_canMove (ha : ¬ r.state.CanMove p a) : r.move p a = r := by
  rw [State.CanMove, Option.not_isSome_iff_eq_none] at ha
  rw [Run.move, ha]

theorem IsReachable.labour_moves_le (h : r.IsReachable p) (hfits : p.Fits) (order : List Actor) :
    (r.moves p order).state.labour p ≤ r.state.labour p := by
  induction order generalizing r with
  | nil => exact Nat.le_refl _
  | cons b order ih =>
      refine (ih (h.move b)).trans ?_
      by_cases hb : r.state.CanMove p b
      · exact Nat.le_of_lt (h.labour_move_lt hfits hb)
      · rw [move_of_not_canMove hb]

/-- A round in which somebody can move takes some labour off. -/
theorem IsReachable.labour_moves_lt (h : r.IsReachable p) (hfits : p.Fits) {order : List Actor}
    (hmem : a ∈ order) (ha : r.state.CanMove p a) :
    (r.moves p order).state.labour p < r.state.labour p := by
  induction order generalizing r with
  | nil => cases hmem
  | cons b order ih =>
      by_cases hb : r.state.CanMove p b
      · exact Nat.lt_of_le_of_lt ((h.move b).labour_moves_le hfits order)
          (h.labour_move_lt hfits hb)
      · have hrest : a ∈ order := (List.mem_cons.1 hmem).resolve_left fun hab => hb (hab ▸ ha)
        rw [Run.moves, List.foldl_cons, move_of_not_canMove hb]
        exact ih h hrest ha

/-- Enough rounds bring the main thread to its end. -/
theorem IsReachable.main_rounds (h : r.IsReachable p) (hfits : p.Fits)
    (hconsumers : 0 < p.consumers) {fuel : Nat} (hfuel : r.state.labour p ≤ fuel) :
    (r.rounds p p.actors fuel).state.main = .done := by
  induction fuel generalizing r with
  | zero =>
      refine not_not.1 fun hm => ?_
      have haccounts := h.accounts hfits
      obtain ⟨a, ha⟩ := haccounts.exists_canMove hconsumers hm
      have hlt := h.labour_move_lt hfits ha
      omega
  | succ fuel ih =>
      have haccounts := h.accounts hfits
      rw [Run.rounds]
      split
      · rename_i hover
        exact haccounts.main_of_isOver hover
      · rename_i hover
        have hm : r.state.main ≠ .done := fun hm => hover (by rw [State.isOver, hm])
        obtain ⟨a, ha⟩ := haccounts.exists_canMove hconsumers hm
        have hlt := h.labour_moves_lt hfits (haccounts.sized.mem_actors ha) ha
        exact ih (h.moves p.actors) (by omega)

end Run

/-- **In turn the threads bring a pipeline to its end.** -/
theorem Plan.main_run (hfits : p.Fits) (hconsumers : 0 < p.consumers) :
    p.run.state.main = .done :=
  Run.IsReachable.main_rounds (r := ⟨.initial, []⟩) .initial hfits hconsumers (labour_initial_le p)

end BlockingSync.Pipeline
