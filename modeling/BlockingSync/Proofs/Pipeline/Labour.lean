/-
What is left to do in a pipeline.

Every move takes some labour off: a number is added, taken, summed and counted, a stop mark
is sent and taken, and the main thread goes on.  It looks at the count again only after an
announcement, when all numbers are counted, so it does not go round in circles.
-/
import BlockingSync.Pipeline.Run
import BlockingSync.Proofs.Pipeline.Closing

namespace BlockingSync.Pipeline

/-! ### What is left to do -/

/-- What a consumer has to do before it goes back to the queue. -/
def ConsumerStage.labour : ConsumerStage → Nat
  | .lock => 3
  | .sum _ | .announce => 2
  | .count | .unlock => 1
  | .take | .stopped => 0

/-- What the main thread has to do besides sending stop marks.  As long as numbers are still to
be counted it may have to wait after a look at the count. -/
def MainStage.labour (uncounted : Nat) : MainStage → Nat
  | .startConsumers => 31
  | .startProducers => 30
  | .raiseBound => 29
  | .lookAround => 28
  | .joinProducers => 27
  | .lock => 26
  | .check => 21 + 4 * uncounted
  | .depart => 24
  | .asleep => 23
  | .relock => 22
  | .unlock => 20
  | .readTotals => 19
  | .sendStops _ => 18
  | .joinConsumers => 17
  | .leave left => 4 + 4 * left.length
  | .keepSnapshot => 3
  | .clear _ => 2
  | .restore _ => 1
  | .done | .failed _ => 0

/-- What is to be done with what the queue holds. -/
def toTake (values : List Word) : Nat :=
  (values.map fun v => if v = stopMark then 1 else 3).sum

namespace Plan

/-- What is to be done with the numbers that are not yet added. -/
def toAdd (p : Plan) (sents : List Nat) : Nat :=
  (sents.map fun sent => 4 * (p.share - sent)).sum

end Plan

namespace State

/-- One as long as not all numbers are counted, then zero. -/
def short (p : Plan) (s : State) : Nat :=
  if s.counted < p.total then 1 else 0

/-- What is left to do. -/
def labour (p : Plan) (s : State) : Nat :=
  s.main.labour (s.short p) + 3 * s.short p + 2 * s.main.unsent p +
    (p.consumers - s.consumers.length) +
    (p.producers - s.producers.length) * (4 * p.share + 1) +
    p.toAdd s.producers + toTake s.values + s.tally ConsumerStage.labour

end State

variable {p : Plan} {s s' : State} {event : Option Event} {events : List Event} {id : Nat}
  {c c' : ConsumerStage}

theorem State.short_le_one : s.short p ≤ 1 := by
  unfold short
  split <;> simp

theorem State.short_eq_zero (hfits : p.Fits) (hall : s.counted.val = p.producers * p.share) :
    s.short p = 0 := by
  rw [short, if_neg]
  rw [Fin.lt_def, Plan.total_val hfits]
  omega

theorem State.short_eq_one (hfits : p.Fits) (hmore : s.counted.val < p.producers * p.share) :
    s.short p = 1 := by
  rw [short, if_pos]
  rwa [Fin.lt_def, Plan.total_val hfits]

theorem MainStage.labour_mono (m : MainStage) {n k : Nat} (h : n ≤ k) :
    m.labour n ≤ m.labour k := by
  cases m with
  | check =>
      simp only [labour]
      omega
  | _ => exact Nat.le_refl _

theorem toTake_cons (v : Word) (values : List Word) :
    toTake (v :: values) = (if v = stopMark then 1 else 3) + toTake values :=
  List.sum_cons

theorem toTake_concat (values : List Word) (v : Word) :
    toTake (values ++ [v]) = toTake values + if v = stopMark then 1 else 3 := by
  simp [toTake]

/-- At first there is no more to do than the bound on the number of rounds says. -/
theorem labour_initial_le (p : Plan) : State.initial.labour p ≤ p.effort := by
  have hshort : State.short p { capacity := startBound } ≤ 1 := State.short_le_one
  have hmul : p.producers * (4 * p.share + 1) = 4 * (p.producers * p.share) + p.producers := by
    rw [Nat.mul_add, Nat.mul_one, Nat.mul_left_comm]
  simp only [State.labour, State.initial, MainStage.labour, MainStage.unsent, Plan.toAdd, toTake,
    State.tally, List.length_nil, List.map_nil, List.sum_nil, Nat.sub_zero, hmul, Plan.effort]
  omega

/-! ### Every move takes some of it off -/

/-- A consumer goes on. -/
theorem labour_lt_of_set (hc : s.consumers[id]? = some c)
    (hset : s'.consumers = s.consumers.set id c') (hproducers : s'.producers = s.producers)
    (hunsent : s'.main.unsent p = s.main.unsent p)
    (hless : s'.main.labour (s'.short p) + 3 * s'.short p + toTake s'.values + c'.labour <
      s.main.labour (s.short p) + 3 * s.short p + toTake s.values + c.labour) :
    s'.labour p < s.labour p := by
  have htally := tally_of_set ConsumerStage.labour hc hset
  have hlength : s'.consumers.length = s.consumers.length := by rw [hset, List.length_set]
  simp only [State.labour, hproducers, hunsent, hlength]
  omega

/-- A consumer goes on while nothing else changes but the queue. -/
theorem labour_lt_aside (hc : s.consumers[id]? = some c)
    (hset : s'.consumers = s.consumers.set id c')
    (hsame : s'.main = s.main ∧ s'.counted = s.counted ∧ s'.producers = s.producers)
    (hless : toTake s'.values + c'.labour < toTake s.values + c.labour) :
    s'.labour p < s.labour p := by
  obtain ⟨hmain, hcounted, hproducers⟩ := hsame
  have hshort : s'.short p = s.short p := by rw [State.short, hcounted, State.short]
  refine labour_lt_of_set hc hset hproducers (by rw [hmain]) ?_
  rw [hmain, hshort]
  omega

/-- The main thread goes on while nothing changes but the queue. -/
theorem labour_lt_of_main (hsame : s'.consumers = s.consumers ∧ s'.counted = s.counted ∧
      s'.producers = s.producers)
    (hless : s'.main.labour (s.short p) + 2 * s'.main.unsent p + toTake s'.values <
      s.main.labour (s.short p) + 2 * s.main.unsent p + toTake s.values) :
    s'.labour p < s.labour p := by
  obtain ⟨hconsumers, hcounted, hproducers⟩ := hsame
  have hshort : s'.short p = s.short p := by rw [State.short, hcounted, State.short]
  simp only [State.labour, State.tally, hshort, hconsumers, hproducers]
  omega

namespace Accounts

theorem goes_labour_lt (h : Accounts p s events) {m : MainStage}
    (hgoes : Goes p s s.main m event) : m.labour (s.short p) < s.main.labour (s.short p) := by
  generalize hm : s.main = m₀ at hgoes
  cases hgoes with
  | short hlt =>
      rw [State.short, if_pos hlt]
      decide
  | complete =>
      simp only [MainStage.labour]
      omega
  | slip hfree =>
      have hown := h.announced.holder_eq_main (by rw [hm]; rfl)
      rw [hfree] at hown
      cases hown
  | _ => simp [MainStage.labour, leftovers]

theorem produce_labour_lt {sent : Nat} (hp : s.producers[id]? = some sent)
    (hmore : sent < p.share) : State.labour p { s with
      values := s.values ++ [p.number id sent], producers := s.producers.set id (sent + 1) } <
        s.labour p := by
  have hadd : p.toAdd (s.producers.set id (sent + 1)) + 4 * (p.share - sent) =
      p.toAdd s.producers + 4 * (p.share - (sent + 1)) :=
    sum_map_set (fun sent => 4 * (p.share - sent)) hp (sent + 1)
  have htake := toTake_concat s.values (p.number id sent)
  simp only [State.labour, State.tally, State.short, List.length_set, htake]
  split_ifs <;> omega

theorem count_labour_lt (h : Accounts p s events) (hfits : p.Fits)
    (hc : s.consumers[id]? = some .count) (hset : s'.consumers = s.consumers.set id c')
    (hstage : c' = if s'.counted = p.total then .lock else .take)
    (hsame : s'.main = s.main ∧ s'.producers = s.producers ∧ s'.values = s.values) :
    s'.labour p < s.labour p := by
  obtain ⟨hmain, hproducers, hvalues⟩ := hsame
  have hbefore : s.short p = 1 :=
    State.short_eq_one hfits (h.numbered.counted_lt h.sized (h.phase_lt hc (by simp)) hc)
  have hle : s'.short p ≤ 1 := State.short_le_one
  -- the announcement is paid for by the count's having become complete
  have hpaid : 3 * s'.short p + c'.labour ≤ 3 := by
    rw [hstage]
    split
    · rename_i heq
      have hall : s'.counted.val = p.producers * p.share := heq ▸ Plan.total_val hfits
      rw [State.short_eq_zero hfits hall]
      exact Nat.le_refl 3
    · exact Nat.mul_le_mul_left 3 hle
  have hmono := s.main.labour_mono hle
  refine labour_lt_of_set hc hset hproducers (by rw [hmain]) ?_
  rw [hmain, hvalues, hbefore, ConsumerStage.labour]
  omega

theorem announce_labour_lt (hc : s.consumers[id]? = some .announce)
    (hset : s'.consumers = s.consumers.set id .unlock) (hmain : s'.main = s.announce.main)
    (hsame : s'.counted = s.counted ∧ s'.producers = s.producers ∧ s'.values = s.values) :
    s'.labour p < s.labour p := by
  obtain ⟨hcounted, hproducers, hvalues⟩ := hsame
  have hshort : s'.short p = s.short p := by rw [State.short, hcounted, State.short]
  have hwoken : s'.main.unsent p = s.main.unsent p ∧
      s'.main.labour (s.short p) ≤ s.main.labour (s.short p) := by
    rw [hmain]
    by_cases hasleep : s.main = .asleep
    · simp [State.announce, hasleep, MainStage.unsent, MainStage.labour]
    · simp [State.announce, hasleep]
  refine labour_lt_of_set hc hset hproducers hwoken.1 ?_
  rw [hshort, hvalues, ConsumerStage.labour, ConsumerStage.labour]
  omega

/-- **Every move takes some labour off.** -/
theorem labour_lt (h : Accounts p s events) (hfits : p.Fits) (hmoves : Moves p s s' event) :
    s'.labour p < s.labour p := by
  cases hmoves with
  | produce hp hmore => exact produce_labour_lt hp hmore
  | takeNumber hc hv hne =>
      refine labour_lt_aside hc rfl ⟨rfl, rfl, rfl⟩ ?_
      rw [hv, toTake_cons, if_neg hne]
      simp only [State.setConsumer, ConsumerStage.labour]
      omega
  | takeStop hc hv =>
      refine labour_lt_aside hc rfl ⟨rfl, rfl, rfl⟩ ?_
      rw [hv, toTake_cons, if_pos rfl]
      simp only [State.setConsumer, ConsumerStage.labour]
      omega
  | sum hc | lock hc | unlock hc =>
      exact labour_lt_aside hc rfl ⟨rfl, rfl, rfl⟩ (Nat.lt_succ_self _)
  | count hc hstage => exact h.count_labour_lt hfits hc rfl hstage ⟨rfl, rfl, rfl⟩
  | announce hc => exact announce_labour_lt hc rfl rfl ⟨rfl, rfl, rfl⟩
  | goes hm hgoes =>
      have hless := h.goes_labour_lt (hm ▸ hgoes)
      have hunsent := Goes.unsent_eq hgoes
      refine labour_lt_of_main ⟨rfl, rfl, rfl⟩ ?_
      simp only [hm ▸ hunsent]
      omega
  | startConsumer hm hmore =>
      simp only [State.labour, State.short, State.tally, List.length_append, List.map_append, hm]
      simp only [List.length_singleton, List.map_singleton, List.sum_append, List.sum_singleton,
        ConsumerStage.labour]
      omega
  | startProducer hm hmore =>
      have hrest : p.producers - s.producers.length =
          p.producers - (s.producers.length + 1) + 1 := by omega
      simp only [State.labour, State.short, State.tally, Plan.toAdd, List.length_append,
        List.map_append, hm, hrest, Nat.succ_mul]
      simp only [List.length_singleton, List.map_singleton, List.sum_append, List.sum_singleton]
      omega
  | raise hm | depart hm | release hm =>
      refine labour_lt_of_main ⟨rfl, rfl, rfl⟩ ?_
      simp [hm, MainStage.labour, MainStage.unsent]
  | acquire hm =>
      refine labour_lt_of_main ⟨rfl, rfl, rfl⟩ ?_
      rcases hm with hm | hm
      · have hle := State.short_le_one (p := p) (s := s)
        simp only [hm, MainStage.labour, MainStage.unsent]
        omega
      · have hzero := State.short_eq_zero hfits (h.announced.relock hm)
        simp only [hm, hzero, MainStage.labour, MainStage.unsent]
        omega
  | sendStop hm =>
      refine labour_lt_of_main ⟨rfl, rfl, rfl⟩ ?_
      simp only [hm, toTake_concat, MainStage.labour, MainStage.unsent, if_pos]
      omega
  | @leave n left hm =>
      refine labour_lt_of_main ⟨rfl, rfl, rfl⟩ ?_
      simp only [hm, toTake_concat, MainStage.labour, MainStage.unsent, List.length_cons]
      split <;> omega
  | clear hm =>
      refine labour_lt_of_main ⟨rfl, rfl, rfl⟩ ?_
      simp only [hm, MainStage.labour, MainStage.unsent, toTake, List.map_nil, List.sum_nil]
      omega

end Accounts

end BlockingSync.Pipeline
