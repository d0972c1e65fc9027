/-
Where the numbers are.

A number that a producer has added is in the queue until a consumer takes it, and a number
that was taken is counted once and added to the sum once.  `Numbered` says so of every
moment; since each producer adds its share and no more (`Sized`), whoever knows that all
numbers are counted knows that the queue holds none of them, and what their sum is.
-/
import Mathlib.Algebra.Order.BigOperators.Group.List
import Mathlib.Algebra.Order.Group.Nat
import BlockingSync.Proofs.Pipeline.Moves

namespace BlockingSync.Pipeline

/-! ### The numbers of a plan -/

namespace Plan

variable {p : Plan}

/-- All numbers that the producers add. -/
def numbers (p : Plan) : List Word :=
  (List.range (p.producers * p.share)).map .wrap

/-- The numbers that producers have added, the first of which has the given index. -/
def addedFrom (p : Plan) (first : Nat) : List Nat → List Word
  | [] => []
  | sent :: rest => (List.range sent).map (p.number first) ++ p.addedFrom (first + 1) rest

/-- The numbers that have been added when each producer has added so many. -/
def added (p : Plan) (sents : List Nat) : List Word := p.addedFrom 0 sents

/-- Whether all numbers are below the mark that stops a consumer. -/
def Fits (p : Plan) : Prop := p.producers * p.share ≤ stopMark.val

theorem addedFrom_concat (first : Nat) (sents : List Nat) (sent : Nat) :
    p.addedFrom first (sents ++ [sent]) =
      p.addedFrom first sents ++ (List.range sent).map (p.number (first + sents.length)) := by
  induction sents generalizing first with
  | nil => simp [addedFrom]
  | cons head sents ih =>
      have hnext : first + 1 + sents.length = first + (head :: sents).length := by
        rw [List.length_cons]
        omega
      rw [List.cons_append, addedFrom, ih, hnext, addedFrom, List.append_assoc]

theorem length_addedFrom (first : Nat) (sents : List Nat) :
    (p.addedFrom first sents).length = sents.sum := by
  induction sents generalizing first with
  | nil => rfl
  | cons sent sents ih => simp [addedFrom, ih]

/-- One more number of one producer. -/
theorem addedFrom_set (first : Nat) {sents : List Nat} {id sent : Nat}
    (h : sents[id]? = some sent) :
    (p.addedFrom first (sents.set id (sent + 1))).Perm
      (p.number (first + id) sent :: p.addedFrom first sents) := by
  induction sents generalizing first id with
  | nil => cases h
  | cons head sents ih =>
      cases id with
      | zero =>
          obtain rfl := Option.some.inj h
          rw [List.set_cons_zero, addedFrom, addedFrom, List.range_succ, List.map_append,
            List.append_assoc]
          exact List.perm_middle
      | succ id =>
          have hindex : first + 1 + id = first + (id + 1) := by omega
          rw [List.set_cons_succ, addedFrom, addedFrom, ← hindex]
          exact ((ih (first + 1) h).append_left _).trans List.perm_middle

theorem added_nil : p.added [] = [] := rfl

theorem added_start (sents : List Nat) : p.added (sents ++ [0]) = p.added sents := by
  rw [added, addedFrom_concat]
  exact List.append_nil _

theorem added_set {sents : List Nat} {id sent : Nat} (h : sents[id]? = some sent) :
    (p.added (sents.set id (sent + 1))).Perm (p.number id sent :: p.added sents) := by
  have hset := addedFrom_set (p := p) 0 h
  rwa [Nat.zero_add] at hset

theorem length_added_le {sents : List Nat} (hlength : sents.length ≤ p.producers)
    (hsent : ∀ sent ∈ sents, sent ≤ p.share) :
    (p.added sents).length ≤ p.producers * p.share := by
  rw [added, length_addedFrom]
  exact (List.sum_le_card_nsmul _ _ hsent).trans (Nat.mul_le_mul_right _ hlength)

/-- When every producer has added its share all numbers have been added. -/
theorem added_replicate : p.added (List.replicate p.producers p.share) = p.numbers := by
  have hparts : ∀ n, p.added (List.replicate n p.share) = (List.range (n * p.share)).map .wrap := by
    intro n
    induction n with
    | zero => simp [added_nil]
    | succ n ih =>
        rw [List.replicate_succ', added, addedFrom_concat, ← added, ih, Nat.succ_mul,
          List.range_add, List.map_append, List.map_map, List.length_replicate, Nat.zero_add]
        rfl
  exact hparts p.producers

theorem length_numbers : p.numbers.length = p.producers * p.share := by
  simp [numbers]

/-- The number that a producer adds is below the total. -/
theorem number_lt {id sent : Nat} (hid : id < p.producers) (hsent : sent < p.share) :
    id * p.share + sent < p.producers * p.share :=
  calc id * p.share + sent < id * p.share + p.share := Nat.add_lt_add_left hsent _
    _ = (id + 1) * p.share := (Nat.succ_mul _ _).symm
    _ ≤ p.producers * p.share := Nat.mul_le_mul_right _ hid

theorem wrap_val {n : Nat} (h : n ≤ stopMark.val) : (Word.wrap n).val = n :=
  Nat.mod_eq_of_lt (Nat.lt_succ_of_le h)

/-- **No number is the mark that stops a consumer.** -/
theorem number_ne_stopMark (hfits : p.Fits) {id sent : Nat} (hid : id < p.producers)
    (hsent : sent < p.share) : p.number id sent ≠ stopMark := by
  have hlt := Nat.lt_of_lt_of_le (number_lt hid hsent) hfits
  intro heq
  have hval := congrArg Fin.val heq
  rw [number, wrap_val (Nat.le_of_lt hlt)] at hval
  omega

theorem total_val (hfits : p.Fits) : p.total.val = p.producers * p.share :=
  wrap_val hfits

end Plan

/-! ### How many threads there are, and how much they have done -/

/-- How far the main thread has brought everybody. -/
structure Sized (p : Plan) (s : State) : Prop where
  consumers : s.consumers.length ≤ p.consumers
  producers : s.producers.length ≤ p.producers
  sent : ∀ sent ∈ s.producers, sent ≤ p.share
  allConsumers : 1 ≤ s.main.phase → s.consumers.length = p.consumers
  allProducers : 2 ≤ s.main.phase → s.producers.length = p.producers
  raised : 3 ≤ s.main.phase → s.capacity = raisedBound
  joined : 4 ≤ s.main.phase → ∀ sent ∈ s.producers, p.share ≤ sent

variable {p : Plan} {s s' : State} {event : Option Event}

theorem sized_initial (p : Plan) : Sized p .initial :=
  ⟨Nat.zero_le _, Nat.zero_le _, by simp [State.initial], by simp [State.initial, MainStage.phase],
    by simp [State.initial, MainStage.phase], by simp [State.initial, MainStage.phase],
    by simp [State.initial, MainStage.phase]⟩

/-- Nothing of this depends on what the consumers do next. -/
theorem Sized.congr (h : Sized p s) (hconsumers : s'.consumers.length = s.consumers.length)
    (hproducers : s'.producers = s.producers) (hcapacity : s'.capacity = s.capacity)
    (hphase : s'.main.phase = s.main.phase) : Sized p s' := by
  refine ⟨?_, ?_, ?_, ?_, ?_, ?_, ?_⟩
  · rw [hconsumers]; exact h.consumers
  · rw [hproducers]; exact h.producers
  · rw [hproducers]; exact h.sent
  · rw [hconsumers, hphase]; exact h.allConsumers
  · rw [hproducers, hphase]; exact h.allProducers
  · rw [hcapacity, hphase]; exact h.raised
  · rw [hproducers, hphase]; exact h.joined

/-- The main thread goes on once it has done what it had to do. -/
theorem Sized.advance (h : Sized p s) {m : MainStage}
    (consumers : s.main.phase < 1 → 1 ≤ m.phase → p.consumers ≤ s.consumers.length)
    (producers : s.main.phase < 2 → 2 ≤ m.phase → p.producers ≤ s.producers.length)
    (raised : s.main.phase < 3 → 3 ≤ m.phase → s.capacity = raisedBound)
    (joined : s.main.phase < 4 → 4 ≤ m.phase → ∀ sent ∈ s.producers, p.share ≤ sent) :
    Sized p { s with main := m } := by
  refine ⟨h.consumers, h.producers, h.sent, fun hm => ?_, fun hm => ?_, fun hm => ?_, fun hm => ?_⟩
  · exact (Nat.lt_or_ge s.main.phase 1).elim
      (fun hlt => Nat.le_antisymm h.consumers (consumers hlt hm)) h.allConsumers
  · exact (Nat.lt_or_ge s.main.phase 2).elim
      (fun hlt => Nat.le_antisymm h.producers (producers hlt hm)) h.allProducers
  · exact (Nat.lt_or_ge s.main.phase 3).elim (fun hlt => raised hlt hm) h.raised
  · exact (Nat.lt_or_ge s.main.phase 4).elim (fun hlt => joined hlt hm) h.joined

theorem Sized.goes (h : Sized p s) {m : MainStage} (hgoes : Goes p s s.main m event) :
    Sized p { s with main := m } := by
  generalize hm : s.main = m₀ at hgoes
  cases hgoes with
  | consumersStarted hall =>
      refine h.advance (fun _ _ => hall) ?_ ?_ ?_ <;> simp [hm, MainStage.phase]
  | producersStarted hall =>
      refine h.advance ?_ (fun _ _ => hall) ?_ ?_ <;> simp [hm, MainStage.phase]
  | producersJoined hall =>
      refine h.advance ?_ ?_ ?_ (fun _ _ => hall) <;> simp [hm, MainStage.phase]
  | _ => refine h.advance ?_ ?_ ?_ ?_ <;> simp [hm, MainStage.phase]

theorem Sized.step (h : Sized p s) (hmoves : Moves p s s' event) : Sized p s' := by
  cases hmoves with
  | @produce id sent hp hmore =>
      have hset : ∀ sent' ∈ s.producers.set id (sent + 1), sent' = sent + 1 ∨ sent' ∈ s.producers :=
        fun sent' hmem => (List.mem_or_eq_of_mem_set hmem).symm
      refine ⟨h.consumers, by simpa using h.producers, fun sent' hmem => ?_, h.allConsumers,
        fun hphase => by simpa using h.allProducers hphase, h.raised, fun hphase => ?_⟩
      · rcases hset sent' hmem with rfl | hmem
        · exact hmore
        · exact h.sent sent' hmem
      · exact absurd (h.joined hphase sent (List.mem_of_getElem? hp)) (Nat.not_le.2 hmore)
  | takeNumber | takeStop | sum | count | lock | unlock =>
      exact h.congr (by simp [State.setConsumer]) rfl rfl rfl
  | announce =>
      refine h.congr (by simp [State.setConsumer, State.announce]) rfl rfl ?_
      by_cases hasleep : s.main = .asleep
      · simp [State.announce, State.setConsumer, hasleep, MainStage.phase]
      · simp [State.announce, State.setConsumer, hasleep]
  | goes hm hgoes => exact h.goes (hm ▸ hgoes)
  | startConsumer hm hmore =>
      refine ⟨?_, h.producers, h.sent, ?_, ?_, ?_, ?_⟩
      · rw [List.length_append]
        exact hmore
      all_goals simp [MainStage.phase]
  | startProducer hm hmore =>
      have hconsumers := h.allConsumers (by simp [hm, MainStage.phase])
      refine ⟨h.consumers, ?_, ?_, fun _ => hconsumers, ?_, ?_, ?_⟩
      · rw [List.length_append]
        exact hmore
      · intro sent hmem
        rcases List.mem_append.1 hmem with hmem | hmem
        · exact h.sent sent hmem
        · rw [List.mem_singleton.1 hmem]
          exact Nat.zero_le _
      all_goals simp [MainStage.phase]
  | raise hm =>
      have hraised : Sized p { s with capacity := raisedBound, main := .raiseBound } := by
        refine ⟨h.consumers, h.producers, h.sent, ?_, ?_, fun _ => rfl, ?_⟩
        · exact fun _ => h.allConsumers (by simp [hm, MainStage.phase])
        · exact fun _ => h.allProducers (by simp [hm, MainStage.phase])
        · simp [MainStage.phase]
      exact hraised.advance (by simp [MainStage.phase]) (by simp [MainStage.phase])
        (fun _ _ => rfl) (by simp [MainStage.phase])
  | acquire hm =>
      refine h.congr rfl rfl rfl ?_
      rcases hm with hm | hm <;> simp [hm, MainStage.phase]
  | depart hm | release hm | sendStop hm | leave hm | clear hm =>
      exact h.congr rfl rfl rfl (by simp [hm, MainStage.phase])

/-! ### Where the numbers are -/

/-- The number that was taken, if any. -/
def Event.number? : Event → Option Word
  | .took _ v => if v = stopMark then none else some v
  | _ => none

/-- The numbers that were taken, the latest first. -/
def taken (events : List Event) : List Word := events.filterMap Event.number?

/-- The numbers in the queue. -/
def State.numbers (s : State) : List Word := s.values.filter (· ≠ stopMark)

namespace ConsumerStage

/-- How many numbers a consumer has taken and not yet counted. -/
def uncounted : ConsumerStage → Nat
  | .sum _ | .count => 1
  | _ => 0

/-- The number that a consumer has taken and not yet added to the sum. -/
def unsummed : ConsumerStage → Nat
  | .sum v => v.val
  | _ => 0

end ConsumerStage

open ConsumerStage

/-- Where the numbers are that producers have added. -/
structure Numbered (p : Plan) (s : State) (events : List Event) : Prop where
  conserved : s.main.phase < 7 → (taken events ++ s.numbers).Perm (p.added s.producers)
  counted : s.counted.val + s.tally uncounted = (taken events).length
  summed : Word.wrap (s.checksum.val + s.tally unsummed) =
    Word.wrap ((taken events).map Fin.val).sum

variable {events events' : List Event}

theorem numbered_initial (p : Plan) : Numbered p .initial [] :=
  ⟨fun _ => .refl _, rfl, rfl⟩

theorem wrap_congr {m n : Nat} (h : Word.wrap m = Word.wrap n) (k : Nat) :
    Word.wrap (m + k) = Word.wrap (n + k) := by
  rw [Word.wrap, Word.wrap, Fin.mk.injEq] at *
  rw [Nat.add_mod, h, ← Nat.add_mod]

theorem wrap_val_add (c v : Word) (n : Nat) :
    Word.wrap ((c + v).val + n) = Word.wrap (c.val + v.val + n) := by
  simp [Word.wrap, Fin.val_add]

/-- One more is counted. -/
theorem val_add_one {c : Word} (h : c.val < stopMark.val) : (c + Word.wrap 1).val = c.val + 1 := by
  have hlt : c.val < 18446744073709551615 := h
  rw [Fin.val_add]
  simp [Word.wrap]
  omega

theorem numbers_add {v : Word} (hv : s'.values = s.values ++ [v]) (hne : v ≠ stopMark) :
    s'.numbers = s.numbers ++ [v] := by
  simp [State.numbers, hv, hne]

/-- Nobody has come nearer to the end of a number. -/
theorem Numbered.congr (h : Numbered p s events) (htaken : taken events' = taken events)
    (hconserved : s'.main.phase < 7 → s.main.phase < 7 ∧ s'.numbers = s.numbers ∧
      p.added s'.producers = p.added s.producers)
    (hcounted : s'.counted = s.counted) (hchecksum : s'.checksum = s.checksum)
    (huncounted : s'.tally uncounted = s.tally uncounted)
    (hunsummed : s'.tally unsummed = s.tally unsummed) : Numbered p s' events' := by
  refine ⟨fun hphase => ?_, ?_, ?_⟩
  · obtain ⟨hbefore, hnumbers, hadded⟩ := hconserved hphase
    rw [htaken, hnumbers, hadded]
    exact h.conserved hbefore
  · rw [htaken, hcounted, huncounted, h.counted]
  · rw [htaken, hchecksum, hunsummed, h.summed]

/-- As long as numbers are taken, no more were taken than there are. -/
theorem Numbered.length_taken_le (h : Numbered p s events) (hsized : Sized p s)
    (hphase : s.main.phase < 7) :
    (taken events).length + s.numbers.length ≤ p.producers * p.share := by
  rw [← List.length_append, (h.conserved hphase).length_eq]
  exact Plan.length_added_le hsized.producers hsized.sent

theorem le_tally {weight : ConsumerStage → Nat} {c : ConsumerStage} (hc : c ∈ s.consumers) :
    weight c ≤ s.tally weight :=
  List.single_le_sum (fun _ _ => Nat.zero_le _) _ (List.mem_map_of_mem hc)

theorem Numbered.counted_add_le (h : Numbered p s events) (hsized : Sized p s)
    (hphase : s.main.phase < 7) : s.counted.val + s.tally uncounted ≤ p.producers * p.share := by
  rw [h.counted]
  exact Nat.le_of_add_right_le (h.length_taken_le hsized hphase)

/-- While somebody is to count a number not all numbers are counted. -/
theorem Numbered.counted_lt (h : Numbered p s events) (hsized : Sized p s)
    (hphase : s.main.phase < 7) {id : Nat} (hc : s.consumers[id]? = some .count) :
    s.counted.val < p.producers * p.share := by
  have hone : uncounted .count ≤ s.tally uncounted := le_tally (List.mem_of_getElem? hc)
  exact Nat.lt_of_lt_of_le (Nat.lt_add_of_pos_right hone) (h.counted_add_le hsized hphase)

theorem Numbered.produce (h : Numbered p s events) (hsized : Sized p s) (hfits : p.Fits)
    {id sent : Nat} (hp : s.producers[id]? = some sent) (hmore : sent < p.share)
    (hvalues : s'.values = s.values ++ [p.number id sent])
    (hproducers : s'.producers = s.producers.set id (sent + 1))
    (hsame : s'.main = s.main ∧ s'.counted = s.counted ∧ s'.checksum = s.checksum ∧
      s'.consumers = s.consumers) : Numbered p s' events := by
  obtain ⟨hlt, -⟩ := List.getElem?_eq_some_iff.1 hp
  have hne := Plan.number_ne_stopMark hfits (Nat.lt_of_lt_of_le hlt hsized.producers) hmore
  obtain ⟨hmain, hcounted, hchecksum, hconsumers⟩ := hsame
  refine ⟨fun hphase => ?_, ?_, ?_⟩
  · rw [hmain] at hphase
    rw [numbers_add hvalues hne, hproducers, ← List.append_assoc]
    refine (List.perm_append_singleton _ _).trans ?_
    exact ((h.conserved hphase).cons _).trans (Plan.added_set hp).symm
  · rw [hcounted, State.tally, hconsumers]
    exact h.counted
  · rw [hchecksum, State.tally, hconsumers]
    exact h.summed

theorem Numbered.take (h : Numbered p s events) {id : Nat} {v : Word} {rest : List Word}
    (hc : s.consumers[id]? = some .take) (hv : s.values = v :: rest) (hne : v ≠ stopMark)
    (hset : s'.consumers = s.consumers.set id (.sum v)) (hvalues : s'.values = rest)
    (hsame : s'.main = s.main ∧ s'.counted = s.counted ∧ s'.checksum = s.checksum ∧
      s'.producers = s.producers) : Numbered p s' (.took id v :: events) := by
  have htaken : taken (.took id v :: events) = v :: taken events := by
    simp [taken, Event.number?, hne]
  have hnumbers : s.numbers = v :: s'.numbers := by
    simp [State.numbers, hv, hvalues, hne]
  obtain ⟨hmain, hcounted, hchecksum, hproducers⟩ := hsame
  refine ⟨fun hphase => ?_, ?_, ?_⟩
  · rw [hmain] at hphase
    have hbefore := h.conserved hphase
    rw [hnumbers] at hbefore
    rw [htaken, hproducers]
    exact List.perm_middle.symm.trans hbefore
  · have htally : s'.tally uncounted = s.tally uncounted + 1 := tally_of_set uncounted hc hset
    rw [htaken, hcounted, List.length_cons, htally, ← Nat.add_assoc, h.counted]
  · have htally : s'.tally unsummed = s.tally unsummed + v.val := tally_of_set unsummed hc hset
    have hbefore := wrap_congr h.summed v.val
    rw [htaken, hchecksum, htally, List.map_cons, List.sum_cons, Nat.add_comm v.val, ← hbefore,
      Nat.add_assoc]

theorem Numbered.sum (h : Numbered p s events) {id : Nat} {v : Word}
    (hc : s.consumers[id]? = some (.sum v)) (hset : s'.consumers = s.consumers.set id .count)
    (hsum : s'.checksum = s.checksum + v)
    (hsame : s'.main = s.main ∧ s'.counted = s.counted ∧ s'.values = s.values ∧
      s'.producers = s.producers) : Numbered p s' events := by
  obtain ⟨hmain, hcounted, hvalues, hproducers⟩ := hsame
  refine ⟨fun hphase => ?_, ?_, ?_⟩
  · rw [hmain] at hphase
    rw [State.numbers, hvalues, hproducers]
    exact h.conserved hphase
  · rw [hcounted, tally_of_set_eq hc hset rfl]
    exact h.counted
  · have htally : s'.tally unsummed + v.val = s.tally unsummed := tally_of_set unsummed hc hset
    rw [hsum, wrap_val_add, ← h.summed, ← htally, Nat.add_assoc, Nat.add_comm v.val]

theorem Numbered.count (h : Numbered p s events) {id : Nat} {stage : ConsumerStage}
    (hc : s.consumers[id]? = some .count) (hset : s'.consumers = s.consumers.set id stage)
    (hstage : stage = .lock ∨ stage = .take) (hcount : s'.counted = s.counted + Word.wrap 1)
    (hfew : (taken events).length ≤ stopMark.val)
    (hsame : s'.main = s.main ∧ s'.checksum = s.checksum ∧ s'.values = s.values ∧
      s'.producers = s.producers) : Numbered p s' events := by
  obtain ⟨hmain, hchecksum, hvalues, hproducers⟩ := hsame
  have hdone : stage.uncounted = 0 ∧ stage.unsummed = 0 := by
    rcases hstage with rfl | rfl <;> exact ⟨rfl, rfl⟩
  refine ⟨fun hphase => ?_, ?_, ?_⟩
  · rw [hmain] at hphase
    rw [State.numbers, hvalues, hproducers]
    exact h.conserved hphase
  · have htally : s'.tally uncounted + 1 = s.tally uncounted := by
      have hmoved := tally_of_set uncounted hc hset
      rwa [hdone.1] at hmoved
    have hpos : 0 < s.tally uncounted := htally ▸ Nat.succ_pos _
    have hlt : s.counted.val < stopMark.val :=
      calc s.counted.val < s.counted.val + s.tally uncounted := Nat.lt_add_of_pos_right hpos
        _ = (taken events).length := h.counted
        _ ≤ stopMark.val := hfew
    rw [hcount, val_add_one hlt, Nat.add_assoc, Nat.add_comm 1, htally, h.counted]
  · rw [hchecksum, tally_of_set_eq hc hset hdone.2]
    exact h.summed

theorem tally_start {weight : ConsumerStage → Nat} {c : ConsumerStage}
    (h : s'.consumers = s.consumers ++ [c]) (hzero : weight c = 0) :
    s'.tally weight = s.tally weight := by
  simp [State.tally, h, hzero]

theorem taken_goes {m m' : MainStage} (h : Goes p s m m' event) (events : List Event) :
    taken (event.toList ++ events) = taken events := by
  cases h <;> rfl

theorem Numbered.step (h : Numbered p s events) (hsized : Sized p s) (hfits : p.Fits)
    (hstopped : 7 ≤ s.main.phase → ∀ c ∈ s.consumers, c = .stopped)
    (hmoves : Moves p s s' event) : Numbered p s' (event.toList ++ events) := by
  have hbefore : ∀ {id : Nat} {c : ConsumerStage}, s.consumers[id]? = some c → c ≠ .stopped →
      s.main.phase < 7 :=
    fun hc hne => Nat.lt_of_not_le fun hphase =>
      hne (hstopped hphase _ (List.mem_of_getElem? hc))
  cases hmoves with
  | produce hp hmore => exact h.produce hsized hfits hp hmore rfl rfl ⟨rfl, rfl, rfl, rfl⟩
  | takeNumber hc hv hne => exact h.take hc hv hne rfl rfl ⟨rfl, rfl, rfl, rfl⟩
  | takeStop hc hv =>
      refine h.congr rfl (fun hphase => ⟨hphase, ?_, rfl⟩) rfl rfl (tally_of_set_eq hc rfl rfl)
        (tally_of_set_eq hc rfl rfl)
      simp [State.numbers, State.setConsumer, hv]
  | sum hc => exact h.sum hc rfl rfl ⟨rfl, rfl, rfl, rfl⟩
  | count hc hstage =>
      have hfew := h.length_taken_le hsized (hbefore hc (by simp))
      refine h.count hc rfl ?_ rfl ?_ ⟨rfl, rfl, rfl, rfl⟩
      · rw [hstage]
        split
        · exact .inl rfl
        · exact .inr rfl
      · exact (Nat.le_of_add_right_le hfew).trans hfits
  | lock hc | unlock hc =>
      exact h.congr rfl (fun hphase => ⟨hphase, rfl, rfl⟩) rfl rfl (tally_of_set_eq hc rfl rfl)
        (tally_of_set_eq hc rfl rfl)
  | announce hc =>
      exact h.congr rfl (fun _ => ⟨hbefore hc (by simp), rfl, rfl⟩) rfl rfl
        (tally_of_set_eq hc rfl rfl) (tally_of_set_eq hc rfl rfl)
  | goes hm hgoes =>
      refine h.congr (taken_goes hgoes events) (fun hphase => ⟨?_, rfl, rfl⟩) rfl rfl rfl rfl
      rw [hm]
      exact Nat.lt_of_le_of_lt hgoes.phase_le hphase
  | startConsumer hm =>
      exact h.congr rfl (fun _ => ⟨by simp [hm, MainStage.phase], rfl, rfl⟩) rfl rfl
        (tally_start rfl rfl) (tally_start rfl rfl)
  | startProducer hm =>
      exact h.congr rfl (fun _ => ⟨by simp [hm, MainStage.phase], rfl, Plan.added_start _⟩) rfl rfl
        rfl rfl
  | raise hm | depart hm | release hm =>
      exact h.congr rfl (fun _ => ⟨by simp [hm, MainStage.phase], rfl, rfl⟩) rfl rfl rfl rfl
  | acquire hm =>
      refine h.congr rfl (fun _ => ⟨?_, rfl, rfl⟩) rfl rfl rfl rfl
      rcases hm with hm | hm <;> simp [hm, MainStage.phase]
  | sendStop hm =>
      refine h.congr rfl (fun _ => ⟨by simp [hm, MainStage.phase], ?_, rfl⟩) rfl rfl rfl rfl
      simp [State.numbers]
  | leave | clear =>
      exact h.congr rfl (fun hphase => absurd hphase (by simp [MainStage.phase])) rfl rfl rfl rfl

/-! ### When all numbers are counted -/

theorem unsummed_eq_zero (h : s.tally uncounted = 0) : s.tally unsummed = 0 := by
  refine List.sum_eq_zero fun n hn => ?_
  obtain ⟨c, hc, rfl⟩ := List.mem_map.1 hn
  have hle : c.uncounted ≤ s.tally uncounted := le_tally hc
  rw [h] at hle
  cases c with
  | sum v => exact absurd hle (Nat.not_succ_le_zero 0)
  | _ => rfl

theorem Plan.map_val_numbers (hfits : p.Fits) :
    p.numbers.map Fin.val = List.range (p.producers * p.share) := by
  rw [numbers, List.map_map]
  refine (List.map_congr_left fun n hn => ?_).trans (List.map_id _)
  exact wrap_val ((Nat.le_of_lt (List.mem_range.1 hn)).trans hfits)

/-- The sum is right once all numbers are taken and counted. -/
theorem Numbered.checksum_eq (h : Numbered p s events) (hfits : p.Fits)
    (htaken : (taken events).Perm p.numbers) (hall : s.counted.val = p.producers * p.share) :
    s.checksum = .wrap (List.range (p.producers * p.share)).sum := by
  have hcounted := h.counted
  rw [hall, htaken.length_eq, Plan.length_numbers] at hcounted
  have hsum := h.summed
  rw [unsummed_eq_zero (by omega), (htaken.map _).sum_eq, Plan.map_val_numbers hfits] at hsum
  rw [← hsum]
  exact Fin.ext (Nat.mod_eq_of_lt s.checksum.isLt).symm

/-- Each producer has added its share once the main thread has seen all of them end. -/
theorem Sized.added_eq (h : Sized p s) (hjoined : 4 ≤ s.main.phase) :
    p.added s.producers = p.numbers := by
  have hall : s.producers = List.replicate p.producers p.share :=
    List.eq_replicate_iff.2 ⟨h.allProducers (by omega), fun sent hmem =>
      Nat.le_antisymm (h.sent sent hmem) (h.joined hjoined sent hmem)⟩
  rw [hall, Plan.added_replicate]

/-- How things are once all numbers are counted. -/
structure Complete (p : Plan) (s : State) (events : List Event) : Prop where
  taken : (taken events).Perm p.numbers
  numbers : s.numbers = []
  checksum : s.checksum = .wrap (List.range (p.producers * p.share)).sum

/-- **When all numbers are counted none is left in the queue, and their sum is right.** -/
theorem Numbered.complete (h : Numbered p s events) (hsized : Sized p s) (hfits : p.Fits)
    (hjoined : 4 ≤ s.main.phase) (hphase : s.main.phase < 7)
    (hall : s.counted.val = p.producers * p.share) : Complete p s events := by
  have hconserved := h.conserved hphase
  rw [hsized.added_eq hjoined] at hconserved
  have hlength : (taken events).length + s.numbers.length = p.producers * p.share := by
    rw [← List.length_append, hconserved.length_eq, Plan.length_numbers]
  have hcounted := h.counted
  have hnumbers : s.numbers = [] := List.eq_nil_of_length_eq_zero (by omega)
  rw [hnumbers, List.append_nil] at hconserved
  exact ⟨hconserved, hnumbers, h.checksum_eq hfits hconserved hall⟩

end BlockingSync.Pipeline
