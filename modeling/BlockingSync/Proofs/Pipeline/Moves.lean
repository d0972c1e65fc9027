/-
What a move in a pipeline can do.

A thread that can move makes one of a few moves, and `Moves` says for each of them when it
is made and what it changes.  Many moves of the main thread change nothing but what it does
next (`Goes`), so whatever does not speak of that holds after them as it did before.
-/
import Mathlib.Algebra.BigOperators.Group.List.Basic
import Mathlib.Algebra.GroupWithZero.Nat
import BlockingSync.Pipeline.Step

namespace BlockingSync.Pipeline

/-! ### Moves -/

/-- The moves of the main thread that change nothing but what it does next. -/
inductive Goes (p : Plan) (s : State) : MainStage → MainStage → Option Event → Prop
  | consumersStarted (h : p.consumers ≤ s.consumers.length) :
      Goes p s .startConsumers .startProducers none
  | producersStarted (h : p.producers ≤ s.producers.length) :
      Goes p s .startProducers .raiseBound none
  | lookAround : Goes p s .lookAround .joinProducers (some (.lookedAround (s.blocked p)))
  | producersJoined (h : ∀ sent ∈ s.producers, p.share ≤ sent) : Goes p s .joinProducers .lock none
  | short (h : s.counted < p.total) : Goes p s .check .depart none
  | complete (h : ¬ s.counted < p.total) : Goes p s .check .unlock none
  | slip (h : s.holder = none) : Goes p s .depart .check none
  | refused {a : Actor} (h : s.holder = some a) (hother : a ≠ .main) :
      Goes p s .depart .unlock (some (.waitFailed .ownership))
  | totals : Goes p s .readTotals (.sendStops p.consumers) (some (.totals s.counted s.checksum))
  | stopsSent : Goes p s (.sendStops 0) .joinConsumers none
  | consumersJoined (h : ∀ c ∈ s.consumers, c = .stopped) :
      Goes p s .joinConsumers (.leave leftovers) none
  | allLeft : Goes p s (.leave []) .keepSnapshot none
  | kept {text : String} (h : s.snapshot = .ok text) :
      Goes p s .keepSnapshot (.clear text) (some (.snapshotKept text))
  | spoiled {e : SyncError} (h : s.snapshot = .error e) : Goes p s .keepSnapshot (.failed e) none
  | restored {text : String} {r : Record (Unsigned .w64)}
      (h : Record.ofJsonText (Json.unsignedReader .w64) text = .ok r) :
      Goes p s (.restore text) .done (some (.snapshotRestored r.capacity r.values.length))
  | unreadable {text : String} {e : SyncError}
      (h : Record.ofJsonText (Json.unsignedReader .w64) text = .error e) :
      Goes p s (.restore text) (.failed e) none

/-- The moves of all threads. -/
inductive Moves (p : Plan) (s : State) : State → Option Event → Prop
  | produce {id sent : Nat} (hp : s.producers[id]? = some sent) (hmore : sent < p.share)
      (hspace : s.isFull = false) :
      Moves p s { s with
        values := s.values ++ [p.number id sent], producers := s.producers.set id (sent + 1) } none
  | takeNumber {id : Nat} {v : Word} {rest : List Word} (hc : s.consumers[id]? = some .take)
      (hv : s.values = v :: rest) (hne : v ≠ stopMark) :
      Moves p s ({ s with values := rest }.setConsumer id (.sum v)) (some (.took id v))
  | takeStop {id : Nat} {rest : List Word} (hc : s.consumers[id]? = some .take)
      (hv : s.values = stopMark :: rest) :
      Moves p s ({ s with values := rest }.setConsumer id .stopped) (some (.took id stopMark))
  | sum {id : Nat} {v : Word} (hc : s.consumers[id]? = some (.sum v)) :
      Moves p s ({ s with checksum := s.checksum + v }.setConsumer id .count) none
  | count {id : Nat} {stage : ConsumerStage} (hc : s.consumers[id]? = some .count)
      (hstage : stage = if s.counted + Word.wrap 1 = p.total then .lock else .take) :
      Moves p s ({ s with counted := s.counted + Word.wrap 1 }.setConsumer id stage) none
  | lock {id : Nat} (hc : s.consumers[id]? = some .lock) (hfree : s.holder = none) :
      Moves p s ({ s with holder := some (.consumer id) }.setConsumer id .announce) none
  | announce {id : Nat} (hc : s.consumers[id]? = some .announce) :
      Moves p s (s.announce.setConsumer id .unlock) none
  | unlock {id : Nat} (hc : s.consumers[id]? = some .unlock) :
      Moves p s ({ s with holder := none }.setConsumer id .take) none
  | goes {m m' : MainStage} {event : Option Event} (hm : s.main = m) (h : Goes p s m m' event) :
      Moves p s { s with main := m' } event
  | startConsumer (hm : s.main = .startConsumers) (hmore : s.consumers.length < p.consumers) :
      Moves p s { s with consumers := s.consumers ++ [.take], main := .startConsumers } none
  | startProducer (hm : s.main = .startProducers) (hmore : s.producers.length < p.producers) :
      Moves p s { s with producers := s.producers ++ [0], main := .startProducers } none
  | raise (hm : s.main = .raiseBound) :
      Moves p s { s with capacity := raisedBound, main := .lookAround }
        (some (.boundSet raisedBound (raisedBound.val - s.capacity.val)))
  | acquire (hm : s.main = .lock ∨ s.main = .relock) (hfree : s.holder = none) :
      Moves p s { s with holder := some .main, main := .check } none
  | depart (hm : s.main = .depart) (hown : s.holder = some .main) :
      Moves p s { s with holder := none, main := .asleep } none
  | release (hm : s.main = .unlock) : Moves p s { s with holder := none, main := .readTotals } none
  | sendStop {left : Nat} (hm : s.main = .sendStops (left + 1)) (hspace : s.isFull = false) :
      Moves p s { s with values := s.values ++ [stopMark], main := .sendStops left } none
  | leave {n : Nat} {left : List Nat} (hm : s.main = .leave (n :: left))
      (hspace : s.isFull = false) :
      Moves p s { s with values := s.values ++ [.wrap n], main := .leave left } none
  | clear {text : String} (hm : s.main = .clear text) :
      Moves p s { s with values := [], main := .restore text } none

variable {p : Plan} {s s' : State} {event : Option Event}

theorem add?_eq_some {v : Word} (h : s.add? v = some s') :
    s.isFull = false ∧ s' = { s with values := s.values ++ [v] } := by
  unfold State.add? at h
  split at h
  · cases h
  · rename_i hspace
    exact ⟨by simpa using hspace, (Option.some.inj h).symm⟩

theorem moves_of_stepProducer {id : Nat} (h : s.stepProducer p id = some s') :
    Moves p s s' none := by
  unfold State.stepProducer at h
  split at h
  · cases h
  · rename_i sent hp
    split at h
    · rename_i hmore
      obtain ⟨s₁, hadd, rfl⟩ := Option.map_eq_some_iff.1 h
      obtain ⟨hspace, rfl⟩ := add?_eq_some hadd
      exact .produce hp hmore hspace
    · cases h

theorem moves_of_stepConsumer {id : Nat} (h : s.stepConsumer p id = some (s', event)) :
    Moves p s s' event := by
  unfold State.stepConsumer at h
  split at h
  · cases h
  · cases h
  · rename_i hc
    split at h
    · cases h
    · rename_i v rest hv
      obtain ⟨rfl, rfl⟩ := Prod.mk.inj (Option.some.inj h)
      split
      · rename_i hstop
        subst hstop
        exact .takeStop hc hv
      · rename_i hstop
        exact .takeNumber hc hv hstop
  · rename_i v hc
    cases h
    exact .sum hc
  · rename_i hc
    cases h
    exact .count hc rfl
  · rename_i hc
    split at h
    · cases h
    · rename_i hfree
      cases h
      exact .lock hc (by simpa using hfree)
  · rename_i hc
    cases h
    exact .announce hc
  · rename_i hc
    cases h
    exact .unlock hc

theorem moves_of_depart (hm : s.main = .depart) (h : s.depart = (s', event)) :
    Moves p s s' event := by
  unfold State.depart at h
  split at h
  · rename_i hown
    cases h
    exact .depart hm hown
  · rename_i hfree
    cases h
    exact .goes hm (.slip hfree)
  · rename_i a hother hheld
    cases h
    exact .goes hm (.refused hheld hother)

theorem moves_of_stepMain (h : s.stepMain p = some (s', event)) : Moves p s s' event := by
  unfold State.stepMain at h
  split at h <;> rename_i hm
  · split at h <;> rename_i hlength
    · cases h
      exact .startConsumer hm hlength
    · cases h
      exact .goes hm (.consumersStarted (Nat.not_lt.1 hlength))
  · split at h <;> rename_i hlength
    · cases h
      exact .startProducer hm hlength
    · cases h
      exact .goes hm (.producersStarted (Nat.not_lt.1 hlength))
  · cases h
    exact .raise hm
  · cases h
    exact .goes hm .lookAround
  · split at h
    · rename_i hall
      cases h
      exact .goes hm (.producersJoined (by simpa using hall))
    · cases h
  · split at h
    · cases h
    · rename_i hfree
      cases h
      exact .acquire (.inl hm) (by simpa using hfree)
  · split at h <;> rename_i hcounted
    · cases h
      exact .goes hm (.short hcounted)
    · cases h
      exact .goes hm (.complete hcounted)
  · exact moves_of_depart hm (Option.some.inj h)
  · cases h
  · split at h
    · cases h
    · rename_i hfree
      cases h
      exact .acquire (.inr hm) (by simpa using hfree)
  · cases h
    exact .release hm
  · cases h
    exact .goes hm .totals
  · cases h
    exact .goes hm .stopsSent
  · obtain ⟨s₁, hadd, hs'⟩ := Option.bind_eq_some_iff.1 h
    obtain ⟨hspace, rfl⟩ := add?_eq_some hadd
    cases hs'
    exact .sendStop hm hspace
  · split at h
    · rename_i hall
      cases h
      exact .goes hm (.consumersJoined (by simpa using hall))
    · cases h
  · cases h
    exact .goes hm .allLeft
  · obtain ⟨s₁, hadd, hs'⟩ := Option.bind_eq_some_iff.1 h
    obtain ⟨hspace, rfl⟩ := add?_eq_some hadd
    cases hs'
    exact .leave hm hspace
  · split at h
    · rename_i text hsnapshot
      cases h
      exact .goes hm (.kept hsnapshot)
    · rename_i e hsnapshot
      cases h
      exact .goes hm (.spoiled hsnapshot)
  · cases h
    exact .clear hm
  · split at h
    · rename_i r hread
      cases h
      exact .goes hm (.restored hread)
    · rename_i e hread
      cases h
      exact .goes hm (.unreadable hread)
  · cases h
  · cases h

/-- Whatever a thread does is one of the moves. -/
theorem moves_of_step {a : Actor} (h : s.step p a = some (s', event)) : Moves p s s' event := by
  cases a with
  | main => exact moves_of_stepMain h
  | producer id =>
      obtain ⟨s₁, hs, heq⟩ := Option.map_eq_some_iff.1 h
      cases heq
      exact moves_of_stepProducer hs
  | consumer id => exact moves_of_stepConsumer h

/-! ### How far the main thread has come -/

/-- The part of its work that the main thread is at.  It never goes back to an earlier one. -/
def MainStage.phase : MainStage → Nat
  | .startConsumers => 0
  | .startProducers => 1
  | .raiseBound => 2
  | .lookAround | .joinProducers => 3
  | .lock | .check | .depart | .asleep | .relock => 4
  | .unlock | .readTotals => 5
  | .sendStops _ | .joinConsumers => 6
  | .leave _ | .keepSnapshot | .clear _ | .restore _ | .done | .failed _ => 7

theorem Goes.phase_le {m m' : MainStage} (h : Goes p s m m' event) : m.phase ≤ m'.phase := by
  cases h <;> simp [MainStage.phase]

/-! ### Consumers -/

/-- The sum of a weight over all consumers. -/
def State.tally (s : State) (weight : ConsumerStage → Nat) : Nat :=
  (s.consumers.map weight).sum

theorem sum_map_set {β : Type} (weight : β → Nat) {l : List β} {i : Nat} {a : β}
    (h : l[i]? = some a) (b : β) :
    ((l.set i b).map weight).sum + weight a = (l.map weight).sum + weight b := by
  induction l generalizing i with
  | nil => cases h
  | cons c l ih =>
      cases i with
      | zero =>
          obtain rfl := Option.some.inj h
          simp only [List.set_cons_zero, List.map_cons, List.sum_cons]
          omega
      | succ i =>
          have hrest := ih h
          simp only [List.set_cons_succ, List.map_cons, List.sum_cons]
          omega

section Moved

variable {id : Nat} {c c' : ConsumerStage}

theorem tally_of_set (weight : ConsumerStage → Nat) (hc : s.consumers[id]? = some c)
    (hset : s'.consumers = s.consumers.set id c') :
    s'.tally weight + weight c = s.tally weight + weight c' := by
  rw [State.tally, hset]
  exact sum_map_set weight hc c'

theorem tally_of_set_eq {weight : ConsumerStage → Nat} (hc : s.consumers[id]? = some c)
    (hset : s'.consumers = s.consumers.set id c') (hsame : weight c' = weight c) :
    s'.tally weight = s.tally weight := by
  have htally := tally_of_set weight hc hset
  omega

theorem getElem?_of_set (hc : s.consumers[id]? = some c)
    (hset : s'.consumers = s.consumers.set id c') (j : Nat) :
    s'.consumers[j]? = if j = id then some c' else s.consumers[j]? := by
  obtain ⟨hlt, -⟩ := List.getElem?_eq_some_iff.1 hc
  rw [hset]
  by_cases hj : j = id
  · subst hj
    simp [hlt]
  · rw [if_neg hj]
    exact List.getElem?_set_ne (Ne.symm hj)

/-- Whoever is at a stage after a move was there before, or is the one that moved. -/
theorem mem_of_set (hset : s'.consumers = s.consumers.set id c') {d : ConsumerStage}
    (hd : d ∈ s'.consumers) : d = c' ∨ d ∈ s.consumers := by
  rw [hset] at hd
  exact (List.mem_or_eq_of_mem_set hd).symm

theorem mem_set_of_ne (hc : s.consumers[id]? = some c)
    (hset : s'.consumers = s.consumers.set id c') {d : ConsumerStage} (hd : d ∈ s.consumers)
    (hne : d ≠ c) : d ∈ s'.consumers := by
  obtain ⟨j, hj⟩ := List.mem_iff_getElem?.1 hd
  refine List.mem_iff_getElem?.2 ⟨j, ?_⟩
  rw [getElem?_of_set hc hset, if_neg, hj]
  rintro rfl
  exact hne (Option.some.inj (hj.symm.trans hc))

theorem mem_set_self (hc : s.consumers[id]? = some c)
    (hset : s'.consumers = s.consumers.set id c') : c' ∈ s'.consumers :=
  List.mem_iff_getElem?.2 ⟨id, by rw [getElem?_of_set hc hset, if_pos rfl]⟩

end Moved

end BlockingSync.Pipeline
