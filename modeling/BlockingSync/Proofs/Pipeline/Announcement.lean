/-
The announcement reaches the main thread.

A number is counted without the lock, but the main thread looks at the count, and falls
asleep, in one tenure of it, and whoever counts the last number announces that in another.
So the announcement is made before the main thread looks or after it has fallen asleep:
the last consumer is still at the lock as long as the main thread could miss it
(`Announced`).
-/
import BlockingSync.Proofs.Pipeline.Numbers

namespace BlockingSync.Pipeline

/-! ### Inside the lock -/

/-- Whether a consumer holds the lock. -/
def ConsumerStage.isInside : ConsumerStage → Bool
  | .announce | .unlock => true
  | _ => false

/-- Whether the main thread holds the lock. -/
def MainStage.isInside : MainStage → Bool
  | .check | .depart | .unlock => true
  | _ => false

/-- Whether what a thread does next is done with the lock held. -/
def State.isInside (s : State) : Actor → Bool
  | .main => s.main.isInside
  | .producer _ => false
  | .consumer id => s.consumers[id]?.any ConsumerStage.isInside

/-- Whether a consumer has counted the last number, and not yet gone back to the queue. -/
def ConsumerStage.hasLast : ConsumerStage → Bool
  | .lock | .announce | .unlock => true
  | _ => false

/-- How the main thread comes to know that all numbers are counted. -/
structure Announced (p : Plan) (s : State) : Prop where
  holder : ∀ a, s.holder = some a ↔ s.isInside a = true
  last : ∀ c ∈ s.consumers, c.hasLast = true → s.counted.val = p.producers * p.share
  passed : 5 ≤ s.main.phase → s.counted.val = p.producers * p.share
  relock : s.main = .relock → s.counted.val = p.producers * p.share
  /-- Whoever has counted the last number finds the lock taken. -/
  depart : s.main = .depart →
    s.counted.val < p.producers * p.share ∨ ConsumerStage.lock ∈ s.consumers
  asleep : s.main = .asleep → s.counted.val < p.producers * p.share ∨
    ConsumerStage.lock ∈ s.consumers ∨ ConsumerStage.announce ∈ s.consumers

variable {p : Plan} {s s' : State} {event : Option Event} {events : List Event} {id : Nat}
  {c c' : ConsumerStage}

theorem announced_initial (p : Plan) : Announced p .initial := by
  refine ⟨fun a => ?_, by simp [State.initial], ?_, ?_, ?_, ?_⟩
  · cases a <;> simp [State.initial, State.isInside, MainStage.isInside]
  all_goals simp [State.initial, MainStage.phase]

theorem Announced.not_inside (h : Announced p s) {a : Actor} (hother : s.holder ≠ some a) :
    s.isInside a = false := by
  rw [← Bool.not_eq_true, ← h.holder]
  exact hother

theorem Announced.holder_eq_main (h : Announced p s) (hinside : s.main.isInside = true) :
    s.holder = some .main :=
  (h.holder .main).2 hinside

theorem isInside_of_set (hc : s.consumers[id]? = some c)
    (hset : s'.consumers = s.consumers.set id c') (hmain : s'.main.isInside = s.main.isInside)
    (a : Actor) : s'.isInside a = if a = .consumer id then c'.isInside else s.isInside a := by
  cases a with
  | main => simpa [State.isInside] using hmain
  | producer => simp [State.isInside]
  | consumer j =>
      simp only [State.isInside, getElem?_of_set hc hset, Actor.consumer.injEq]
      split <;> rfl

theorem isInside_of_consumer (hc : s.consumers[id]? = some c) :
    s.isInside (.consumer id) = c.isInside := by
  simp [State.isInside, hc]

theorem Announced.holder_eq_consumer (h : Announced p s) (hc : s.consumers[id]? = some c)
    (hinside : c.isInside = true) : s.holder = some (.consumer id) :=
  (h.holder (.consumer id)).2 ((isInside_of_consumer hc).trans hinside)

/-- A consumer goes on that has nothing to announce. -/
theorem Announced.aside (h : Announced p s) (hc : s.consumers[id]? = some c)
    (hset : s'.consumers = s.consumers.set id c') (hbefore : c.hasLast = false)
    (hafter : c'.hasLast = false)
    (hsame : s'.main = s.main ∧ s'.holder = s.holder ∧ s'.counted = s.counted) :
    Announced p s' := by
  obtain ⟨hmain, hholder, hcounted⟩ := hsame
  have outside : ∀ d : ConsumerStage, d.hasLast = false → d.isInside = false := by
    rintro (_ | _ | _ | _ | _ | _ | _) <;> simp [ConsumerStage.hasLast, ConsumerStage.isInside]
  have hkept : ∀ d : ConsumerStage, d.hasLast = true → d ∈ s.consumers → d ∈ s'.consumers := by
    rintro d hd hmem
    refine mem_set_of_ne hc hset hmem ?_
    rintro rfl
    rw [hbefore] at hd
    cases hd
  refine ⟨fun a => ?_, fun d hd hlast => ?_, ?_, ?_, fun hm => ?_, fun hm => ?_⟩
  · rw [hholder, h.holder, isInside_of_set hc hset (by rw [hmain])]
    split
    · rename_i ha
      rw [ha, isInside_of_consumer hc, outside c hbefore, outside c' hafter]
    · rfl
  · rw [hcounted]
    rcases mem_of_set hset hd with rfl | hd
    · rw [hafter] at hlast
      cases hlast
    · exact h.last d hd hlast
  · rw [hmain, hcounted]
    exact h.passed
  · rw [hmain, hcounted]
    exact h.relock
  · rw [hcounted]
    exact (h.depart (hmain ▸ hm)).imp_right (hkept _ rfl)
  · rw [hcounted]
    exact (h.asleep (hmain ▸ hm)).imp_right (Or.imp (hkept _ rfl) (hkept _ rfl))

/-- A number is counted; if it is the last one that is to be announced. -/
theorem Announced.count (h : Announced p s) (hfits : p.Fits) (hc : s.consumers[id]? = some .count)
    (hset : s'.consumers = s.consumers.set id c')
    (hcount : s'.counted = s.counted + Word.wrap 1)
    (hstage : c' = if s'.counted = p.total then .lock else .take)
    (hmore : s.counted.val < p.producers * p.share)
    (hsame : s'.main = s.main ∧ s'.holder = s.holder) : Announced p s' := by
  obtain ⟨hmain, hholder⟩ := hsame
  have hval : s'.counted.val = s.counted.val + 1 := by
    rw [hcount]
    exact val_add_one (Nat.lt_of_lt_of_le hmore hfits)
  have hlast : s'.counted.val = p.producers * p.share → c' = .lock := by
    intro heq
    rw [hstage, if_pos]
    exact Fin.ext (heq.trans (Plan.total_val hfits).symm)
  have hend : s'.counted.val < p.producers * p.share ∨ ConsumerStage.lock ∈ s'.consumers := by
    rcases Nat.lt_or_ge s'.counted.val (p.producers * p.share) with hlt | hge
    · exact .inl hlt
    · have heq : s'.counted.val = p.producers * p.share := by omega
      exact .inr (hlast heq ▸ mem_set_self hc hset)
  refine ⟨fun a => ?_, fun d hd hd' => ?_, fun hm => ?_, fun hm => ?_, fun _ => hend, fun _ => ?_⟩
  · rw [hholder, h.holder, isInside_of_set hc hset (by rw [hmain])]
    split
    · rename_i ha
      rw [ha, isInside_of_consumer hc, hstage]
      split <;> rfl
    · rfl
  · rcases mem_of_set hset hd with rfl | hd
    · rw [hstage] at hd'
      split at hd'
      · rename_i heq
        rw [heq, Plan.total_val hfits]
      · cases hd'
    · exact absurd (h.last d hd hd') (Nat.ne_of_lt hmore)
  · exact absurd (h.passed (hmain ▸ hm)) (Nat.ne_of_lt hmore)
  · exact absurd (h.relock (hmain ▸ hm)) (Nat.ne_of_lt hmore)
  · exact hend.imp_right .inl

/-- Whoever has counted the last number takes the lock. -/
theorem Announced.lock (h : Announced p s) (hc : s.consumers[id]? = some .lock)
    (hfree : s.holder = none) (hset : s'.consumers = s.consumers.set id .announce)
    (hholder : s'.holder = some (.consumer id))
    (hsame : s'.main = s.main ∧ s'.counted = s.counted) : Announced p s' := by
  obtain ⟨hmain, hcounted⟩ := hsame
  refine ⟨fun a => ?_, fun d hd hlast => ?_, ?_, ?_, fun hm => ?_, fun hm => ?_⟩
  · rw [hholder, isInside_of_set hc hset (by rw [hmain])]
    split
    · rename_i ha
      simp [ha, ConsumerStage.isInside]
    · rename_i ha
      simp [h.not_inside (a := a) (by simp [hfree]), Ne.symm ha]
  · rw [hcounted]
    rcases mem_of_set hset hd with rfl | hd
    · exact h.last _ (List.mem_of_getElem? hc) rfl
    · exact h.last d hd hlast
  · rw [hmain, hcounted]
    exact h.passed
  · rw [hmain, hcounted]
    exact h.relock
  · rw [hmain] at hm
    have hmain' := h.holder_eq_main (by rw [hm]; rfl)
    rw [hfree] at hmain'
    cases hmain'
  · exact .inr (.inr (mem_set_self hc hset))

/-- The announcement wakes the main thread if it is asleep. -/
theorem Announced.announce (h : Announced p s) (hc : s.consumers[id]? = some .announce)
    (hset : s'.consumers = s.consumers.set id .unlock) (hmain : s'.main = s.announce.main)
    (hsame : s'.holder = s.holder ∧ s'.counted = s.counted) : Announced p s' := by
  obtain ⟨hholder, hcounted⟩ := hsame
  have hall : s.counted.val = p.producers * p.share := h.last _ (List.mem_of_getElem? hc) rfl
  have howner := h.holder_eq_consumer hc rfl
  have hwoken : s'.main.isInside = s.main.isInside ∧ s'.main ≠ .asleep ∧
      (s'.main = .depart → s.main = .depart) := by
    rw [hmain]
    by_cases hasleep : s.main = .asleep
    · simp [State.announce, hasleep, MainStage.isInside]
    · simp [State.announce, hasleep]
  refine ⟨fun a => ?_, fun _ _ _ => hcounted ▸ hall, fun _ => hcounted ▸ hall,
    fun _ => hcounted ▸ hall, fun hm => ?_, fun hm => absurd hm hwoken.2.1⟩
  · rw [hholder, h.holder, isInside_of_set hc hset hwoken.1]
    split
    · rename_i ha
      rw [ha, isInside_of_consumer hc]
      exact Iff.rfl
    · rfl
  · have hmain' := h.holder_eq_main (by rw [hwoken.2.2 hm]; rfl)
    rw [howner] at hmain'
    cases hmain'

/-- The lock is given back. -/
theorem Announced.unlock (h : Announced p s) (hc : s.consumers[id]? = some .unlock)
    (hset : s'.consumers = s.consumers.set id .take) (hholder : s'.holder = none)
    (hsame : s'.main = s.main ∧ s'.counted = s.counted) : Announced p s' := by
  obtain ⟨hmain, hcounted⟩ := hsame
  have howner := h.holder_eq_consumer hc rfl
  have hall : s.counted.val = p.producers * p.share := h.last _ (List.mem_of_getElem? hc) rfl
  refine ⟨fun a => ?_, fun _ _ _ => hcounted ▸ hall, fun _ => hcounted ▸ hall,
    fun _ => hcounted ▸ hall, fun hm => ?_, fun hm => ?_⟩
  · rw [hholder, isInside_of_set hc hset (by rw [hmain])]
    split
    · simp [ConsumerStage.isInside]
    · rename_i ha
      have hout := h.not_inside (a := a) (by simpa [howner] using Ne.symm ha)
      simp [hout]
  · have hmain' := h.holder_eq_main (by rw [← hmain, hm]; rfl)
    rw [howner] at hmain'
    cases hmain'
  · rcases h.asleep (hmain ▸ hm) with hlt | hlock | hannounce
    · omega
    · exact .inr (.inl (mem_set_of_ne hc hset hlock (by simp)))
    · exact .inr (.inr (mem_set_of_ne hc hset hannounce (by simp)))

/-- The main thread goes on without taking the lock or giving it back. -/
theorem Announced.advance (h : Announced p s)
    (hsame : s'.consumers = s.consumers ∧ s'.holder = s.holder ∧ s'.counted = s.counted)
    (hinside : s'.main.isInside = s.main.isInside)
    (hpassed : 5 ≤ s'.main.phase → s.counted.val = p.producers * p.share)
    (hrelock : s'.main ≠ .relock) (hasleep : s'.main ≠ .asleep)
    (hdepart : s'.main = .depart → s.counted.val < p.producers * p.share) : Announced p s' := by
  obtain ⟨hconsumers, hholder, hcounted⟩ := hsame
  refine ⟨fun a => ?_, ?_, ?_, fun hm => absurd hm hrelock, fun hm => ?_,
    fun hm => absurd hm hasleep⟩
  · rw [hholder, h.holder]
    cases a with
    | main => simp only [State.isInside, hinside]
    | producer => rfl
    | consumer j => simp only [State.isInside, hconsumers]
  · rw [hconsumers, hcounted]
    exact h.last
  · rw [hcounted]
    exact hpassed
  · rw [hcounted]
    exact .inl (hdepart hm)

theorem Announced.goes (h : Announced p s) (hfits : p.Fits)
    (hfew : s.main.phase < 7 → s.counted.val ≤ p.producers * p.share) {m : MainStage}
    (hgoes : Goes p s s.main m event) : Announced p { s with main := m } := by
  generalize hm : s.main = m₀ at hgoes
  cases hgoes with
  | short hlt =>
      have hval : s.counted.val < p.producers * p.share := Plan.total_val hfits ▸ hlt
      refine h.advance ⟨rfl, rfl, rfl⟩ ?_ ?_ ?_ ?_ (fun _ => hval) <;>
        simp [hm, MainStage.isInside, MainStage.phase]
  | complete hge =>
      have hval : ¬ s.counted.val < p.producers * p.share := Plan.total_val hfits ▸ hge
      have hle := hfew (by simp [hm, MainStage.phase])
      refine h.advance ⟨rfl, rfl, rfl⟩ ?_ (fun _ => by omega) ?_ ?_ ?_ <;>
        simp [hm, MainStage.isInside]
  | slip hfree | refused hheld hother =>
      have hmain := h.holder_eq_main (by rw [hm]; rfl)
      simp_all
  | _ =>
      refine h.advance ⟨rfl, rfl, rfl⟩ ?_ (fun hp => h.passed ?_) ?_ ?_ ?_ <;>
        simp_all [MainStage.isInside, MainStage.phase]

/-- The main thread takes the lock, or gives it back. -/
theorem Announced.pass (h : Announced p s) (hconsumers : s'.consumers = s.consumers)
    (hcounted : s'.counted = s.counted) (hothers : ∀ a, a ≠ .main → s.isInside a = false)
    (hholder : ∀ a, s'.holder = some a ↔ a = .main ∧ s'.main.isInside = true)
    (hpassed : 5 ≤ s'.main.phase → s.counted.val = p.producers * p.share)
    (hrelock : s'.main ≠ .relock) (hdepart : s'.main ≠ .depart)
    (hasleep : s'.main = .asleep → s.counted.val < p.producers * p.share ∨
      ConsumerStage.lock ∈ s.consumers) : Announced p s' := by
  refine ⟨fun a => ?_, ?_, ?_, fun hm => absurd hm hrelock, fun hm => absurd hm hdepart,
    fun hm => ?_⟩
  · rw [hholder]
    cases a with
    | main => simp [State.isInside]
    | producer => simp [State.isInside]
    | consumer j =>
        have hout := hothers (.consumer j) (by simp)
        simp only [State.isInside] at hout
        simp [State.isInside, hconsumers, hout]
  · rw [hconsumers, hcounted]
    exact h.last
  · rw [hcounted]
    exact hpassed
  · rw [hcounted, hconsumers]
    exact (hasleep hm).imp_right .inl

theorem Announced.startConsumer (h : Announced p s) (hm : s.main = .startConsumers) :
    Announced p { s with consumers := s.consumers ++ [.take], main := .startConsumers } := by
  refine ⟨fun a => ?_, fun c hc hlast => ?_, by simp [MainStage.phase], by simp, by simp, by simp⟩
  · refine (h.holder a).trans ?_
    cases a with
    | main => simp [State.isInside, hm]
    | producer => rfl
    | consumer j =>
        simp only [State.isInside, List.getElem?_append]
        split
        · rfl
        · rename_i hge
          rw [List.getElem?_eq_none (Nat.not_lt.1 hge), List.getElem?_singleton]
          split <;> simp [ConsumerStage.isInside]
  · rcases List.mem_append.1 hc with hc | hc
    · exact h.last c hc hlast
    · rw [List.mem_singleton.1 hc] at hlast
      cases hlast

theorem Announced.step (h : Announced p s) (hsized : Sized p s) (hnumbered : Numbered p s events)
    (hfits : p.Fits) (hstopped : 7 ≤ s.main.phase → ∀ c ∈ s.consumers, c = .stopped)
    (hmoves : Moves p s s' event) : Announced p s' := by
  cases hmoves with
  | produce =>
      exact ⟨fun a => (h.holder a).trans (by cases a <;> rfl), h.last, h.passed, h.relock, h.depart,
        h.asleep⟩
  | takeNumber hc | takeStop hc | sum hc =>
      exact h.aside hc rfl rfl rfl ⟨rfl, rfl, rfl⟩
  | count hc hstage =>
      have hphase : s.main.phase < 7 := Nat.lt_of_not_le fun hphase => by
        cases hstopped hphase _ (List.mem_of_getElem? hc)
      exact h.count hfits hc rfl rfl hstage (hnumbered.counted_lt hsized hphase hc) ⟨rfl, rfl⟩
  | lock hc hfree => exact h.lock hc hfree rfl rfl ⟨rfl, rfl⟩
  | announce hc => exact h.announce hc rfl rfl ⟨rfl, rfl⟩
  | unlock hc => exact h.unlock hc rfl rfl ⟨rfl, rfl⟩
  | goes hm hgoes =>
      exact h.goes hfits (fun hphase =>
        Nat.le_of_add_right_le (hnumbered.counted_add_le hsized hphase)) (hm ▸ hgoes)
  | startConsumer hm => exact h.startConsumer hm
  | startProducer hm | raise hm =>
      refine h.advance ⟨rfl, rfl, rfl⟩ ?_ ?_ ?_ ?_ ?_ <;>
        simp [hm, MainStage.isInside, MainStage.phase]
  | sendStop hm | leave hm | clear hm =>
      refine h.advance ⟨rfl, rfl, rfl⟩ ?_ (fun _ => h.passed ?_) ?_ ?_ ?_ <;>
        simp [hm, MainStage.isInside, MainStage.phase]
  | acquire hm hfree =>
      have hnobody : ∀ a, s.isInside a = false := fun a => h.not_inside (by simp [hfree])
      refine h.pass rfl rfl (fun a _ => hnobody a) ?_ ?_ ?_ ?_ ?_ <;>
        simp [MainStage.isInside, MainStage.phase, eq_comm]
  | depart hm hown =>
      refine h.pass rfl rfl (fun a ha => h.not_inside (by simpa [hown] using Ne.symm ha)) ?_ ?_ ?_
        ?_ (fun _ => h.depart hm) <;> simp [MainStage.isInside, MainStage.phase]
  | release hm =>
      have hown := h.holder_eq_main (by rw [hm]; rfl)
      refine h.pass rfl rfl (fun a ha => h.not_inside (by simpa [hown] using Ne.symm ha)) ?_
        (fun _ => h.passed ?_) ?_ ?_ ?_ <;> simp [hm, MainStage.isInside, MainStage.phase]

end BlockingSync.Pipeline
