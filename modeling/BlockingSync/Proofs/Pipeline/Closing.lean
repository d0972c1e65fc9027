/-
How a pipeline is closed.

Stop marks are sent once all numbers are counted, so whoever takes one leaves no number
behind, and as many are sent as there are consumers.  When all consumers have stopped the
queue is empty, and what the main thread adds then is what the snapshot holds.
-/
import BlockingSync.Proofs.Pipeline.Announcement

namespace BlockingSync.Pipeline

/-! ### Stop marks -/

/-- How many stop marks are still to be sent. -/
def MainStage.unsent (p : Plan) : MainStage → Nat
  | .sendStops left => left
  | .joinConsumers | .leave _ | .keepSnapshot | .clear _ | .restore _ | .done | .failed _ => 0
  | _ => p.consumers

/-- How many stop marks a consumer has taken. -/
def ConsumerStage.stops : ConsumerStage → Nat
  | .stopped => 1
  | _ => 0

open ConsumerStage

/-- Where the stop marks are. -/
structure Marked (p : Plan) (s : State) (events : List Event) : Prop where
  conserved : s.values.count stopMark + s.tally stops + s.main.unsent p = p.consumers
  took : ∀ id, events.count (.took id stopMark) =
    if s.consumers[id]? = some .stopped then 1 else 0

variable {p : Plan} {s s' : State} {event : Option Event} {events events' : List Event} {id : Nat}
  {c c' : ConsumerStage}

theorem marked_initial (p : Plan) : Marked p .initial [] :=
  ⟨by simp [State.initial, State.tally, MainStage.unsent], by simp [State.initial]⟩

theorem ConsumerStage.stops_eq_zero (h : c ≠ .stopped) : c.stops = 0 := by
  cases c with
  | stopped => exact absurd rfl h
  | _ => rfl

/-- No stop mark is sent before the main thread knows that all numbers are counted. -/
theorem MainStage.unsent_of_phase_lt {m : MainStage} (h : m.phase < 6) :
    m.unsent p = p.consumers := by
  cases m <;> first | rfl | exact absurd h (by simp [phase])

theorem Goes.unsent_eq {m m' : MainStage} (h : Goes p s m m' event) :
    m'.unsent p = m.unsent p := by
  cases h <;> rfl

theorem Goes.count_took {m m' : MainStage} (h : Goes p s m m' event) (id : Nat) :
    (event.toList ++ events).count (.took id stopMark) = events.count (.took id stopMark) := by
  cases h <;> simp

/-- No stop mark is sent or taken. -/
theorem Marked.congr (h : Marked p s events)
    (htook : ∀ id, events'.count (.took id stopMark) = events.count (.took id stopMark))
    (hvalues : s'.values.count stopMark = s.values.count stopMark)
    (hunsent : s'.main.unsent p = s.main.unsent p) (htally : s'.tally stops = s.tally stops)
    (hstopped : ∀ id : Nat, s'.consumers[id]? = some .stopped ↔ s.consumers[id]? = some .stopped) :
    Marked p s' events' := by
  refine ⟨?_, fun id => ?_⟩
  · rw [hvalues, hunsent, htally, h.conserved]
  · rw [htook, h.took]
    simp only [hstopped]

/-- A consumer goes on that has not stopped. -/
theorem Marked.aside (h : Marked p s events) (hc : s.consumers[id]? = some c)
    (hset : s'.consumers = s.consumers.set id c') (hbefore : c ≠ .stopped) (hafter : c' ≠ .stopped)
    (htook : ∀ id, events'.count (.took id stopMark) = events.count (.took id stopMark))
    (hvalues : s'.values.count stopMark = s.values.count stopMark)
    (hunsent : s'.main.unsent p = s.main.unsent p) : Marked p s' events' := by
  refine h.congr htook hvalues hunsent (tally_of_set_eq hc hset ?_) fun j => ?_
  · rw [stops_eq_zero hbefore, stops_eq_zero hafter]
  · rw [getElem?_of_set hc hset]
    split
    · rename_i hj
      rw [hj, hc]
      exact iff_of_false (by simpa using hafter) (by simpa using hbefore)
    · rfl

/-- A consumer takes a stop mark, its first. -/
theorem Marked.takeStop (h : Marked p s events) {rest : List Word}
    (hc : s.consumers[id]? = some .take) (hv : s.values = stopMark :: rest)
    (hset : s'.consumers = s.consumers.set id .stopped) (hvalues : s'.values = rest)
    (hmain : s'.main = s.main) : Marked p s' (.took id stopMark :: events) := by
  refine ⟨?_, fun j => ?_⟩
  · have htally : s'.tally stops = s.tally stops + 1 := tally_of_set stops hc hset
    have hconserved := h.conserved
    rw [hv, List.count_cons_self] at hconserved
    rw [hvalues, hmain, htally]
    omega
  · rw [List.count_cons, h.took, getElem?_of_set hc hset]
    by_cases hj : j = id
    · subst hj
      simp [hc]
    · simp [hj, Ne.symm hj]

/-- The main thread sends a stop mark. -/
theorem Marked.sendStop (h : Marked p s events) {left : Nat} (hm : s.main = .sendStops (left + 1))
    (hvalues : s'.values = s.values ++ [stopMark]) (hmain : s'.main = .sendStops left)
    (hconsumers : s'.consumers = s.consumers) : Marked p s' events := by
  refine ⟨?_, by simpa [hconsumers] using h.took⟩
  have hconserved := h.conserved
  rw [hm] at hconserved
  rw [hvalues, hmain, List.count_append, List.count_singleton_self, State.tally, hconsumers]
  simp only [MainStage.unsent, State.tally] at hconserved ⊢
  omega

/-! ### What is left behind -/

/-- The text of the snapshot. -/
def snapshotText : String := "[32,0,1,2]"

theorem snapshot_leftovers (hcapacity : s.capacity = raisedBound)
    (hvalues : s.values = leftovers.map Word.wrap) : s.snapshot = .ok snapshotText := by
  rw [State.snapshot, hcapacity, hvalues]
  rfl

theorem ofJsonText_snapshotText : Record.ofJsonText (Json.unsignedReader .w64) snapshotText =
    .ok ⟨raisedBound, leftovers.map Word.wrap⟩ :=
  rfl

theorem wrap_ne_stopMark : ∀ n ∈ leftovers, Word.wrap n ≠ stopMark := by
  decide

theorem count_leftovers : (leftovers.map Word.wrap).count stopMark = 0 := by
  decide

/-- What the queue holds while the main thread adds the leftovers, and keeps and restores them. -/
def MainStage.Leaves (vs : List Word) : MainStage → Prop
  | .leave left => ∃ gone, gone ++ left = leftovers ∧ vs = gone.map .wrap
  | .keepSnapshot => vs = leftovers.map .wrap
  | .clear text => vs = leftovers.map .wrap ∧ text = snapshotText
  | .restore text => vs = [] ∧ text = snapshotText
  | .done => vs = []
  | .failed _ => False
  | _ => True

/-- How things are once all consumers have stopped. -/
structure Closed (p : Plan) (s : State) (events : List Event) : Prop where
  stopped : ∀ c ∈ s.consumers, c = .stopped
  taken : (taken events).Perm p.numbers
  leaves : s.main.Leaves s.values

/-! ### All together -/

/-- Whether what an event tells is right. -/
def Event.IsTrue (p : Plan) : Event → Prop
  | .totals counted checksum => counted.val = p.producers * p.share ∧
      checksum = .wrap (List.range (p.producers * p.share)).sum
  | .waitFailed _ => False
  | .snapshotKept text => text = snapshotText
  | .snapshotRestored capacity length => capacity.val = 32 ∧ length = 3
  | _ => True

/-- Everything that is true of a pipeline at every moment. -/
structure Accounts (p : Plan) (s : State) (events : List Event) : Prop where
  sized : Sized p s
  numbered : Numbered p s events
  announced : Announced p s
  marked : Marked p s events
  closed : 7 ≤ s.main.phase → Closed p s events
  told : ∀ e ∈ events, e.IsTrue p
  /-- Whoever takes a stop mark leaves no number behind. -/
  last : ∀ after id before, events = after ++ .took id stopMark :: before →
    (taken before).Perm p.numbers

theorem accounts_initial (p : Plan) : Accounts p .initial [] :=
  ⟨sized_initial p, numbered_initial p, announced_initial p, marked_initial p,
    by simp [State.initial, MainStage.phase], by simp, by simp⟩

namespace Accounts

theorem complete (h : Accounts p s events) (hfits : p.Fits) (hpassed : 5 ≤ s.main.phase)
    (hphase : s.main.phase < 7) : Complete p s events :=
  h.numbered.complete h.sized hfits (by omega) hphase (h.announced.passed hpassed)

theorem phase_lt (h : Accounts p s events) (hc : s.consumers[id]? = some c) (hne : c ≠ .stopped) :
    s.main.phase < 7 :=
  Nat.lt_of_not_le fun hphase => hne ((h.closed hphase).stopped c (List.mem_of_getElem? hc))

/-- Nobody finds a stop mark in the queue before all numbers are counted. -/
theorem passed_of_mem (h : Accounts p s events) (hmem : stopMark ∈ s.values) :
    6 ≤ s.main.phase := by
  refine Nat.le_of_not_lt fun hphase => ?_
  have hconserved := h.marked.conserved
  rw [MainStage.unsent_of_phase_lt hphase] at hconserved
  have hpos := List.count_pos_iff.2 hmem
  omega

/-- When the last consumer has stopped the queue is empty. -/
theorem values_eq_nil (h : Accounts p s events) (hfits : p.Fits) (hm : s.main = .joinConsumers)
    (hall : ∀ c ∈ s.consumers, c = .stopped) : s.values = [] := by
  have hphase : s.main.phase = 6 := by rw [hm]; rfl
  have hnumbers := (h.complete hfits (by omega) (by omega)).numbers
  have hlength := h.sized.allConsumers (by omega)
  have htally : s.tally stops = p.consumers := by
    rw [← hlength, State.tally, List.map_congr_left fun c hc => congrArg stops (hall c hc)]
    simp [stops]
  have hconserved := h.marked.conserved
  have hmarks : ∀ v ∈ s.values, v ≠ stopMark := by
    rintro v hv rfl
    have hpos := List.count_pos_iff.2 hv
    omega
  rw [State.numbers, List.filter_eq_nil_iff] at hnumbers
  exact List.eq_nil_iff_forall_not_mem.2 fun v hv => hnumbers v hv (by simpa using hmarks v hv)

theorem leaves (h : Accounts p s events) {m : MainStage} (hm : s.main = m) (hphase : 7 ≤ m.phase) :
    m.Leaves s.values := by
  subst hm
  exact (h.closed hphase).leaves

/-- What the main thread keeps of the queue. -/
theorem snapshot_eq (h : Accounts p s events) (hm : s.main = .keepSnapshot) :
    s.snapshot = .ok snapshotText :=
  snapshot_leftovers (h.sized.raised (by simp [hm, MainStage.phase])) (h.leaves hm (Nat.le_refl 7))

/-! ### Moves -/

theorem marked_step (h : Accounts p s events) (hfits : p.Fits) (hmoves : Moves p s s' event) :
    Marked p s' (event.toList ++ events) := by
  have hm := h.marked
  cases hmoves with
  | @produce id sent hp hmore =>
      obtain ⟨hlt, -⟩ := List.getElem?_eq_some_iff.1 hp
      have hid := Nat.lt_of_lt_of_le hlt h.sized.producers
      have hne : ¬ p.number id sent = stopMark := Plan.number_ne_stopMark hfits hid hmore
      exact hm.congr (fun _ => rfl) (by simp [hne]) rfl rfl fun _ => Iff.rfl
  | takeNumber hc hv hne =>
      refine hm.aside hc rfl (by simp) (by simp) (fun j => ?_) ?_ rfl
      · simp [hne]
      · simp [State.setConsumer, hv, hne]
  | takeStop hc hv => exact hm.takeStop hc hv rfl rfl rfl
  | sum hc | lock hc | unlock hc =>
      exact hm.aside hc rfl (by simp) (by simp) (fun _ => rfl) rfl rfl
  | count hc hstage =>
      refine hm.aside hc rfl (by simp) ?_ (fun _ => rfl) rfl rfl
      rw [hstage]
      split <;> simp
  | announce hc =>
      refine hm.aside hc rfl (by simp) (by simp) (fun _ => rfl) rfl ?_
      by_cases hasleep : s.main = .asleep
      · simp [State.announce, State.setConsumer, hasleep, MainStage.unsent]
      · simp [State.announce, State.setConsumer, hasleep]
  | goes hmain hgoes =>
      exact hm.congr hgoes.count_took rfl (hmain ▸ hgoes.unsent_eq) rfl fun _ => Iff.rfl
  | startConsumer hmain =>
      refine hm.congr (fun _ => rfl) rfl (by simp [hmain]) (tally_start rfl rfl) fun j => ?_
      simp only [List.getElem?_append, List.getElem?_singleton]
      split
      · rfl
      · rename_i hge
        rw [List.getElem?_eq_none (Nat.not_lt.1 hge)]
        split <;> simp
  | startProducer hmain | raise hmain | depart hmain | release hmain =>
      exact hm.congr (fun _ => by simp) rfl (by simp [hmain, MainStage.unsent]) rfl fun _ => Iff.rfl
  | acquire hmain =>
      refine hm.congr (fun _ => rfl) rfl ?_ rfl fun _ => Iff.rfl
      rcases hmain with hmain | hmain <;> simp [hmain, MainStage.unsent]
  | sendStop hmain => exact hm.sendStop hmain rfl rfl rfl
  | @leave n left hmain =>
      obtain ⟨gone, hgone, -⟩ := h.leaves hmain (Nat.le_refl 7)
      have hmem : n ∈ leftovers := by simp [← hgone]
      have hne : ¬ Word.wrap n = stopMark := wrap_ne_stopMark n hmem
      exact hm.congr (fun _ => rfl) (by simp [hne])
        (by simp [hmain, MainStage.unsent]) rfl fun _ => Iff.rfl
  | clear hmain =>
      obtain ⟨hvalues, -⟩ := h.leaves hmain (Nat.le_refl 7)
      refine hm.congr (fun _ => rfl) ?_ (by simp [hmain, MainStage.unsent]) rfl fun _ => Iff.rfl
      rw [hvalues]
      exact count_leftovers.symm

theorem closed_goes (h : Accounts p s events) (hfits : p.Fits) {m : MainStage}
    (hgoes : Goes p s s.main m event) (hphase : 7 ≤ m.phase) :
    Closed p { s with main := m } (event.toList ++ events) := by
  generalize hm : s.main = m₀ at hgoes
  have hrest : 7 ≤ m₀.phase → m.Leaves s.values →
      Closed p { s with main := m } (event.toList ++ events) := by
    intro hp hnext
    have hclosed := h.closed (hm ▸ hp)
    exact ⟨hclosed.stopped, taken_goes hgoes events ▸ hclosed.taken, hnext⟩
  cases hgoes with
  | consumersJoined hall =>
      have hcomplete := h.complete hfits (by simp [hm, MainStage.phase])
        (by simp [hm, MainStage.phase])
      exact ⟨hall, hcomplete.taken, [], rfl, h.values_eq_nil hfits hm hall⟩
  | allLeft =>
      obtain ⟨gone, hgone, hvalues⟩ := h.leaves hm (Nat.le_refl 7)
      refine hrest (Nat.le_refl 7) ?_
      rw [List.append_nil] at hgone
      exact hvalues.trans (congrArg (List.map Word.wrap) hgone)
  | kept hsnapshot =>
      exact hrest (Nat.le_refl 7)
        ⟨h.leaves hm (Nat.le_refl 7), Except.ok.inj (hsnapshot.symm.trans (h.snapshot_eq hm))⟩
  | spoiled hsnapshot =>
      cases hsnapshot.symm.trans (h.snapshot_eq hm)
  | restored =>
      obtain ⟨hvalues, -⟩ := h.leaves hm (Nat.le_refl 7)
      exact hrest (Nat.le_refl 7) hvalues
  | unreadable hread =>
      obtain ⟨-, rfl⟩ := h.leaves hm (Nat.le_refl 7)
      cases hread.symm.trans ofJsonText_snapshotText
  | _ => exact absurd hphase (by simp [MainStage.phase])

theorem closed_step (h : Accounts p s events) (hfits : p.Fits) (hmoves : Moves p s s' event)
    (hphase : 7 ≤ s'.main.phase) : Closed p s' (event.toList ++ events) := by
  have hearly : ∀ {id : Nat} {c : ConsumerStage}, s.consumers[id]? = some c → c ≠ .stopped →
      ¬ 7 ≤ s.main.phase := fun hc hne => Nat.not_le.2 (h.phase_lt hc hne)
  cases hmoves with
  | produce hp hmore =>
      have hsent := h.sized.joined ((by decide : 4 ≤ 7).trans hphase) _ (List.mem_of_getElem? hp)
      omega
  | takeNumber hc | takeStop hc | sum hc | count hc | lock hc | unlock hc =>
      exact absurd hphase (hearly hc (by simp))
  | announce hc =>
      have hlt := h.phase_lt hc (by simp)
      refine absurd hphase (Nat.not_le.2 ?_)
      by_cases hasleep : s.main = .asleep
      · simp [State.announce, State.setConsumer, hasleep, MainStage.phase]
      · simpa [State.announce, State.setConsumer, hasleep] using hlt
  | goes hm hgoes => exact h.closed_goes hfits (hm ▸ hgoes) hphase
  | @leave n left hm =>
      have hclosed := h.closed (by simp [hm, MainStage.phase])
      obtain ⟨gone, hgone, hvalues⟩ := h.leaves hm (Nat.le_refl 7)
      refine ⟨hclosed.stopped, hclosed.taken, gone ++ [n], ?_, ?_⟩
      · rw [List.append_assoc]
        exact hgone
      · rw [List.map_append, hvalues]
        rfl
  | clear hm =>
      have hclosed := h.closed (by simp [hm, MainStage.phase])
      obtain ⟨-, htext⟩ := h.leaves hm (Nat.le_refl 7)
      exact ⟨hclosed.stopped, hclosed.taken, rfl, htext⟩
  | _ => exact absurd hphase (by simp [MainStage.phase])

theorem told_goes (h : Accounts p s events) (hfits : p.Fits) {m : MainStage}
    (hgoes : Goes p s s.main m event) : ∀ e ∈ event, e.IsTrue p := by
  generalize hm : s.main = m₀ at hgoes
  cases hgoes with
  | refused hheld hother =>
      have hown := h.announced.holder_eq_main (by rw [hm]; rfl)
      exact absurd (Option.some.inj (hheld.symm.trans hown)) hother
  | totals =>
      rintro _ ⟨⟩
      exact ⟨h.announced.passed (by simp [hm, MainStage.phase]),
        (h.complete hfits (by simp [hm, MainStage.phase]) (by simp [hm, MainStage.phase])).checksum⟩
  | kept hsnapshot =>
      rintro _ ⟨⟩
      exact Except.ok.inj (hsnapshot.symm.trans (h.snapshot_eq hm))
  | restored hread =>
      rintro _ ⟨⟩
      obtain ⟨-, rfl⟩ := h.leaves hm (Nat.le_refl 7)
      obtain rfl := Except.ok.inj (hread.symm.trans ofJsonText_snapshotText)
      exact ⟨rfl, rfl⟩
  | lookAround =>
      rintro _ ⟨⟩
      exact trivial
  | _ => rintro _ ⟨⟩

theorem told_step (h : Accounts p s events) (hfits : p.Fits) (hmoves : Moves p s s' event) :
    ∀ e ∈ event.toList ++ events, e.IsTrue p := by
  have hnew : ∀ e ∈ event, e.IsTrue p := by
    cases hmoves with
    | goes hm hgoes => exact h.told_goes hfits (hm ▸ hgoes)
    | takeNumber | takeStop | raise =>
        rintro _ ⟨⟩
        exact trivial
    | _ => rintro _ ⟨⟩
  intro e he
  rcases List.mem_append.1 he with he | he
  · exact hnew e (Option.mem_toList.1 he)
  · exact h.told e he

theorem last_step (h : Accounts p s events) (hfits : p.Fits) (hmoves : Moves p s s' event)
    (after : List Event) (id : Nat) (before : List Event)
    (hsplit : event.toList ++ events = after ++ .took id stopMark :: before) :
    (taken before).Perm p.numbers := by
  cases after with
  | cons e after =>
      cases event with
      | none => exact h.last (e :: after) id before hsplit
      | some event => exact h.last after id before (List.cons.inj hsplit).2
  | nil =>
      cases event with
      | none => exact h.last [] id before hsplit
      | some event =>
          obtain ⟨rfl, rfl⟩ := List.cons.inj hsplit
          cases hmoves with
          | takeNumber hc hv hne => exact absurd rfl hne
          | takeStop hc hv =>
              have hpassed := h.passed_of_mem (hv ▸ List.mem_cons_self)
              exact (h.complete hfits (by omega) (h.phase_lt hc (by simp))).taken
          | goes hm hgoes => cases hgoes

theorem step (h : Accounts p s events) (hfits : p.Fits) (hmoves : Moves p s s' event) :
    Accounts p s' (event.toList ++ events) := by
  have hstopped := fun hphase => (h.closed hphase).stopped
  exact ⟨h.sized.step hmoves, h.numbered.step h.sized hfits hstopped hmoves,
    h.announced.step h.sized h.numbered hfits hstopped hmoves, h.marked_step hfits hmoves,
    h.closed_step hfits hmoves, h.told_step hfits hmoves, h.last_step hfits hmoves⟩

end Accounts

/-- **A pipeline accounts for everything at every moment.** -/
theorem Reachable.accounts (h : Reachable p s events) (hfits : p.Fits) : Accounts p s events := by
  induction h with
  | initial => exact accounts_initial p
  | step a _ hstep ih => exact ih.step hfits (moves_of_step hstep)

end BlockingSync.Pipeline
