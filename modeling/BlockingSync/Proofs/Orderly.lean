/-
Every thread is in one place.

A thread is ready, or parked where the front of its code says, or has nothing to do.  It
is in no two places at once, and all ready threads but the first stand where they parked
before.  So whoever is resumed while parked becomes ready, and goes on with the very
instruction at which it stopped.
-/
import BlockingSync.Proofs.Change

namespace BlockingSync

variable {α : Type}

/-- Where a thread can stop. -/
inductive Stop where
  | handle (h : HandleId)
  | raw (r : RawLockId)
  deriving DecidableEq

/-- Where an instruction can stop its thread. -/
def Instr.stop? : Instr α → Option Stop
  | .suspend h _ => some (.handle h)
  | .seize r => some (.raw r)
  | _ => none

namespace Machine

/-- The threads parked at a stop. -/
def parkedOn (M : Machine α) : Stop → List ThreadId
  | .handle h => (M.handle h).parked
  | .raw r => (M.rawLock r).parked

/-- Where a thread stops, if it stops at its next instruction. -/
def stop? (M : Machine α) (u : ThreadId) : Option Stop :=
  (M.thread u).code.head?.bind Instr.stop?

/-- Whether a thread has nothing to do. -/
def IsIdle (M : Machine α) (u : ThreadId) : Prop :=
  (M.thread u).code = [] ∧ (M.thread u).pending = []

/-- Every thread is in one place. -/
structure Orderly (M : Machine α) : Prop where
  ready_nodup : M.ready.Nodup
  parked_nodup : ∀ s, (M.parkedOn s).Nodup
  /-- A parked thread is not ready, and parked where its code says. -/
  of_parked : ∀ s, ∀ u ∈ M.parkedOn s, u ∉ M.ready ∧ M.stop? u = some s
  /-- A thread that is not ready has nothing to do or is parked. -/
  of_not_ready : ∀ u, u ∉ M.ready → M.IsIdle u ∨ ∃ s, M.stop? u = some s ∧ u ∈ M.parkedOn s
  /-- All ready threads but the first stand where they parked. -/
  of_behind : ∀ u ∈ M.ready.tail, ∃ s, M.stop? u = some s

variable {M M' : Machine α}

theorem stop?_of_code {u : ThreadId} {i : Instr α} {code : List (Instr α)}
    (h : (M.thread u).code = i :: code) : M.stop? u = i.stop? := by
  simp [stop?, h]

namespace Orderly

/-- The invariant looks at the ready and the parked threads and at what threads have to do. -/
theorem congr (h : M.Orderly) (hready : M'.ready = M.ready)
    (hparked : ∀ s, M'.parkedOn s = M.parkedOn s)
    (hcode : ∀ u, (M'.thread u).code = (M.thread u).code)
    (hpending : ∀ u, (M'.thread u).pending = (M.thread u).pending) : M'.Orderly := by
  have hstop : ∀ u, M'.stop? u = M.stop? u := fun u => by simp only [stop?, hcode]
  have hidle : ∀ u, M'.IsIdle u ↔ M.IsIdle u := fun u => by simp only [IsIdle, hcode, hpending]
  refine ⟨by rw [hready]; exact h.ready_nodup, ?_, ?_, ?_, ?_⟩
  · intro s; rw [hparked]; exact h.parked_nodup s
  · intro s u hu
    rw [hparked] at hu
    rw [hready, hstop]
    exact h.of_parked s u hu
  · intro u hu
    rw [hready] at hu
    simp only [hidle, hstop, hparked]
    exact h.of_not_ready u hu
  · intro u hu
    rw [hready] at hu
    rw [hstop]
    exact h.of_behind u hu

/-- The thread that parked first at a stop becomes ready, if there is one. -/
theorem unpark (h : M.Orderly) (s : Stop) (hs : M'.parkedOn s = (M.parkedOn s).tail)
    (hother : ∀ s', s ≠ s' → M'.parkedOn s' = M.parkedOn s')
    (hready : M'.ready = M.ready ++ (M.parkedOn s).take 1) (hthreads : M'.threads = M.threads) :
    M'.Orderly := by
  have hthread : ∀ u, M'.thread u = M.thread u := thread_congr hthreads
  cases hp : M.parkedOn s with
  | nil =>
      refine h.congr (by simp [hready, hp]) ?_ (fun u => by rw [hthread]) (fun u => by rw [hthread])
      intro s'
      by_cases hss : s = s'
      · subst hss; rw [hs, hp, List.tail_nil]
      · exact hother s' hss
  | cons first parked =>
      rw [hp, List.tail_cons] at hs
      rw [hp, List.take_succ_cons, List.take_zero] at hready
      obtain ⟨hfirst, hstopFirst⟩ := h.of_parked s first (by simp [hp])
      have hnodup : (first :: parked).Nodup := hp ▸ h.parked_nodup s
      have hstop : ∀ u, M'.stop? u = M.stop? u := fun u => by simp only [stop?, hthread]
      have hidle : ∀ u, M'.IsIdle u ↔ M.IsIdle u := fun u => by simp only [IsIdle, hthread]
      -- Whoever is still parked was parked before, and is not the one that left.
      have hstill : ∀ s' u, u ∈ M'.parkedOn s' → u ∈ M.parkedOn s' ∧ u ≠ first := by
        intro s' u hu
        by_cases hss : s = s'
        · subst hss
          rw [hs] at hu
          exact ⟨by simp [hp, hu], fun hc => (List.nodup_cons.1 hnodup).1 (hc ▸ hu)⟩
        · rw [hother s' hss] at hu
          refine ⟨hu, fun hc => hss ?_⟩
          have := (h.of_parked s' u hu).2
          rw [hc, hstopFirst] at this
          exact Option.some.inj this
      refine ⟨?_, ?_, ?_, ?_, ?_⟩
      · rw [hready, List.nodup_append]
        refine ⟨h.ready_nodup, by simp, ?_⟩
        rintro u hu v hv rfl
        rw [List.mem_singleton.1 hv] at hu
        exact hfirst hu
      · intro s'
        by_cases hss : s = s'
        · subst hss; rw [hs]; exact (List.nodup_cons.1 hnodup).2
        · rw [hother s' hss]; exact h.parked_nodup s'
      · intro s' u hu
        obtain ⟨hbefore, hne⟩ := hstill s' u hu
        obtain ⟨hnot, hat⟩ := h.of_parked s' u hbefore
        exact ⟨by simp [hready, hnot, hne], by rw [hstop, hat]⟩
      · intro u hu
        simp only [hready, List.mem_append, List.mem_singleton, not_or] at hu
        rcases h.of_not_ready u hu.1 with hi | ⟨s', hat, hmem⟩
        · exact .inl ((hidle u).2 hi)
        · refine .inr ⟨s', by rw [hstop, hat], ?_⟩
          by_cases hss : s = s'
          · subst hss
            rw [hp] at hmem
            rw [hs]
            exact (List.mem_cons.1 hmem).resolve_left hu.2
          · rw [hother s' hss]; exact hmem
      · intro u hu
        rw [hstop]
        rw [hready] at hu
        cases hr : M.ready with
        | nil => simp [hr] at hu
        | cons t others =>
            rw [hr] at hu
            rcases List.mem_append.1 hu with hu | hu
            · exact h.of_behind u (by simpa [hr] using hu)
            · rw [List.mem_singleton.1 hu]; exact ⟨s, hstopFirst⟩

theorem roused (h : M.Orderly) (u : HandleId) : (M.roused u).Orderly := by
  refine h.unpark (.handle u) ?_ ?_ rfl rfl
  · simp [parkedOn, handle_roused]
  · intro s hne
    cases s with
    | handle v =>
        have : u ≠ v := fun hc => hne (by rw [hc])
        simp [parkedOn, handle_roused, this]
    | raw r => rfl

theorem setWaiters (h : M.Orderly) (p : Place) (l : WaitList HandleId) :
    (M.setWaiters p l).Orderly := by
  refine h.congr (by simp) ?_ (fun u => by simp [thread]) (fun u => by simp [thread])
  intro s
  cases s <;> simp [parkedOn, rawLock]

/-- A change leaves every thread in one place. -/
theorem change {t : ThreadId} {e : Effect} (h : M.Orderly) (hc : Change t M e M') :
    M'.Orderly := by
  cases hc with
  | enter p => exact h.setWaiters p _
  | relist => exact h.setWaiters _ _
  | skip =>
      refine (h.setWaiters _ _).congr rfl ?_ (fun _ => rfl) (fun _ => rfl)
      intro s; cases s <;> rfl
  | rouse => exact (h.setWaiters _ _).roused _
  | resume u => exact h.roused u
  | @adapt r s hs =>
      refine h.congr rfl ?_ (fun _ => rfl) (fun _ => rfl)
      intro s'
      cases s' with
      | handle u => rfl
      | raw r' =>
          simp only [parkedOn, rawLock_setRawLock]
          split
          · subst r'; exact hs
          · rfl
  | @unpark r s u hs =>
      refine h.unpark (.raw r) ?_ ?_ ?_ rfl
      · show (((M.setRawLock r s).makeReady u).rawLock r).parked = (M.rawLock r).parked.tail
        rw [hs]
        simp [setRawLock, makeReady, rawLock]
      · intro s' hne
        cases s' with
        | handle u => rfl
        | raw r' =>
            have : r ≠ r' := fun hc => hne (by rw [hc])
            exact congrArg RawLock.parked ((rawLock_setRawLock r r' s).trans (if_neg this))
      · simp [parkedOn, setRawLock, makeReady, hs]
  | terminate u =>
      refine h.congr rfl ?_ (fun _ => rfl) (fun _ => rfl)
      intro s
      cases s with
      | raw r => rfl
      | handle v => exact keeps_setHandle (·.parked) (by rfl) v
  | _ =>
      refine h.congr rfl ?_ (fun _ => rfl) (fun _ => rfl)
      intro s; cases s <;> rfl

theorem changes {t : ThreadId} {allowed : Effect → Prop} (h : M.Orderly)
    (hc : Changes allowed t M M') : M'.Orderly :=
  hc.keeps (fun _ _ _ _ last hN => hN.change last) h

/-- Whatever the thread that runs has to do next. -/
theorem setThread (h : M.Orderly) {t : ThreadId} {others : List ThreadId}
    (hready : M.ready = t :: others) (s : Thread α) : (M.setThread t s).Orderly := by
  have hne : ∀ u, u ≠ t → (M.setThread t s).thread u = M.thread u := fun u hu => by
    rw [thread_setThread, if_neg (Ne.symm hu)]
  have ht : t ∈ M.ready := by simp [hready]
  have htail : t ∉ M.ready.tail := by
    have := h.ready_nodup
    rw [hready, List.nodup_cons] at this
    simpa [hready] using this.1
  refine ⟨h.ready_nodup, h.parked_nodup, ?_, ?_, ?_⟩
  · intro s' u hu
    obtain ⟨hnot, hat⟩ := h.of_parked s' u hu
    refine ⟨hnot, ?_⟩
    rw [stop?, hne u (fun hc => hnot (hc ▸ ht))]
    exact hat
  · intro u hu
    have hut : u ≠ t := fun hc => hu (hc ▸ ht)
    rw [IsIdle, stop?, hne u hut]
    exact h.of_not_ready u hu
  · intro u hu
    rw [stop?, hne u (fun hc => htail (hc ▸ hu))]
    exact h.of_behind u hu

/-- The thread that runs has come to the end of its list. -/
theorem finish (h : M.Orderly) {t : ThreadId} {others : List ThreadId}
    (hready : M.ready = t :: others) (hidle : M.IsIdle t) :
    ({ M with ready := others } : Machine α).Orderly := by
  have hnodup := h.ready_nodup
  rw [hready, List.nodup_cons] at hnodup
  refine ⟨hnodup.2, h.parked_nodup, ?_, ?_, ?_⟩
  · intro s u hu
    obtain ⟨hnot, hat⟩ := h.of_parked s u hu
    exact ⟨fun hc => hnot (by rw [hready]; exact List.mem_cons_of_mem _ hc), hat⟩
  · intro u hu
    by_cases hut : u = t
    · subst hut; exact .inl hidle
    · refine h.of_not_ready u ?_
      rw [hready]
      exact fun hc => hu ((List.mem_cons.1 hc).resolve_left hut)
  · intro u hu
    exact h.of_behind u (by rw [hready]; exact List.mem_of_mem_tail hu)

/-- The thread that runs parks. -/
theorem park (h : M.Orderly) {t : ThreadId} {others : List ThreadId} {s : Stop}
    (hready : M.ready = t :: others) (hstop : M.stop? t = some s)
    (hs : M'.parkedOn s = M.parkedOn s ++ [t])
    (hother : ∀ s', s ≠ s' → M'.parkedOn s' = M.parkedOn s')
    (hready' : M'.ready = others) (hthreads : M'.threads = M.threads) : M'.Orderly := by
  have hstop' : ∀ u, M'.stop? u = M.stop? u := fun u => by simp only [stop?, thread, hthreads]
  have hidle' : ∀ u, M'.IsIdle u ↔ M.IsIdle u := fun u => by
    simp only [IsIdle, thread, hthreads]
  have hnodup := h.ready_nodup
  rw [hready, List.nodup_cons] at hnodup
  have hparked : ∀ s', t ∉ M.parkedOn s' := fun s' hc =>
    (h.of_parked s' t hc).1 (by simp [hready])
  refine ⟨hready' ▸ hnodup.2, ?_, ?_, ?_, ?_⟩
  · intro s'
    by_cases hss : s = s'
    · subst hss
      rw [hs, List.nodup_append]
      refine ⟨h.parked_nodup s, by simp, ?_⟩
      rintro u hu v hv rfl
      rw [List.mem_singleton.1 hv] at hu
      exact hparked s hu
    · rw [hother s' hss]; exact h.parked_nodup s'
  · have before : ∀ s' u, u ∈ M.parkedOn s' → u ∉ M'.ready ∧ M'.stop? u = some s' := by
      intro s' u hu
      obtain ⟨hnot, hat⟩ := h.of_parked s' u hu
      refine ⟨fun hc => hnot ?_, by rw [hstop', hat]⟩
      rw [hready, ← hready']
      exact List.mem_cons_of_mem _ hc
    intro s' u hu
    by_cases hss : s = s'
    · subst hss
      rw [hs] at hu
      rcases List.mem_append.1 hu with hu | hu
      · exact before s u hu
      · rw [List.mem_singleton.1 hu]
        exact ⟨hready' ▸ hnodup.1, by rw [hstop', hstop]⟩
    · rw [hother s' hss] at hu
      exact before s' u hu
  · intro u hu
    by_cases hut : u = t
    · subst hut
      exact .inr ⟨s, by rw [hstop', hstop], by simp [hs]⟩
    · have hnot : u ∉ M.ready := by
        rw [hready, ← hready']
        exact fun hc => hu ((List.mem_cons.1 hc).resolve_left hut)
      rcases h.of_not_ready u hnot with hi | ⟨s', hat, hmem⟩
      · exact .inl ((hidle' u).2 hi)
      · refine .inr ⟨s', by rw [hstop', hat], ?_⟩
        by_cases hss : s = s'
        · subst hss; rw [hs]; exact List.mem_append_left _ hmem
        · rw [hother s' hss]; exact hmem
  · intro u hu
    rw [hstop']
    refine h.of_behind u ?_
    rw [hready, List.tail_cons, ← hready']
    exact List.mem_of_mem_tail hu

/-- A thread with nothing to do is given a list. -/
theorem give (h : M.Orderly) {t : ThreadId} (hready : M.ready = []) (hidle : M.IsIdle t)
    (hready' : M'.ready = [t]) (hparked : ∀ s, M'.parkedOn s = M.parkedOn s)
    (hother : ∀ u, u ≠ t → M'.thread u = M.thread u) : M'.Orderly := by
  have hnot : ∀ s, t ∉ M.parkedOn s := by
    intro s hc
    have hat := (h.of_parked s t hc).2
    simp [stop?, hidle.1] at hat
  refine ⟨by simp [hready'], fun s => by rw [hparked]; exact h.parked_nodup s, ?_, ?_, ?_⟩
  · intro s u hu
    rw [hparked] at hu
    have hut : u ≠ t := fun hc => hnot s (hc ▸ hu)
    refine ⟨by simp [hready', hut], ?_⟩
    rw [stop?, hother u hut]
    exact (h.of_parked s u hu).2
  · intro u hu
    have hut : u ≠ t := by simpa [hready'] using hu
    rw [IsIdle, stop?, hother u hut]
    simp only [hparked]
    exact h.of_not_ready u (by simp [hready])
  · simp [hready']

end Orderly

end Machine

end BlockingSync
