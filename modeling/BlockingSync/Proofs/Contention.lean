/-
No wake of a mutex is lost.

A release does not hand a mutex on, so a free mutex may have waiters.  What holds is that
somebody is then on the way to take it: a ready thread whose next step is to lock it, or
that was woken in order to.  Whoever takes the mutex will release it, and a release wakes
the next one.  When no thread is ready nobody is on the way, so no live task waits.
-/
import BlockingSync.Proofs.Reach

namespace BlockingSync

variable {α : Type}

namespace Machine

/-- What a thread goes on with; behind a suspension only once it was notified. -/
def ahead (M : Machine α) (u : ThreadId) : List (Instr α) :=
  match (M.thread u).code with
  | .suspend _ _ :: code => if (M.handle u).notified then code else []
  | code => code

/-- Whether a thread is on the way to take a mutex. -/
def Contends (M : Machine α) (m : MutexId) (u : ThreadId) : Prop :=
  u ∈ M.ready ∧ ∃ code, M.ahead u = .lock m :: code

/-- Whether a mutex is free although a task waits for it that has not terminated. -/
def IsOwed (M : Machine α) (m : MutexId) : Prop :=
  (M.mutex m).owner = none ∧ ∃ u ∈ (M.mutex m).waiting.toList, M.isResumable u = true

/-- Whether somebody is on the way, if a mutex is free and awaited. -/
def Contended (M : Machine α) (m : MutexId) : Prop := M.IsOwed m → ∃ u, M.Contends m u

variable {M M' : Machine α} {t u : ThreadId} {m : MutexId}

theorem ahead_of_code {i : Instr α} {code : List (Instr α)} (h : (M.thread u).code = i :: code)
    (hi : ∀ v w, i ≠ .suspend v w) : M.ahead u = i :: code := by
  unfold ahead
  rw [h]
  split
  · rename_i v w code' heq
    exact absurd (List.cons.inj heq).1 (hi v w)
  · rfl

theorem ahead_of_suspend {v : HandleId} {w : Option Place} {code : List (Instr α)}
    (h : (M.thread u).code = .suspend v w :: code) :
    M.ahead u = if (M.handle u).notified then code else [] := by
  simp [ahead, h]

theorem ahead_of_nil (h : (M.thread u).code = []) : M.ahead u = [] := by
  simp [ahead, h]

/-- What a thread goes on with stays as long as it does not run itself. -/
theorem ahead_eq (hcode : (M'.thread u).code = (M.thread u).code)
    (hn : (M.handle u).notified = true → (M'.handle u).notified = true) (h : M.ahead u ≠ []) :
    M'.ahead u = M.ahead u := by
  cases hc : (M.thread u).code with
  | nil => simp [ahead_of_nil hc] at h
  | cons i code =>
      cases i with
      | suspend v w =>
          rw [ahead_of_suspend hc] at h ⊢
          rw [ahead_of_suspend (hcode.trans hc)]
          cases hw : (M.handle u).notified with
          | true => rw [hn hw]
          | false => simp [hw] at h
      | _ => rw [ahead_of_code hc (by simp), ahead_of_code (hcode.trans hc) (by simp)]

theorem Change.ahead {e : Effect} (hc : Change t M e M') (h : M.ahead u ≠ []) :
    M'.ahead u = M.ahead u :=
  ahead_eq (by rw [hc.thread]) hc.notified h

theorem Changes.ahead {allowed : Effect → Prop} (hc : Changes allowed t M M') (h : M.ahead u ≠ []) :
    M'.ahead u = M.ahead u :=
  hc.keeps (I := fun N => N.ahead u = M.ahead u)
    (fun _ _ _ _ last hN => (last.ahead (by rw [hN]; exact h)).trans hN) rfl

theorem Contends.of_eq (h : M.Contends m u) (hready : u ∈ M.ready → u ∈ M'.ready)
    (hahead : M.ahead u ≠ [] → M'.ahead u = M.ahead u) : M'.Contends m u := by
  obtain ⟨hmem, code, hcode⟩ := h
  exact ⟨hready hmem, code, by rw [hahead (by simp [hcode]), hcode]⟩

theorem Contends.change {e : Effect} (h : M.Contends m u) (hc : Change t M e M') :
    M'.Contends m u := by
  obtain ⟨woken, hwoken⟩ := hc.ready
  exact h.of_eq (fun hmem => by rw [hwoken]; exact List.mem_append_left _ hmem) hc.ahead

/-- Whoever waits for a mutex and was woken is on the way to it. -/
theorem contends_of_woken {S : Setting α} (hs : S.Shaped M) (hplace : M.place? u = some (.mutex m))
    (hready : u ∈ M.ready) (hn : (M.handle u).notified = true) : M.Contends m u := by
  obtain ⟨v, code, hcode⟩ := code_of_place? hplace
  obtain ⟨-, rest, rfl⟩ := (hcode ▸ (hs u).code).lock_of_suspend
  exact ⟨hready, rest, by rw [ahead_of_suspend hcode, if_pos hn]⟩

end Machine

namespace Setting

open Machine

variable {S : Setting α} {M M' : Machine α} {t : ThreadId} {m : MutexId} {at? : Option Place}

/-! ### In the middle of a stroke

The thread that runs may be about to go elsewhere, so somebody else must be on the way.
-/

/-- Whether somebody else is on the way, if a mutex is free and awaited. -/
def Relieved (t : ThreadId) (m : MutexId) (M : Machine α) : Prop :=
  M.IsOwed m → ∃ u, u ≠ t ∧ M.Contends m u

/-- The changes after which a mutex may be free and awaited although it was not before. -/
def Frees (m : MutexId) (e : Effect) : Prop :=
  e = .own m none ∨ e = .enter (.mutex m) ∨ e = .wake (.mutex m)

theorem isOwed_of_change {e : Effect} (hc : Change t M e M') (he : ¬ Frees m e)
    (h : M'.IsOwed m) : M.IsOwed m := by
  simp only [Frees, not_or] at he
  obtain ⟨hfree, u, hu, live⟩ := h
  have hwaiting : (M'.mutex m).waiting = (M.mutex m).waiting := hc.waiters he.2.1 he.2.2
  rw [hwaiting] at hu
  refine ⟨?_, u, hu, hc.isResumable live⟩
  by_cases hown : ∃ o, e = .own m o
  · obtain ⟨o, rfl⟩ := hown
    cases hc with
    | own =>
        cases o with
        | none => exact absurd rfl he.1
        | some o => simp [mutex_setOwner] at hfree
  · rw [← hc.owner fun o hc => hown ⟨o, hc⟩]
    exact hfree

theorem Relieved.change {e : Effect} (h : Relieved t m M) (hc : Change t M e M')
    (he : ¬ Frees m e) : Relieved t m M' := by
  intro howed
  obtain ⟨u, hut, hu⟩ := h (isOwed_of_change hc he howed)
  exact ⟨u, hut, hu.change hc⟩

theorem Relieved.changes {allowed : Effect → Prop} (h : Relieved t m M)
    (hc : Changes allowed t M M') (he : ∀ e, allowed e → ¬ Frees m e) : Relieved t m M' :=
  hc.keeps (fun _ _ _ ha last hN => hN.change last (he _ ha)) h

theorem Relieved.of_owned {o : HandleId} (h : (M.mutex m).owner = some o) : Relieved t m M := by
  rintro ⟨hfree, -⟩
  simp [h] at hfree

/-- A wake at a mutex leaves nobody there, or somebody on the way. -/
theorem Relieved.wakeOne (spares : S.SparesTokens) (h : S.Midway t at? M)
    (hat : at? ≠ some (.mutex m)) : Relieved t m (M.wakeOne (.mutex m)).1 := by
  rintro ⟨-, u, hu, -⟩
  rcases h.wakeOne spares hat with hnil | ⟨v, hvt, -, hready, hplace, hn⟩
  · rw [show ((M.wakeOne (.mutex m)).1.mutex m).waiting.toList = [] from hnil] at hu
    simp at hu
  · have hm := h.changes spares (wakeOne_wakes t M (.mutex m)) (by rintro e rfl; exact hat)
    exact ⟨v, hvt, contends_of_woken hm.shaped hplace hready hn⟩

theorem Relieved.free (spares : S.SparesTokens) (hm : S.Midway t none M) (h : Relieved t m M)
    (m' : MutexId) : Relieved t m (M.free m') := by
  by_cases hmm : m' = m
  · subst hmm
    exact .wakeOne spares (hm.change spares (.own m' none) trivial) (by simp)
  · refine h.changes (free_changes t M m') ?_
    rintro e (rfl | rfl) <;> simp [Frees, hmm]

theorem Relieved.leave (spares : S.SparesTokens) (hm : S.Midway t none M) (h : Relieved t m M)
    (c : ConditionId) (m' : MutexId) : Relieved t m (M.leave c m' t) := by
  by_cases hmm : m' = m
  · subst hmm
    have hown : S.Midway t none (M.setOwner m' none) := hm.change spares (.own m' none) trivial
    exact .wakeOne spares (hown.enter (.condition c)) (by simp)
  · refine h.changes (leave_changes M c m' t) ?_
    rintro e (rfl | rfl | rfl) <;> simp [Frees, hmm]

/-! ### Strokes -/

theorem Begins.relieved (spares : S.SparesTokens) {step : Nat} {path : Path} {op : Op α}
    {next : Next α} (hfind : S.find? step path = some op) (h : S.Begins M t step path op M' next)
    (hm : S.Midway t none M) (hr : Relieved t m M) : Relieved t m M' := by
  cases h with
  | calm h =>
      refine hr.changes h ?_
      rintro e he (rfl | rfl | rfl) <;> exact he
  | unwind => exact hr
  | forget => exact hr.change (.forget _) (by simp [Frees])
  | resumes hop =>
      rw [Op.sparesTokens_of_find? (spares step) hfind] at hop
      cases hop
  | release => exact hr.free spares hm _
  | wait => exact hr.leave spares hm _ _
  | @waitRaw c r M' _ _ h =>
      have henter := hr.change (.enter (.condition c)) (by simp [Frees])
      refine henter.changes h ?_
      rintro e rfl
      simp [Frees]

/-- After a stroke somebody else is on the way, unless the thread itself was and has the mutex
now. -/
theorem Stroke.relieved (spares : S.SparesTokens) {i : Instr α} {more code : List (Instr α)}
    (hfits : M.Fits S) (hshape : S.Shape (M.thread t).step t (i :: code)) (hi : i.place? = none)
    (h : S.Stroke M t i M' (.goOn more)) (hm : S.Midway t none M)
    (hr : i = .lock m ∨ Relieved t m M) : Relieved t m M' := by
  -- Only a thread that locks a mutex is on the way to it.
  have other : (∀ m', i ≠ .lock m') → Relieved t m M := fun hne => hr.resolve_left (hne m)
  cases h with
  | start h => exact h.relieved spares hshape.trails_of_start.1 hm (other (by simp))
  | @claim m' =>
      by_cases hmm : m' = m
      · subst hmm
        exact .of_owned (o := t) (by simp [mutex_setOwner])
      · exact (hr.resolve_left (by simp [hmm])).change (.own m' _) (by simp [Frees])
  | @queueUp m' o howned =>
      by_cases hmm : m' = m
      · subst hmm
        exact .of_owned (o := o) (by rw [enqueue, owner_setWaiters, howned])
      · exact (hr.resolve_left (by simp [hmm])).change (.enter _) (by simp [Frees, hmm])
  | unlock => exact (other (by simp)).free spares hm _
  | unlockFree | closeGuard => exact other (by simp)
  | seize h =>
      refine (other (by simp)).changes h ?_
      rintro e rfl
      simp [Frees]
  | pass =>
      obtain ⟨p, rfl⟩ := hshape.place_of_suspend spares
      simp [Instr.place?] at hi
  | report =>
      rintro ⟨hfree, u, hu, live⟩
      obtain ⟨v, hvt, hv⟩ := other (by simp) ⟨hfree, u, hu, live⟩
      exact ⟨v, hvt, hv.of_eq id fun _ => rfl⟩
  | wait => exact (other (by simp)).leave spares hm _ _
  | transact h =>
      refine (other (by simp)).changes (h.changes (t := t) hfits hshape.of_transact.1.lt) ?_
      rintro e he (rfl | rfl | rfl) <;> exact he

/-! ### Ticks -/

/-- The thread that runs is on the way to a mutex only if it is about to lock it. -/
theorem relieved_of_contended {i : Instr α} {code : List (Instr α)}
    (hcode : (M.thread t).code = i :: code) (hi : ∀ v w, i ≠ .suspend v w) (h : M.Contended m) :
    i = .lock m ∨ Relieved t m M := by
  by_cases hlock : i = .lock m
  · exact .inl hlock
  · refine .inr fun howed => ?_
    obtain ⟨u, hu⟩ := h howed
    refine ⟨u, ?_, hu⟩
    rintro rfl
    obtain ⟨-, code', hahead⟩ := hu
    rw [ahead_of_code hcode hi] at hahead
    exact hlock (List.cons.inj hahead).1

theorem Relieved.setThread {s : Thread α} (h : Relieved t m M) : (M.setThread t s).Contended m := by
  intro howed
  obtain ⟨u, hut, hu⟩ := h howed
  refine ⟨u, hu.of_eq id fun hne => ahead_eq ?_ id hne⟩
  rw [thread_setThread, if_neg (Ne.symm hut)]

/-- A thread that stops is on the way to a raw lock at most. -/
theorem ahead_of_halts (spares : S.SparesTokens) (hs : S.Shaped M) (h : M.Halts t M') :
    M.ahead t = [] ∨ ∃ r code, M.ahead t = .seize r :: code := by
  cases hcode : (M.thread t).code with
  | nil => exact .inl (ahead_of_nil hcode)
  | cons i code =>
      rcases h.stopped with hidle | ⟨s, hstop⟩
      · simp [hidle.1] at hcode
      · rw [stop?_of_code hcode] at hstop
        cases i with
        | suspend v w =>
            have hshape := hcode ▸ (hs t).code
            obtain ⟨p, rfl⟩ := hshape.place_of_suspend spares
            obtain rfl := hshape.handle_of_suspend
            left
            simp [ahead_of_suspend hcode, h.unnotified _ _ _ hcode]
        | seize r => exact .inr ⟨r, code, ahead_of_code hcode (by simp)⟩
        | _ => cases hstop

/-- What the others go on with stays when a thread stops. -/
theorem ahead_behind {u : ThreadId} (h : M.Halts t M') (hu : M.ahead u ≠ []) :
    M'.ahead u = M.ahead u :=
  ahead_eq (by rw [h.thread]) (by rw [h.notified]; exact id) hu

/-- A thread that stops was not on the way to any mutex. -/
theorem contended_of_halts (spares : S.SparesTokens) (hs : S.Shaped M) (hm : M.Contended m)
    (h : M.Halts t M') : M'.Contended m := by
  rintro ⟨hfree, u, hu, live⟩
  rw [h.mutex] at hfree hu
  rw [h.resumable] at live
  obtain ⟨v, hmem, code, hahead⟩ := hm ⟨hfree, u, hu, live⟩
  refine ⟨v, ?_, code, ?_⟩
  · rw [h.ready] at hmem
    refine (List.mem_cons.1 hmem).resolve_left ?_
    rintro rfl
    rcases ahead_of_halts spares hs h with hnil | ⟨r, rest, hseize⟩
    · simp [hnil] at hahead
    · simp [hseize] at hahead
  · rw [ahead_behind h (by simp [hahead]), hahead]

/-- A thread that takes its notification stays on its way. -/
theorem contended_of_pass {v : HandleId} {w : Option Place} {code : List (Instr α)}
    (hs : S.Sound M) (spares : S.SparesTokens) (h : M.Contended m)
    (hcode : (M.thread t).code = .suspend v w :: code) (hn : (M.handle v).notified = true) :
    ((M.setHandle v { M.handle v with notified := false }).setCode t code).Contended m := by
  have hshape := hcode ▸ (hs.shaped t).code
  obtain ⟨p, rfl⟩ := hshape.place_of_suspend spares
  obtain rfl : v = t := hshape.handle_of_suspend
  rintro ⟨hfree, u, hu, live⟩
  have live' : M.isResumable u = true := by
    rw [← live]
    exact (keeps_setHandle (!·.terminated) (by rfl) u).symm
  obtain ⟨u', hmem, rest, hahead⟩ := h ⟨hfree, u, hu, live'⟩
  refine ⟨u', hmem, rest, ?_⟩
  by_cases huv : u' = v
  · subst huv
    rw [ahead_of_suspend hcode, if_pos hn] at hahead
    subst hahead
    refine ahead_of_code ?_ (by simp)
    rw [thread_setCode, if_pos rfl]
  · rw [← hahead]
    refine ahead_eq ?_ ?_ (by simp [hahead])
    · rw [thread_setCode, if_neg (Ne.symm huv)]
      rfl
    · intro hw
      exact (congrArg Handle.notified (handle_setHandle_ne huv _)).trans hw

/-- **Whatever a tick can do, somebody is still on the way to every mutex that is free and
awaited.** -/
theorem contended_of_turn (spares : S.SparesTokens) (hs : S.Sound M) (hb : ∀ u, M.Balanced u)
    (h : M.Contended m) (hturn : S.Turn M M') : M'.Contended m := by
  cases hturn with
  | still => exact h
  | finish hready hidle => exact contended_of_halts spares hs.shaped h (.finish hready hidle)
  | @next t others i op pending hready hcode hpending =>
      refine Relieved.setThread fun howed => ?_
      obtain ⟨u, hu⟩ := h howed
      refine ⟨u, ?_, hu⟩
      rintro rfl
      obtain ⟨-, code, hahead⟩ := hu
      simp [ahead_of_nil hcode] at hahead
  | @goOn t others i code N more hready hcode hstroke =>
      have hshape : S.Shape (M.thread t).step t (i :: code) := hcode ▸ (hs.shaped t).code
      cases hi : i.place? with
      | some p =>
          cases hstroke with
          | pass hn => exact contended_of_pass hs spares h hcode hn
          | _ => simp [Instr.place?] at hi
      | none =>
          have hne : ∀ v w, i ≠ .suspend v w := by
            rintro v w rfl
            obtain ⟨p, rfl⟩ := hshape.place_of_suspend spares
            simp [Instr.place?] at hi
          have hm := Midway.of_balanced hs hb hready ((place?_of_code hcode).trans hi)
          exact (hstroke.relieved spares hs.fits hshape hi hm
            (relieved_of_contended hcode hne h)).setThread
  | park hready hcode hstroke =>
      exact contended_of_halts spares hs.shaped h (hstroke.halts hready hcode)
  | @unwind t others i code N message hready hcode hstroke =>
      have hshape : S.Shape (M.thread t).step t (i :: code) := hcode ▸ (hs.shaped t).code
      cases hstroke with
      | start hbegins =>
          have hm := Midway.of_balanced hs hb hready (place?_of_code hcode)
          have hr := (relieved_of_contended hcode (by simp) h).resolve_left (by simp)
          exact (hbegins.relieved spares hshape.trails_of_start.1 hm hr).setThread

end Setting

/-! ### Throughout a scenario -/

namespace Scenario

variable {s : Scenario} {k : Nat} {past : List (Entry Json)} {M : Machine Json} {m : MutexId}

open Machine

/-- When no thread is ready, nobody is on the way. -/
theorem not_isOwed_of_over (h : M.Contended m) (still : M.ready = []) : ¬ M.IsOwed m := by
  intro howed
  obtain ⟨u, hmem, -⟩ := h howed
  simp [still] at hmem

theorem isOwed_of_begin {t : ThreadId} {step : Nat} {ops? : Option (List (Op Json))}
    (h : (M.begin t step ops?).IsOwed m) : M.IsOwed m := by
  obtain ⟨hfree, u, hu, live⟩ := h
  cases ops? <;> exact ⟨hfree, u, hu, isResumable_of_begin live⟩

theorem Reaches.contended (spares : s.sparesTokens = true) (h : s.Reaches k past M) (m : MutexId) :
    M.Contended m := by
  induction h with
  | start =>
      rintro ⟨-, u, hu, -⟩
      have hnil : (s.start.1.mutex m).waiting.toList = [] := s.start_new.fresh.waiters (.mutex m)
      simp [hnil] at hu
  | tick h ih =>
      exact Setting.contended_of_turn (sparesTokens_setting spares) h.sound (h.balanced spares) ih
        h.sound.turn
  | order h still hstep ht idle ih =>
      exact fun howed => absurd (isOwed_of_begin howed) (not_isOwed_of_over ih still)
  | refuse _ _ _ _ ih => exact ih

end Scenario

/-- Whether a thread is about to take a mutex, or waits for it. -/
def Machine.IsLocking (M : Machine α) (m : MutexId) (u : ThreadId) : Prop :=
  ∃ code, (M.thread u).code = .lock m :: code ∨
    ∃ v, (M.thread u).code = .suspend v (some (.mutex m)) :: .lock m :: code

namespace Scenario

variable {s : Scenario} {k : Nat} {past : List (Entry Json)} {M : Machine Json} {m : MutexId}

open Machine

/-- A thread that is locking a mutex when no thread is ready waits at it. -/
theorem place?_of_isLocking (h : s.Reaches k past M) (still : M.ready = []) {u : ThreadId}
    (hu : M.IsLocking m u) : M.place? u = some (.mutex m) := by
  obtain ⟨code, hcode | ⟨v, hcode⟩⟩ := hu
  · rcases h.stopped still u with hi | ⟨stop, hat⟩
    · simp [hi.1] at hcode
    · rw [stop?_of_code hcode] at hat
      cases hat
  · exact place?_of_code hcode

/-- **No wake of a mutex is lost.**  When a step is over and a mutex is free, no task on its list
can be resumed, and no task that has not terminated is blocked in locking it. -/
theorem not_awaited_of_free (spares : s.sparesTokens = true) (h : s.Reaches k past M)
    (still : M.ready = []) (free : (M.mutex m).owner = none) :
    (∀ u ∈ (M.mutex m).waiting.toList, M.isResumable u = false) ∧
      ∀ u, M.IsLocking m u → M.isResumable u = false := by
  have hnot := not_isOwed_of_over (h.contended spares m) still
  have hdead : ∀ u ∈ (M.mutex m).waiting.toList, M.isResumable u = false := by
    intro u hu
    cases live : M.isResumable u with
    | false => rfl
    | true => exact absurd ⟨free, u, hu, live⟩ hnot
  refine ⟨hdead, fun u hu => ?_⟩
  cases live : M.isResumable u with
  | false => rfl
  | true =>
      have hmem : u ∈ (M.mutex m).waiting.toList :=
        h.mem_waiters spares still (place?_of_isLocking h still hu) live
      rw [hdead u hmem] at live
      cases live

theorem not_awaited_after_handover : (handover.after 4).ready = [] ∧
    ((handover.after 4).mutex 0).owner = none ∧
    ∀ u, (handover.after 4).IsLocking 0 u → (handover.after 4).isResumable u = false := by
  obtain ⟨past, h⟩ := handover.reaches_after (k := 4) (by decide) (by decide)
  exact ⟨by decide, by decide, (not_awaited_of_free (by decide) h (by decide) (by decide)).2⟩

end Scenario

end BlockingSync
