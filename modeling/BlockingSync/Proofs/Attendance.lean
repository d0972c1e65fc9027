/-
What a tick means to the waits on a condition variable.

A tick lets a thread enter the line, takes a front part of the line out, lets a thread
leave its suspension or return, or has nothing to do with the condition variable
(`Event`).  What it does to threads other than the one that runs is the same each time:
they stay where they are, and are notified only if they can be resumed (`Carries`).
-/
import BlockingSync.Proofs.Roster
import BlockingSync.Proofs.Deeds
import BlockingSync.Proofs.Selection

namespace BlockingSync

variable {α : Type}

/-! ### Selecting from the front of the line -/

namespace Roster

/-- The waits in a front part of the line are selected if their tasks can be resumed, and passed
over otherwise. -/
def take (r : Roster) (live : ThreadId → Bool) (n : Nat) : Roster :=
  { r with
    selected := r.selected ++ (r.line.take n).filter fun w => live w.thread
    passed := r.passed ++ (r.line.take n).filter fun w => !live w.thread
    line := r.line.drop n }

/-- Up to the first that is so, and that one. -/
theorem first_of_take {β : Type} (l : List β) (p : β → Bool) :
    (l.take ((l.takeWhile (!p ·)).length + 1)).filter p = (l.find? p).toList ∧
      (l.take ((l.takeWhile (!p ·)).length + 1)).filter (!p ·) = l.takeWhile (!p ·) ∧
      l.drop ((l.takeWhile (!p ·)).length + 1) = (l.dropWhile (!p ·)).tail := by
  induction l with
  | nil => simp
  | cons x l ih =>
      obtain ⟨hfirst, hothers, hrest⟩ := ih
      cases hx : p x with
      | true => simp [hx]
      | false => simpa [hx] using ⟨hfirst, hothers, hrest⟩

theorem signal_eq (r : Roster) (live : ThreadId → Bool) :
    r.signal live = r.take live ((r.line.takeWhile fun w => !live w.thread).length + 1) := by
  obtain ⟨hfirst, hothers, hrest⟩ := first_of_take r.line fun w => live w.thread
  unfold signal take
  rw [hfirst, hothers, hrest]

theorem broadcast_eq (r : Roster) (live : ThreadId → Bool) :
    r.broadcast live = r.take live r.line.length := by
  unfold broadcast take
  rw [List.take_length, List.drop_length]

end Roster

namespace Machine

variable {M M' : Machine α} {t u : ThreadId} {p : Place}

/-! ### The threads that do not run -/

/-- What a tick of a thread leaves as it is. -/
structure Carries (t : ThreadId) (M M' : Machine α) : Prop where
  thread : ∀ u, u ≠ t → M'.thread u = M.thread u
  notified : ∀ u, u ≠ t → (M.handle u).notified = true → (M'.handle u).notified = true
  terminated : ∀ u, M.isResumable u = false → M'.isResumable u = false
  /-- Nobody notifies a task that has terminated. -/
  unnotified : ∀ u, M.isResumable u = false → (M.handle u).notified = false →
    (M'.handle u).notified = false
  /-- The thread stays at the front of the ready ones, or it stops. -/
  ready : (∃ woken, M'.ready = M.ready ++ woken) ∨ M.Halts t M'

theorem Change.unnotified {e : Effect} (h : Change t M e M') (hne : ∀ v, e ≠ .resume v)
    (dead : M.isResumable u = false) (hn : (M.handle u).notified = false) :
    (M'.handle u).notified = false := by
  cases h with
  | @rouse p v rest hs live =>
      have hvu : v ≠ u := by
        rintro rfl
        rw [dead] at live
        cases live
      rw [handle_roused, if_neg hvu, handle_setWaiters]
      exact hn
  | resume v => exact absurd rfl (hne v)
  | terminate v => exact (keeps_setHandle (·.notified) (by rfl) u).trans hn
  | enter | relist | skip => simpa [enqueue] using hn
  | _ => exact hn

theorem Change.terminated {e : Effect} (h : Change t M e M') (dead : M.isResumable u = false) :
    M'.isResumable u = false := by
  cases live : M'.isResumable u with
  | false => rfl
  | true => exact absurd (h.isResumable live) (by simp [dead])

theorem Changes.waiters {allowed : Effect → Prop} (h : Changes allowed t M M')
    (hs : ∀ e, allowed e → e ≠ .enter p ∧ e ≠ .wake p) : M'.waiters p = M.waiters p := by
  refine h.keeps (I := fun N => N.waiters p = M.waiters p) ?_ rfl
  intro e N N' he hc hN
  rw [hc.waiters (hs e he).1 (hs e he).2, hN]

theorem Changes.carries {allowed : Effect → Prop} (h : Changes allowed t M M')
    (hs : ∀ e, allowed e → ∀ v, e ≠ .resume v) : M.Carries t M' := by
  refine ⟨fun u _ => thread_congr h.threads u, ?_, ?_, ?_, .inl h.ready⟩
  · intro u _ hn
    exact h.keeps (I := fun N => (N.handle u).notified = true)
      (fun _ _ _ _ hc hN => hc.notified hN) hn
  · intro u dead
    exact h.keeps (I := fun N => N.isResumable u = false)
      (fun _ _ _ _ hc hN => hc.terminated hN) dead
  · intro u dead hn
    refine (h.keeps (I := fun N => N.isResumable u = false ∧ (N.handle u).notified = false) ?_
      ⟨dead, hn⟩).2
    rintro e N N' he hc ⟨hdead, hN⟩
    exact ⟨hc.terminated hdead, hc.unnotified (hs e he) hdead hN⟩

/-- Whoever is ready stays so, in the same order, but for the thread that runs. -/
theorem Carries.sublist (h : M.Carries t M') {ts : List ThreadId} (hts : ts.Sublist M.ready)
    (ht : t ∉ ts) : ts.Sublist M'.ready := by
  rcases h.ready with ⟨woken, hwoken⟩ | hhalts
  · rw [hwoken]
    exact hts.trans (List.sublist_append_left ..)
  · rw [hhalts.ready] at hts
    cases hts with
    | cons _ h => exact h
    | cons_cons _ h => exact absurd (by simp) ht

theorem Carries.setThread (h : M.Carries t M') (hready : ∃ woken, M'.ready = M.ready ++ woken)
    (s : Thread α) : M.Carries t (M'.setThread t s) := by
  refine ⟨?_, h.notified, h.terminated, h.unnotified, .inl hready⟩
  intro u hu
  rw [thread_setThread, if_neg (Ne.symm hu)]
  exact h.thread u hu

theorem Halts.carries (h : M.Halts t M') : M.Carries t M' := by
  refine ⟨fun u _ => h.thread u, ?_, ?_, ?_, .inr h⟩
  · intro u _ hn
    rw [h.notified]
    exact hn
  · intro u dead
    rw [h.resumable]
    exact dead
  · intro u _ hn
    rw [h.notified]
    exact hn

/-- What an operation does that begins on something else than this condition variable. -/
theorem Does.away {c : ConditionId} {path : Path} {op : Op α} {next : Next α}
    (h : M.Does t path op M' next)
    (hne : ∀ name verb, op = .onObject name verb → M.object? name = some (.condition c) →
      (∀ lock, verb ≠ .wait lock) ∧ verb ≠ .signal ∧ verb ≠ .broadcast) :
    M'.waiters (.condition c) = M.waiters (.condition c) ∧
      ∀ more code, next = .goOn more → placeOf (more ++ code) ≠ some (.condition c) := by
  cases h with
  | aside h hn =>
      refine ⟨h.waiters ?_, ?_⟩
      · rintro e he
        constructor <;> (rintro rfl; exact he)
      · rintro more code rfl
        cases hn <;> simp [Instr.place?]
  | claim => exact ⟨waiters_setOwner .., by rintro more code ⟨⟩; simp [Instr.place?]⟩
  | give _ _ _ _ _ hn =>
      refine ⟨(free_changes t M _).waiters ?_, ?_⟩
      · rintro e (rfl | rfl) <;> simp
      · rintro more code rfl
        rcases hn with ⟨r, hn⟩ | ⟨message, hn⟩ <;> cases hn
        simp [Instr.place?]
  | take | synchronize | guard => exact ⟨rfl, by rintro more code ⟨⟩; simp [Instr.place?]⟩
  | @wait name lock c' o l hop hc' ho hl hd =>
      have hcc : c' ≠ c := by
        rintro rfl
        exact (hne _ _ hop hc').1 _ rfl
      refine ⟨?_, by rintro more code ⟨⟩; simpa [Instr.place?] using hcc⟩
      rcases depart_of_departed hd with ⟨m, -, -, heq⟩ | ⟨r, -, hraw⟩
      · rw [heq]
        refine (leave_changes M c' m t).waiters ?_
        rintro e (rfl | rfl | rfl) <;> simp [hcc]
      · rw [hraw.waiters (p := .condition c) (by rintro e rfl; simp), enqueue, waiters_setWaiters,
          if_neg (by simpa using hcc)]
  | @signal name c' hop hc' =>
      have hcc : c' ≠ c := by
        rintro rfl
        exact (hne _ _ hop hc').2.1 rfl
      refine ⟨(wakeOne_wakes t M _).waiters ?_, by rintro more code ⟨⟩; simp [Instr.place?]⟩
      rintro e rfl
      simp [hcc]
  | @broadcast name c' hop hc' =>
      have hcc : c' ≠ c := by
        rintro rfl
        exact (hne _ _ hop hc').2.2 rfl
      refine ⟨(wakeAll_wakes t M _).waiters ?_, by rintro more code ⟨⟩; simp [Instr.place?]⟩
      rintro e rfl
      simp [hcc]

end Machine

namespace Setting

open Machine

variable {S : Setting α} {M M' : Machine α} {t : ThreadId} {i : Instr α} {c : ConditionId}

/-- As long as tokens are left to the primitives, a stroke resumes waiters only. -/
theorem Stroke.changes_sparing {code : List (Instr α)} {next : Next α} (spares : S.SparesTokens)
    (hfits : M.Fits S) (hshape : S.Shape (M.thread t).step t (i :: code))
    (h : S.Stroke M t i M' next) (hi : i.isPassive = false) (hnext : next ≠ .park) :
    Changes (fun e => ∀ v, e ≠ .resume v) t M M' := by
  cases h with
  | start h =>
      cases h with
      | calm h =>
          refine h.mono ?_
          rintro e he v rfl
          exact he
      | unwind => exact .refl
      | forget => exact .single (by simp) (.forget _)
      | resumes hop =>
          rw [Op.sparesTokens_of_find? (spares _) hshape.trails_of_start.1] at hop
          cases hop
      | release =>
          refine (free_changes t M _).mono ?_
          rintro e (rfl | rfl) <;> simp
      | wait =>
          refine (leave_changes M _ _ t).mono ?_
          rintro e (rfl | rfl | rfl) <;> simp
      | waitRaw _ _ h =>
          refine (Changes.single (e := .enter _) (by simp) (.enter _)).trans (h.mono ?_)
          rintro e rfl
          simp
  | claim => exact .single (by simp) (.own _ _)
  | queueUp => exact .single (by simp) (.enter _)
  | unlock =>
      refine (free_changes t M _).mono ?_
      rintro e (rfl | rfl) <;> simp
  | unlockFree | closeGuard => exact .refl
  | seize h =>
      refine h.mono ?_
      rintro e rfl
      simp
  | parkRaw | park => exact absurd rfl hnext
  | pass | report => simp [Instr.isPassive] at hi
  | wait =>
      refine (leave_changes M _ _ t).mono ?_
      rintro e (rfl | rfl | rfl) <;> simp
  | transact h =>
      refine (h.changes hfits hshape.of_transact.1.lt).mono ?_
      rintro e he v rfl
      exact he

theorem Stroke.carries {code : List (Instr α)} {next : Next α} (spares : S.SparesTokens)
    (hfits : M.Fits S) (hshape : S.Shape (M.thread t).step t (i :: code))
    (h : S.Stroke M t i M' next) (hnext : next ≠ .park) : M.Carries t M' := by
  cases hi : i.isPassive with
  | false => exact (h.changes_sparing spares hfits hshape hi hnext).carries fun _ he => he
  | true =>
      cases h with
      | report =>
          exact ⟨fun _ _ => rfl, fun _ _ => id, fun _ => id, fun _ _ => id,
            .inl ⟨[], by simp [note]⟩⟩
      | @pass v w hn =>
          obtain ⟨p, rfl⟩ := hshape.place_of_suspend spares
          obtain rfl : v = t := hshape.handle_of_suspend
          refine ⟨fun _ _ => rfl, ?_, ?_, ?_, .inl ⟨[], by simp [setHandle]⟩⟩
          · intro u hu hw
            rw [handle_setHandle_ne hu]
            exact hw
          · intro u dead
            exact (keeps_setHandle (!·.terminated) (by rfl) u).trans dead
          · intro u _ hw
            rw [handle_setHandle]
            split
            · rfl
            · exact hw
      | park => exact absurd rfl hnext
      | _ => simp [Instr.isPassive] at hi

/-- **A tick leaves the threads that do not run where they are.** -/
theorem Turn.carries (spares : S.SparesTokens) (hs : S.Sound M) {others : List ThreadId}
    (hready : M.ready = t :: others) (h : S.Turn M M') : M.Carries t M' := by
  have same : ∀ {t' others'}, M.ready = t' :: others' → t = t' := fun hr =>
    (List.cons.inj (hready.symm.trans hr)).1
  cases h with
  | still hr => simp [hready] at hr
  | finish hr hidle =>
      obtain rfl := same hr
      exact (Halts.finish hr hidle).carries
  | next hr =>
      obtain rfl := same hr
      have hstays : M.Carries t M := ⟨fun _ _ => rfl, fun _ _ => id, fun _ => id, fun _ _ => id,
        .inl ⟨[], by simp⟩⟩
      exact hstays.setThread ⟨[], by simp⟩ _
  | goOn hr hcode hstroke =>
      obtain rfl := same hr
      have hshape := hcode ▸ (hs.shaped t).code
      exact (hstroke.carries spares hs.fits hshape (by simp)).setThread
        (hstroke.ready hs.fits hshape) _
  | park hr hcode hstroke =>
      obtain rfl := same hr
      exact (hstroke.halts hr hcode).carries
  | unwind hr hcode hstroke =>
      obtain rfl := same hr
      have hshape := hcode ▸ (hs.shaped t).code
      exact (hstroke.carries spares hs.fits hshape (by simp)).setThread
        (hstroke.ready hs.fits hshape) _

/-- Nothing but the beginning of an operation enters or wakes the list of a public condition
variable. -/
theorem Stroke.away {code : List (Instr α)} {next : Next α} (hfits : M.Fits S)
    (hshape : S.Shape (M.thread t).step t (i :: code)) (hpublic : S.IsPublicCondition c)
    (hi : ∀ path op, i ≠ .start path op) (h : S.Stroke M t i M' next) :
    M'.waiters (.condition c) = M.waiters (.condition c) ∧
      ∀ more, next = .goOn more → placeOf (more ++ code) ≠ some (.condition c) := by
  have hcode : placeOf ([] ++ code) ≠ some (.condition c) := by
    rw [List.nil_append, hshape.placeOf_behind]
    simp
  have hpart : ∀ q < S.queues, ∀ side, S.condition q side ≠ c := hpublic
  cases h with
  | start => exact absurd rfl (hi _ _)
  | claim => exact ⟨waiters_setOwner .., by rintro more ⟨⟩; exact hcode⟩
  | queueUp =>
      refine ⟨?_, by rintro more ⟨⟩; simp [Instr.place?]⟩
      rw [enqueue, waiters_setWaiters, if_neg (by simp)]
  | unlock =>
      refine ⟨(free_changes t M _).waiters ?_, by rintro more ⟨⟩; exact hcode⟩
      rintro e (rfl | rfl) <;> simp
  | unlockFree => exact ⟨rfl, by rintro more ⟨⟩; exact hcode⟩
  | closeGuard => exact ⟨rfl, by rintro more ⟨⟩; simp [Instr.place?]⟩
  | seize h =>
      refine ⟨h.waiters ?_, by rintro more ⟨⟩; exact hcode⟩
      rintro e rfl
      simp
  | parkRaw | park => exact ⟨rfl, by rintro more ⟨⟩⟩
  | pass | report => exact ⟨rfl, by rintro more ⟨⟩; exact hcode⟩
  | @wait q path tr side =>
      have hside := hpart q hshape.of_transact.1.lt side
      refine ⟨(leave_changes M _ _ t).waiters ?_,
        by rintro more ⟨⟩; simpa [Instr.place?] using hside⟩
      rintro e (rfl | rfl | rfl) <;> simp [hside]
  | @transact q path tr _ _ h =>
      refine ⟨(h.changes (t := t) hfits hshape.of_transact.1.lt).waiters ?_,
        by rintro more ⟨⟩; simp [Instr.place?]⟩
      rintro e he
      constructor
      · rintro rfl
        exact he
      · rintro rfl
        obtain ⟨side, hc⟩ := he
        exact hpart q hshape.of_transact.1.lt side hc.symm

end Setting

/-! ### Events -/

namespace Machine

/-- What a tick of a thread means to the waits on a condition variable, and how the roster
changes. -/
inductive Event (c : ConditionId) (t : ThreadId) (M M' : Machine α) : (Roster → Roster) → Prop
  | enter {path op l code} (hcode : (M.thread t).code = .start path op :: code)
      (hcode' : (M'.thread t).code =
        .suspend t (some (.condition c)) :: acquire l :: .report path .ok :: code)
      (hwaiters : (M'.waiters (.condition c)).toList = (M.waiters (.condition c)).toList ++ [t]) :
      Event c t M M' (·.enter t l)
  /-- The first `n` entries are taken out. -/
  | wake {path op code} {update : Roster → Roster} (n : Nat)
      (hcode : (M.thread t).code = .start path op :: code) (hplace' : M'.place? t = none)
      (hwaiters : (M'.waiters (.condition c)).toList = (M.waiters (.condition c)).toList.drop n)
      (hready : M'.ready =
        M.ready ++ ((M.waiters (.condition c)).toList.take n).filter M.isResumable)
      (hlive : M'.isResumable = M.isResumable)
      (hupdate : ∀ r : Roster, r.line.map (·.thread) = (M.waiters (.condition c)).toList →
        update r = r.take M.isResumable n) :
      Event c t M M' update
  | leave {code} (hcode : (M.thread t).code = .suspend t (some (.condition c)) :: code)
      (hn : (M.handle t).notified = true) (hcode' : (M'.thread t).code = code)
      (hplace' : M'.place? t = none)
      (hsame : M'.waiters (.condition c) = M.waiters (.condition c)) :
      Event c t M M' (·.leave t)
  | conclude {path r code} (hcode : (M.thread t).code = .report path r :: code)
      (hcode' : (M'.thread t).code = code) (hplace' : M'.place? t = none)
      (hsame : M'.waiters (.condition c) = M.waiters (.condition c)) :
      Event c t M M' (·.conclude t)
  /-- The tick has nothing to do with the condition variable, or the thread stops there. -/
  | aside (hne : ∀ path r code, (M.thread t).code ≠ .report path r :: code)
      (hplace : M'.place? t = some (.condition c) ↔ M.place? t = some (.condition c))
      (hstop : M.place? t = some (.condition c) →
        (M.handle t).notified = false ∧ M'.thread t = M.thread t)
      (hsame : M'.waiters (.condition c) = M.waiters (.condition c)) :
      Event c t M M' id

variable {M M' : Machine α} {t : ThreadId} {c : ConditionId} {path : Path} {name : String}
  {others : List ThreadId} {i : Instr α} {code : List (Instr α)}

theorem tick_of_goOn {N : Machine α} {more : List (Instr α)} (hready : M.ready = t :: others)
    (hcode : (M.thread t).code = i :: code) (he : M.execute t i = (N, .goOn more)) :
    M.tick = N.setCode t (more ++ code) := by
  unfold tick
  simp only [hready, hcode, he]

/-- When an instruction leaves nothing more to do, the thread goes on with what comes after it. -/
theorem tick_of_done {N : Machine α} (hready : M.ready = t :: others)
    (hcode : (M.thread t).code = i :: code) (he : M.execute t i = (N, .goOn [])) :
    M.tick = N.setCode t code :=
  tick_of_goOn hready hcode he

theorem waiters_setCode (t : ThreadId) (code : List (Instr α)) (p : Place) :
    (M.setCode t code).waiters p = M.waiters p := by
  cases p <;> rfl

theorem place?_setCode (t : ThreadId) (code : List (Instr α)) :
    (M.setCode t code).place? t = placeOf code := by
  rw [place?, thread_setCode, if_pos rfl]

/-- A departure puts the task at the end of the line. -/
theorem waiters_depart {l : Lockable} (h : (M.depart c l t).2 = .departed) :
    ((M.depart c l t).1.waiters (.condition c)).toList =
      (M.waiters (.condition c)).toList ++ [t] := by
  rcases depart_of_departed h with ⟨m, -, -, heq⟩ | ⟨r, -, hraw⟩
  · rw [heq, leave, (wakeOne_wakes t _ (.mutex m)).waiters (by rintro e rfl; simp), enqueue,
      waiters_setWaiters_self, waiters_setOwner, WaitList.toList_push]
  · rw [hraw.waiters (by rintro e rfl; simp), enqueue, waiters_setWaiters_self,
      WaitList.toList_push]

end Machine

namespace Setting

open Machine

variable {S : Setting α} {M N : Machine α} {t : ThreadId} {c : ConditionId} {path : Path}
  {name : String} {others : List ThreadId} {code : List (Instr α)}

/-- A wake takes a front part of the line out. -/
theorem event_of_wakes {op : Op α} (spares : S.SparesTokens) (hm : S.Midway t none M)
    (hcode : (M.thread t).code = .start path op :: code) (hw : Wakes (.condition c) t M N) {n : Nat}
    (hn : (N.waiters (.condition c)).toList = (M.waiters (.condition c)).toList.drop n)
    {update : Roster → Roster}
    (hupdate : ∀ r : Roster, r.line.map (·.thread) = (M.waiters (.condition c)).toList →
      update r = r.take M.isResumable n) :
    M.Event c t (N.setCode t (.report path .done :: code)) update := by
  obtain ⟨taken, hlist, hready, hlive⟩ := hm.wakes spares (by simp) hw
  have htaken : taken = (M.waiters (.condition c)).toList.take n := by
    rw [hn] at hlist
    exact List.append_cancel_right
      (hlist.symm.trans (List.take_append_drop n _).symm)
  refine .wake n hcode ?_ ?_ ?_ hlive hupdate
  · rw [place?_setCode]
    rfl
  · rw [waiters_setCode, hn]
  · rw [← htaken]
    exact hready

theorem event_of_signal (spares : S.SparesTokens) (hm : S.Midway t none M)
    (hready : M.ready = t :: others)
    (hcode : (M.thread t).code = .start path (.onObject name .signal) :: code)
    (ho : M.object? name = some (.condition c)) :
    M.Event c t M.tick (·.signal M.isResumable) := by
  have he : M.execute t (.start path (.onObject name .signal)) =
      ((M.wakeOne (.condition c)).1, .goOn [.report path .done]) := by
    simp only [execute, perform, ho]
    rfl
  rw [tick_of_goOn hready hcode he]
  refine event_of_wakes spares hm hcode (wakeOne_wakes t M _)
    (n := ((M.waiters (.condition c)).toList.takeWhile (!M.isResumable ·)).length + 1) ?_ ?_
  · rw [waiters_wakeOne, (Roster.first_of_take _ M.isResumable).2.2]
    rfl
  · intro r hline
    rw [Roster.signal_eq, ← hline, List.takeWhile_map, List.length_map]
    rfl

theorem tick_broadcast (hready : M.ready = t :: others)
    (hcode : (M.thread t).code = .start path (.onObject name .broadcast) :: code)
    (ho : M.object? name = some (.condition c)) :
    M.tick = (M.wakeAll (.condition c)).1.setCode t (.report path .done :: code) := by
  have he : M.execute t (.start path (.onObject name .broadcast)) =
      ((M.wakeAll (.condition c)).1, .goOn [.report path .done]) := by
    simp only [execute, perform, ho]
    rfl
  exact tick_of_goOn hready hcode he

theorem event_of_broadcast (spares : S.SparesTokens) (hm : S.Midway t none M)
    (hready : M.ready = t :: others)
    (hcode : (M.thread t).code = .start path (.onObject name .broadcast) :: code)
    (ho : M.object? name = some (.condition c)) :
    M.Event c t M.tick (·.broadcast M.isResumable) := by
  rw [tick_broadcast hready hcode ho]
  refine event_of_wakes spares hm hcode (wakeAll_wakes t M _)
    (n := (M.waiters (.condition c)).toList.length) ?_ ?_
  · rw [waiters_wakeAll, List.drop_length]
  · intro r hline
    rw [Roster.broadcast_eq, ← hline, List.length_map]

/-- A broadcast makes the waiters ready that can be resumed, in the order in which they came. -/
theorem ready_of_broadcast (spares : S.SparesTokens) (hm : S.Midway t none M)
    (hready : M.ready = t :: others)
    (hcode : (M.thread t).code = .start path (.onObject name .broadcast) :: code)
    (ho : M.object? name = some (.condition c)) :
    M.tick.ready = M.ready ++ (M.waiters (.condition c)).toList.filter M.isResumable := by
  obtain ⟨taken, hlist, hwoken, -⟩ :=
    hm.wakes spares (by simp) (wakeAll_wakes t M (.condition c))
  rw [waiters_wakeAll, List.append_nil] at hlist
  rw [tick_broadcast hready hcode ho, hlist]
  exact hwoken

theorem event_of_wait {lock : String} (hready : M.ready = t :: others)
    (hcode : (M.thread t).code = .start path (.onObject name (.wait lock)) :: code)
    (ho : M.object? name = some (.condition c)) :
    ∃ update, M.Event c t M.tick update ∧ ∀ r, r.tick c M = update r := by
  have hplace : M.place? t = none := place?_of_code hcode
  have hexecute : M.execute t (.start path (.onObject name (.wait lock))) =
      M.performWait t path c lock := by
    simp only [execute, perform, ho]
    rfl
  have hname := isCondition_iff.2 ho
  have stays : M.tick.place? t = none → ∀ r : Roster, r.tick c M = r := by
    intro hplace' r
    cases hl : (M.object? lock).bind Machine.lockable? with
    | none => simp only [Roster.tick, doing?_of_code hready hcode, Roster.begin, hl]
    | some l => simp [Roster.tick, doing?_of_code hready hcode, Roster.begin, hl, hplace']
  have enters : ∀ l, (M.object? lock).bind Machine.lockable? = some l →
      M.tick.place? t = some (.condition c) → ∀ r : Roster, r.tick c M = r.enter t l := by
    intro l hl hplace' r
    simp only [Roster.tick, doing?_of_code hready hcode, Roster.begin, hl, hname, hplace', and_self,
      if_true]
  rcases M.performWait_cases t path c lock with ⟨answer, h⟩ | ⟨o, l, hlock, hl, hd, h⟩
  · have htick := tick_of_goOn hready hcode (hexecute.trans h)
    have hplace' : M.tick.place? t = none := by
      rw [htick, place?_setCode]
      rfl
    refine ⟨id, .aside (by simp [hcode]) (by simp [hplace, hplace']) (by simp [hplace]) ?_,
      stays hplace'⟩
    rw [htick, waiters_setCode]
  · have htick := tick_of_goOn hready hcode (hexecute.trans h)
    have hplace' : M.tick.place? t = some (.condition c) := by
      rw [htick, place?_setCode]
      rfl
    have hfound : (M.object? lock).bind Machine.lockable? = some l := by
      rw [hlock, Option.bind_some, hl]
    refine ⟨(·.enter t l), .enter hcode ?_ ?_, enters l hfound hplace'⟩
    · rw [htick, thread_setCode, if_pos rfl]
      rfl
    · rw [htick, waiters_setCode, waiters_depart hd]

/-- The beginning of an operation on something else. -/
theorem event_of_start {op : Op α} (h : S.Sound M) (hready : M.ready = t :: others)
    (hcode : (M.thread t).code = .start path op :: code)
    (hne : ∀ name verb, op = .onObject name verb → M.object? name = some (.condition c) →
      (∀ lock, verb ≠ .wait lock) ∧ verb ≠ .signal ∧ verb ≠ .broadcast) :
    M.Event c t M.tick id := by
  have hplace : M.place? t = none := place?_of_code hcode
  have hbefore : ∀ path r rest, (M.thread t).code ≠ .report path r :: rest := by simp [hcode]
  have same : ∀ {t' others' i' code'}, M.ready = t' :: others' → (M.thread t').code = i' :: code' →
      t = t' ∧ .start path op = i' ∧ code = code' := by
    intro t' others' i' code' hr hc
    obtain rfl := (List.cons.inj (hready.symm.trans hr)).1
    exact ⟨rfl, List.cons.inj (hcode.symm.trans hc)⟩
  have hmove := h.move
  generalize M.tick = M' at hmove ⊢
  cases hmove with
  | still hr => simp [hready] at hr
  | finish hr hidle =>
      obtain rfl := (List.cons.inj (hready.symm.trans hr)).1
      simp [hidle.1] at hcode
  | next hr hnil =>
      obtain rfl := (List.cons.inj (hready.symm.trans hr)).1
      simp [hnil] at hcode
  | goOn hr hc hdeed =>
      obtain ⟨rfl, rfl, rfl⟩ := same hr hc
      cases hdeed with
      | stroke hi => exact absurd rfl (hi _ _)
      | start _ hdoes =>
          obtain ⟨hwaiters, hmore⟩ := hdoes.away hne
          refine .aside hbefore ?_ (by simp [hplace]) (by rw [waiters_setCode, hwaiters])
          rw [place?_setCode, hplace]
          exact iff_of_false (hmore _ _ rfl) (by simp)
  | park hr hc hstroke =>
      obtain ⟨rfl, rfl, rfl⟩ := same hr hc
      cases hstroke with
      | start hbegins => exact absurd rfl hbegins.next_ne_park
  | unwind hr hc hop hdoes =>
      obtain ⟨rfl, hstart, rfl⟩ := same hr hc
      obtain ⟨rfl, rfl⟩ := Instr.start.inj hstart
      obtain ⟨hwaiters, -⟩ := hdoes.away hne
      refine .aside hbefore ?_ (by simp [hplace]) (by rw [waiters_setCode, hwaiters])
      have htrails := ((hc ▸ (h.shaped t).code).trails_of_start).2
      rw [place?_setCode, hplace, placeOf_cleanup htrails]

/-- A thread that has come to the end of its code. -/
theorem event_of_nil (h : S.Sound M) (hready : M.ready = t :: others)
    (hnil : (M.thread t).code = []) : M.Event c t M.tick id := by
  have hplace : M.place? t = none := by simp [place?, hnil]
  have hbefore : ∀ path r rest, (M.thread t).code ≠ .report path r :: rest := by simp [hnil]
  have same : ∀ {t' others'}, M.ready = t' :: others' → t = t' := fun hr =>
    (List.cons.inj (hready.symm.trans hr)).1
  have hturn := h.turn
  generalize M.tick = M' at hturn ⊢
  cases hturn with
  | still hr => exact .aside hbefore Iff.rfl (by simp [hplace]) rfl
  | finish hr hidle => exact .aside hbefore Iff.rfl (by simp [hplace]) rfl
  | next hr =>
      obtain rfl := same hr
      refine .aside hbefore ?_ (by simp [hplace]) rfl
      rw [place?, thread_setThread, if_pos rfl, hplace]
      simp [Instr.place?]
  | goOn hr hcode | park hr hcode | unwind hr hcode =>
      obtain rfl := same hr
      simp [hnil] at hcode

/-- An instruction other than the beginning of an operation or a report, at which the thread
does not wait for this condition. -/
theorem event_of_stroke {i : Instr α} (h : S.Sound M) (hpublic : S.IsPublicCondition c)
    (hready : M.ready = t :: others) (hcode : (M.thread t).code = i :: code)
    (hstart : ∀ path op, i ≠ .start path op) (hreport : ∀ path r, i ≠ .report path r)
    (hplace : i.place? ≠ some (.condition c)) : M.Event c t M.tick id := by
  have hshape := hcode ▸ (h.shaped t).code
  have hbefore : ∀ path r rest, (M.thread t).code ≠ .report path r :: rest := by
    intro path r rest hc
    exact hreport path r (List.cons.inj (hcode.symm.trans hc)).1
  rcases h.turn.of_code hready hcode with
    ⟨N, more, hstroke, htick⟩ | ⟨N, hstroke, htick⟩ | ⟨N, message, hstroke, -⟩
  · obtain ⟨hwaiters, hmore⟩ := hstroke.away h.fits hshape hpublic hstart
    rw [htick]
    refine .aside hbefore ?_ ?_ (by rw [waiters_setCode, hwaiters])
    · rw [place?_setCode, place?_of_code hcode]
      exact iff_of_false (hmore more rfl) hplace
    · rw [place?_of_code hcode]
      exact fun hc => absurd hc hplace
  · have hhalts := hstroke.halts hready hcode
    rw [htick]
    refine .aside hbefore (by simp only [place?, hhalts.thread]) ?_ (hhalts.waiters _)
    rw [place?_of_code hcode]
    exact fun hc => absurd hc hplace
  · cases hstroke with
    | start => exact absurd rfl (hstart _ _)

/-- A thread at its suspension leaves it once it is notified. -/
theorem event_of_suspend {v : HandleId} (h : S.Sound M) (hready : M.ready = t :: others)
    (hcode : (M.thread t).code = .suspend v (some (.condition c)) :: code) :
    ∃ update, M.Event c t M.tick update ∧ ∀ r : Roster, r.tick c M = update r := by
  have hshape := hcode ▸ (h.shaped t).code
  obtain rfl : v = t := hshape.handle_of_suspend
  have hroster : ∀ r : Roster, r.tick c M =
      if M.tick.place? v ≠ some (.condition c) then r.leave v else r := by
    intro r
    simp only [Roster.tick, doing?_of_code hready hcode, true_and]
  rcases h.turn.of_code hready hcode with
    ⟨N, more, hstroke, htick⟩ | ⟨N, hstroke, htick⟩ | ⟨N, message, hstroke, -⟩
  · cases hstroke with
    | pass hn =>
        have hplace' : M.tick.place? v = none := by
          rw [htick, place?_setCode]
          exact hshape.placeOf_behind
        refine ⟨(·.leave v), .leave hcode hn ?_ hplace' ?_, ?_⟩
        · rw [htick, thread_setCode, if_pos rfl]
          rfl
        · rw [htick]
          rfl
        · intro r
          rw [hroster, hplace', if_pos (by simp)]
  · have hhalts := hstroke.halts hready hcode
    rw [← htick] at hhalts
    have hplace' : M.tick.place? v = some (.condition c) := by
      simp only [place?, hhalts.thread]
      exact place?_of_code hcode
    refine ⟨id, .aside (by simp [hcode]) ?_ ?_ (hhalts.waiters _), ?_⟩
    · simp only [place?, hhalts.thread]
    · exact fun _ => ⟨hhalts.unnotified _ _ _ hcode, hhalts.thread _⟩
    · intro r
      rw [hroster, hplace', if_neg (by simp)]
      rfl
  · cases hstroke

theorem event_of_report {r : Result α} (h : S.Sound M) (hready : M.ready = t :: others)
    (hcode : (M.thread t).code = .report path r :: code) :
    M.Event c t M.tick (·.conclude t) := by
  have hshape := hcode ▸ (h.shaped t).code
  have htick : M.tick = (M.note (.finished t (M.thread t).step path r)).setCode t code :=
    tick_of_done hready hcode rfl
  refine .conclude hcode ?_ ?_ ?_
  · rw [htick, thread_setCode, if_pos rfl]
  · rw [htick, place?_setCode]
    exact hshape.placeOf_behind
  · rw [htick]
    rfl

/-- The beginning of an operation. -/
theorem event_of_begin {op : Op α} (spares : S.SparesTokens) (h : S.Sound M)
    (hb : ∀ u, M.Balanced u) (hready : M.ready = t :: others)
    (hcode : (M.thread t).code = .start path op :: code) :
    ∃ update, M.Event c t M.tick update ∧ ∀ r : Roster, r.tick c M = update r := by
  have hm : S.Midway t none M := .of_balanced h hb hready (place?_of_code hcode)
  have hroster : ∀ r : Roster, r.tick c M = r.begin c M t op := by
    intro r
    simp only [Roster.tick, doing?_of_code hready hcode]
  have elsewhere : (∀ name verb, op = .onObject name verb → M.object? name = some (.condition c) →
      (∀ lock, verb ≠ .wait lock) ∧ verb ≠ .signal ∧ verb ≠ .broadcast) →
      (∀ r : Roster, r.begin c M t op = r) →
      ∃ update, M.Event c t M.tick update ∧ ∀ r : Roster, r.tick c M = update r :=
    fun hne hr => ⟨id, event_of_start h hready hcode hne, fun r => (hroster r).trans (hr r)⟩
  cases op with
  | onObject name verb =>
      by_cases ho : M.object? name = some (.condition c)
      · have hname : M.isCondition c name = true := isCondition_iff.2 ho
        cases verb with
        | wait lock => exact event_of_wait hready hcode ho
        | signal =>
            refine ⟨_, event_of_signal spares hm hready hcode ho, fun r => ?_⟩
            rw [hroster, Roster.begin, hname, if_pos rfl]
        | broadcast =>
            refine ⟨_, event_of_broadcast spares hm hready hcode ho, fun r => ?_⟩
            rw [hroster, Roster.begin, hname, if_pos rfl]
        | _ =>
            refine elsewhere ?_ fun r => rfl
            rintro name' verb' ⟨⟩ -
            simp
      · have hname : M.isCondition c name = false := by
          rw [← Bool.not_eq_true, isCondition_iff]
          exact ho
        refine elsewhere ?_ fun r => ?_
        · rintro name' verb' ⟨⟩ hc
          exact absurd hc ho
        · cases verb with
          | wait lock =>
              simp only [Roster.begin, hname, Bool.false_eq_true, false_and, if_false]
              split <;> rfl
          | signal | broadcast => simp only [Roster.begin, hname, Bool.false_eq_true, if_false]
          | _ => rfl
  | _ => exact elsewhere (by simp) fun r => rfl

/-- **Every tick is an event for a public condition variable, and the roster follows it.** -/
theorem exists_event (spares : S.SparesTokens) (h : S.Sound M) (hb : ∀ u, M.Balanced u)
    (hpublic : S.IsPublicCondition c) (hready : M.ready = t :: others) :
    ∃ update, M.Event c t M.tick update ∧ ∀ r : Roster, r.tick c M = update r := by
  cases hcode : (M.thread t).code with
  | nil =>
      refine ⟨id, event_of_nil h hready hcode, fun r => ?_⟩
      simp only [Roster.tick, doing?, hready, hcode, List.head?_nil, Option.map_none, id]
  | cons i code =>
      have hdoing := doing?_of_code hready hcode
      have other : (∀ path op, i ≠ .start path op) → (∀ path r, i ≠ .report path r) →
          i.place? ≠ some (.condition c) → (∀ r : Roster, r.tick c M = r) →
          ∃ update, M.Event c t M.tick update ∧ ∀ r : Roster, r.tick c M = update r :=
        fun hstart hreport hplace hr =>
          ⟨id, event_of_stroke h hpublic hready hcode hstart hreport hplace, hr⟩
      cases i with
      | start path op => exact event_of_begin spares h hb hready hcode
      | report path r => exact ⟨_, event_of_report h hready hcode, fun _ => by
          simp only [Roster.tick, hdoing]⟩
      | suspend v place =>
          obtain ⟨p, rfl⟩ := (hcode ▸ (h.shaped t).code).place_of_suspend spares
          by_cases hp : p = .condition c
          · subst hp
            exact event_of_suspend h hready hcode
          · refine other (by simp) (by simp) (by simpa [Instr.place?] using hp) fun r => ?_
            cases p with
            | mutex m => simp only [Roster.tick, hdoing]
            | condition c' =>
                have hcc : c' ≠ c := fun hc => hp (by rw [hc])
                simp only [Roster.tick, hdoing, hcc, false_and, if_false]
      | lock | unlock | closeGuard | seize | transact =>
          refine other (by simp) (by simp) (by simp [Instr.place?]) fun r => ?_
          simp only [Roster.tick, hdoing]

end Setting

end BlockingSync
