/-
What holds in every state.

`Sound` puts together that the parts of queues stay where they are, that every thread is
in one place and does what it was given, and that the mutex of a queue guards it: a thread
has it only between taking it and giving it back at one stroke, so nobody ever waits for
it.  Every tick keeps `Sound`, and so does every order.
-/
import BlockingSync.Machine.Order
import BlockingSync.Proofs.Frame

namespace BlockingSync

variable {α : Type}

/-- A machine in which nothing has happened yet. -/
structure Machine.Fresh (M : Machine α) : Prop where
  ready : M.ready = []
  idle : ∀ u, M.IsIdle u
  parkedOn : ∀ s, M.parkedOn s = []
  owner : ∀ m, (M.mutex m).owner = none
  waiters : ∀ p, (M.waiters p).toList = []
  notified : ∀ h, (M.handle h).notified = false
  log : M.log = []

namespace Machine

variable {M : Machine α}

theorem ready_give (t : ThreadId) (step : Nat) (ops : List (Op α)) :
    (M.give t step ops).ready = M.ready ++ [t] :=
  rfl

theorem thread_give (t u : ThreadId) (step : Nat) (ops : List (Op α)) :
    (M.give t step ops).thread u = if t = u then
      { M.thread t with code := [], pending := ops.zipIdx.map Prod.swap, step } else M.thread u :=
  thread_setThread t u _

theorem thread_exit (t u : ThreadId) :
    (M.exit t).thread u = if t = u then { M.thread t with exited := true } else M.thread u :=
  thread_setThread t u _

theorem handle_exit (t u : HandleId) :
    (M.exit t).handle u = if t = u then { M.handle t with terminated := true } else M.handle u := by
  exact handle_setHandle t u _

end Machine

namespace Setting

variable {S : Setting α} {M M' : Machine α} {t : ThreadId} {q : QueueId} {i : Instr α}
  {code more : List (Instr α)} {step : Nat}

open Machine

/-! ### The mutex of a queue -/

variable (S) in
/-- Whether an instruction happens while the mutex of a queue is held. -/
def IsInside (q : QueueId) : Instr α → Bool
  | .transact q' _ _ => q' == q
  | .unlock m => m == S.mutex q
  | _ => false

variable (S) in
/-- The thread, if its code begins while it holds the mutex of a queue. -/
def holding (q : QueueId) (u : ThreadId) (code : List (Instr α)) : Option ThreadId :=
  if code.head?.any (S.IsInside q) then some u else none

variable (S) in
/-- The thread that holds the mutex of a queue: it must be the one that runs. -/
def holder (M : Machine α) (q : QueueId) : Option ThreadId :=
  M.ready.head?.bind fun t => S.holding q t (M.thread t).code

variable (S) in
/-- Whether the mutex of every queue is held exactly by the thread inside, and nobody waits for
it. -/
structure Guarded (M : Machine α) : Prop where
  waiting : ∀ q < S.queues, (M.mutex (S.mutex q)).waiting.toList = []
  owner : ∀ q < S.queues, (M.mutex (S.mutex q)).owner = S.holder M q

@[simp] theorem holding_cons : S.holding q t (i :: code) =
    if S.IsInside q i then some t else none :=
  rfl

theorem holding_of_trails (hq : q < S.queues) (h : S.Trails step code) :
    S.holding q t code = none := by
  cases code with
  | nil => rfl
  | cons i code =>
      have hi := (trails_cons.1 h).1
      cases i with
      | unlock m =>
          have hne : m ≠ S.mutex q := (hi q hq).symm
          simp [IsInside, hne]
      | transact => exact absurd hi id
      | _ => simp [IsInside]

/-- A thread that stands behind a suspension holds no mutex of a queue. -/
theorem holding_of_suspend {h : HandleId} {w : Option Place} (hq : q < S.queues)
    (hs : S.Shape step t (.suspend h w :: code)) : S.holding q t code = none := by
  cases hs with
  | trailing h => exact absurd (trails_cons.1 h).1 id
  | told _ h => exact holding_of_trails hq h
  | locking | waiting | waitingRaw | queueing => simp [IsInside]

/-! ### Strokes -/

theorem mutex_ne {q' : QueueId} (hq : q < S.queues) (hq' : q' < S.queues) (h : q' ≠ q) :
    S.mutex q' ≠ S.mutex q :=
  fun hc => h (S.apart.mutex_inj q' hq' q hq hc)

theorem spares_of_isCalm (hq : q < S.queues) {e : Effect} (h : S.IsCalm e) :
    e.Spares (S.mutex q) := by
  cases e with
  | own m o =>
      cases o with
      | none => exact absurd h id
      | some o => simp [Effect.Spares, (h q hq).symm]
  | enter => exact absurd h id
  | wake p =>
      cases p with
      | mutex m => exact absurd h id
      | condition c => simp [Effect.Spares]
  | _ => simp [Effect.Spares]

theorem spares_of_isServing {q' : QueueId} {m : MutexId} {e : Effect} (h : S.IsServing q' e) :
    e.Spares m := by
  cases e with
  | own | enter => exact absurd h id
  | wake p =>
      cases p with
      | mutex m => exact absurd h id
      | condition c => simp [Effect.Spares]
  | _ => simp [Effect.Spares]

theorem Begins.mutex_eq {path : Path} {op : Op α} {next : Next α} (hq : q < S.queues)
    (h : S.Begins M t step path op M' next) : M'.mutex (S.mutex q) = M.mutex (S.mutex q) := by
  cases h with
  | calm h => exact h.mutex_eq fun _ => spares_of_isCalm hq
  | unwind | forget => rfl
  | resumes _ h =>
      refine h.mutex_eq ?_
      rintro e (rfl | ⟨u, rfl⟩) <;> simp [Effect.Spares]
  | release hm => exact free_mutex_ne (hm q hq).symm
  | wait _ hm => exact leave_mutex_ne (hm q hq).symm
  | @waitRaw c r M' _ _ h =>
      have henter : Changes (· = .enter (.condition c)) t M (M.enqueue (.condition c) t) :=
        .single rfl (.enter _)
      have h₁ := henter.mutex_eq (m := S.mutex q) (by rintro e rfl; simp [Effect.Spares])
      have h₂ := h.mutex_eq (m := S.mutex q) (by rintro e rfl; simp [Effect.Spares])
      rw [h₂, h₁]

theorem Begins.holding {path : Path} {op : Op α} {next : List (Instr α)}
    (h : S.Begins M t step path op M' (.goOn next)) (code : List (Instr α)) :
    S.holding q t (next ++ code) = none := by
  cases h with
  | calm _ ho => cases ho <;> simp [IsInside]
  | forget | resumes => simp [IsInside]
  | release _ _ _ hn =>
      rcases hn with ⟨r, hn⟩ | ⟨message, hn⟩
      · obtain rfl := Next.goOn.inj hn
        simp [IsInside]
      · cases hn
  | wait | waitRaw => simp [IsInside]

/-- A stroke hands the mutex of a queue over as the code of its thread says. -/
theorem Stroke.guards (hq : q < S.queues) (hfits : M.Fits S)
    (hshape : S.Shape (M.thread t).step t (i :: code)) (h : S.Stroke M t i M' (.goOn more))
    (hw : (M.mutex (S.mutex q)).waiting.toList = [])
    (ho : (M.mutex (S.mutex q)).owner = S.holding q t (i :: code)) :
    (M'.mutex (S.mutex q)).waiting.toList = [] ∧
      (M'.mutex (S.mutex q)).owner = S.holding q t (more ++ code) := by
  -- If the mutex is left alone, the thread must not have got in or out.
  have same : M'.mutex (S.mutex q) = M.mutex (S.mutex q) →
      S.holding q t (more ++ code) = S.holding q t (i :: code) →
      (M'.mutex (S.mutex q)).waiting.toList = [] ∧
        (M'.mutex (S.mutex q)).owner = S.holding q t (more ++ code) := by
    intro hsame hholding
    rw [hsame, hholding]
    exact ⟨hw, ho⟩
  cases h with
  | start h => exact same (h.mutex_eq hq) (by simp [h.holding, IsInside])
  | @claim m hfree =>
      rcases hshape.of_lock with ⟨hm, htrails⟩ | ⟨q', path, tr, rest, rfl, rfl, hs, htrails⟩
      · refine same ?_ (by simp [holding_of_trails hq htrails, IsInside])
        simp [mutex_setOwner, (hm q hq).symm]
      · by_cases hqq : q' = q
        · subst hqq
          simpa [mutex_setOwner, IsInside] using hw
        · refine same ?_ (by simp [IsInside, hqq])
          simp [mutex_setOwner, mutex_ne hq hs.lt hqq]
  | @queueUp m o howned =>
      have hne : m ≠ S.mutex q := by
        rintro rfl
        simp [howned, IsInside] at ho
      have henter : Changes (· = .enter (.mutex m)) t M (M.enqueue (.mutex m) t) :=
        .single rfl (.enter _)
      refine same (henter.mutex_eq ?_) (by simp [IsInside])
      rintro e rfl
      simp [Effect.Spares, hne]
  | @unlock m o howned =>
      rcases hshape.of_unlock with ⟨hm, htrails⟩ | ⟨q', path, r, rest, hlt, rfl, rfl, htrails⟩
      · have hne := (hm q hq).symm
        exact same (free_mutex_ne hne)
          (by simp [holding_of_trails hq htrails, IsInside, hne])
      · by_cases hqq : q' = q
        · subst hqq
          exact ⟨waiting_free hw, by simp [IsInside]⟩
        · have hne := mutex_ne hq hlt hqq
          exact same (free_mutex_ne hne) (by simp [IsInside, hne])
  | @unlockFree m hfree =>
      rcases hshape.of_unlock with ⟨hm, htrails⟩ | ⟨q', path, r, rest, hlt, rfl, rfl, htrails⟩
      · exact same rfl (by simp [holding_of_trails hq htrails, IsInside, (hm q hq).symm])
      · have hne : S.mutex q' ≠ S.mutex q := by
          intro hc
          rw [hc] at hfree
          simp [hfree, IsInside, hc] at ho
        exact same rfl (by simp [IsInside, hne])
  | closeGuard =>
      have hm := hshape.of_closeGuard.1
      exact same rfl (by simp [IsInside, (hm q hq).symm])
  | seize h =>
      refine same (h.mutex_eq (by rintro e rfl; simp [Effect.Spares])) ?_
      simp [holding_of_trails hq hshape.trails_of_seize, IsInside]
  | pass => exact same rfl (by simp [holding_of_suspend hq hshape, IsInside])
  | report => exact same rfl (by simp [holding_of_trails hq hshape.trails_of_report, IsInside])
  | @wait q' path tr side hside hwait howned =>
      by_cases hqq : q' = q
      · subst hqq
        exact ⟨waiting_leave hw, by simp [IsInside]⟩
      · have hne := mutex_ne hq hshape.of_transact.1.lt hqq
        exact same (leave_mutex_ne hne) (by simp [IsInside, hqq])
  | @transact q' path tr M' r htr =>
      have hlt := hshape.of_transact.1.lt
      refine same ((htr.changes (t := t) hfits hlt).mutex_eq fun _ => spares_of_isServing) ?_
      by_cases hqq : q' = q
      · subst hqq
        simp [IsInside]
      · simp [IsInside, hqq, mutex_ne hq hlt hqq]

/-- Whatever a stroke puts before the rest of the code may stand there. -/
theorem Stroke.shape (hshape : S.Shape (M.thread t).step t (i :: code))
    (h : S.Stroke M t i M' (.goOn more))
    (hfree : ∀ q < S.queues, i = .lock (S.mutex q) → (M.mutex (S.mutex q)).owner = none) :
    S.Shape (M.thread t).step t (more ++ code) := by
  cases h with
  | start h =>
      have htrails := hshape.trails_of_start.2
      cases h with
      | calm _ ho =>
          cases ho with
          | answer => exact .report htrails
          | lock hm h => exact .lock hm (trails_append.2 ⟨h, htrails⟩)
          | seize h => exact .seize (trails_append.2 ⟨h, htrails⟩)
          | enter hs => exact .entering hs htrails
          | told hop h => exact .told hop (trails_append.2 ⟨h, htrails⟩)
      | forget | resumes => exact .report htrails
      | release _ _ _ hn =>
          rcases hn with ⟨r, hn⟩ | ⟨message, hn⟩
          · obtain rfl := Next.goOn.inj hn
            exact .report htrails
          · cases hn
      | wait hc hm _ hcall => exact .waiting hc hm (trails_cons.2 ⟨.inl hcall, htrails⟩)
      | waitRaw hc hcall => exact .waitingRaw hc (trails_cons.2 ⟨.inl hcall, htrails⟩)
  | claim =>
      rcases hshape.of_lock with ⟨-, htrails⟩ | ⟨q, path, tr, rest, -, rfl, hs, htrails⟩
      · exact .trailing htrails
      · exact .inside hs htrails
  | queueUp howned =>
      rcases hshape.of_lock with ⟨hm, htrails⟩ | ⟨q, path, tr, rest, rfl, rfl, hs, htrails⟩
      · exact .locking hm htrails
      · rw [hfree q hs.lt rfl] at howned
        cases howned
  | unlock | unlockFree =>
      rcases hshape.of_unlock with ⟨-, htrails⟩ | ⟨q, path, r, rest, -, -, rfl, htrails⟩
      · exact .trailing htrails
      · exact .report htrails
  | closeGuard =>
      obtain ⟨hm, hcall, htrails⟩ := hshape.of_closeGuard
      exact .trailing (trails_cons.2 ⟨hm, trails_cons.2 ⟨.inl hcall, htrails⟩⟩)
  | seize => exact .trailing hshape.trails_of_seize
  | pass => exact hshape.of_suspend
  | report => exact .trailing hshape.trails_of_report
  | wait hside => exact .queueing hshape.of_transact.1 hside hshape.of_transact.2
  | transact => exact .leaving hshape.of_transact.1.lt hshape.of_transact.2

/-- An operation is given up only when it begins. -/
theorem Stroke.trails_of_unwind {message : String}
    (hshape : S.Shape step t (i :: code)) (h : S.Stroke M t i M' (.unwind message)) :
    S.Trails step code := by
  cases h with
  | start => exact hshape.trails_of_start.2

theorem Stroke.orderly (hfits : M.Fits S) (hshape : S.Shape step t (i :: code))
    (ho : M.Orderly) {next : Next α} (h : S.Stroke M t i M' next) (hnext : next ≠ .park) :
    M'.Orderly := by
  cases hi : i.isPassive with
  | false => exact ho.changes (h.changes hfits hshape hi hnext)
  | true =>
      cases h with
      | @pass u w =>
          refine ho.congr rfl ?_ (fun _ => rfl) (fun _ => rfl)
          intro s
          cases s with
          | raw r => rfl
          | handle v => exact keeps_setHandle (·.parked) (by rfl) v
      | report =>
          refine ho.congr rfl ?_ (fun _ => rfl) (fun _ => rfl)
          intro s; cases s <;> rfl
      | park => exact absurd rfl hnext
      | _ => simp [Instr.isPassive] at hi

/-- A thread that parks does so where the front of its code says. -/
theorem Stroke.orderly_of_park {others : List ThreadId} (ho : M.Orderly)
    (hready : M.ready = t :: others) (hcode : (M.thread t).code = i :: code)
    (h : S.Stroke M t i M' .park) :
    ({ M' with ready := M'.ready.tail } : Machine α).Orderly := by
  cases h with
  | @parkRaw r =>
      refine ho.park (s := .raw r) hready (by rw [stop?_of_code hcode]; rfl) ?_ ?_ ?_ rfl
      · simp [parkedOn, rawLock, setRawLock]
      · intro s hne
        cases s with
        | handle u => rfl
        | raw r' =>
            have : r ≠ r' := fun hc => hne (by rw [hc])
            show ((M.setRawLock r _).rawLock r').parked = _
            rw [rawLock_setRawLock, if_neg this]
            rfl
      · simp [setRawLock, hready]
  | @park u w =>
      refine ho.park (s := .handle u) hready (by rw [stop?_of_code hcode]; rfl) ?_ ?_ ?_ rfl
      · simp [parkedOn, handle, setHandle]
      · intro s hne
        cases s with
        | raw r => rfl
        | handle v =>
            have : v ≠ u := fun hc => hne (by rw [hc])
            show ((M.setHandle u _).handle v).parked = _
            rw [handle_setHandle_ne this]
            rfl
      · simp [setHandle, hready]
  | start h => exact absurd rfl h.next_ne_park

/-! ### Ticks -/

theorem holder_of_ready {others : List ThreadId} (hready : M.ready = t :: others) (q : QueueId) :
    S.holder M q = S.holding q t (M.thread t).code := by
  simp [holder, hready]

theorem holding_of_stop {s : Stop} (h : M.stop? t = some s) :
    S.holding q t (M.thread t).code = none := by
  cases hcode : (M.thread t).code with
  | nil => rfl
  | cons i code =>
      rw [stop?_of_code hcode] at h
      cases i with
      | suspend | seize => simp [IsInside]
      | _ => simp [Instr.stop?] at h

/-- Nobody holds the mutex of a queue when a thread stops. -/
theorem Guarded.behind (hg : S.Guarded M) (ho : M.Orderly) (h : M.Halts t M') : S.Guarded M' := by
  refine ⟨fun q hq => by rw [h.mutex]; exact hg.waiting q hq, fun q hq => ?_⟩
  have hnone : S.holding q t (M.thread t).code = none := by
    rcases h.stopped with hidle | ⟨s, hs⟩
    · rw [hidle.1]
      rfl
    · exact holding_of_stop hs
  rw [h.mutex, hg.owner q hq, holder_of_ready h.ready, hnone]
  cases hready : M'.ready with
  | nil => simp [holder, hready]
  | cons u others =>
      obtain ⟨s, hs⟩ := ho.of_behind u (by simp [h.ready, hready])
      rw [holder_of_ready hready, h.thread, holding_of_stop hs]

variable (S) in
/-- What holds in every state. -/
structure Sound (M : Machine α) : Prop where
  fits : M.Fits S
  orderly : M.Orderly
  shaped : S.Shaped M
  guarded : S.Guarded M

/-- The thread that runs goes on with other code. -/
theorem Shaped.setThread (h : S.Shaped M) {s : Thread α} (hs : S.Follows t s) :
    S.Shaped (M.setThread t s) := by
  intro u
  rw [thread_setThread]
  split
  · subst u; exact hs
  · exact h u

theorem Sound.turn (h : S.Sound M) : S.Turn M M.tick := by
  refine tick_turn h.fits h.shaped ?_
  intro t others q path tr code hready hcode
  have hq : q < S.queues := (hcode ▸ (h.shaped t).code).of_transact.1.lt
  rw [h.guarded.owner q hq, holder_of_ready hready, hcode]
  simp [IsInside]

/-- The thread that runs holds the mutex of a queue only inside a transaction or right behind. -/
theorem Sound.free_of_lock {others : List ThreadId} {m : MutexId} (h : S.Sound M)
    (hready : M.ready = t :: others) (hcode : (M.thread t).code = .lock m :: code)
    (hq : q < S.queues) : (M.mutex (S.mutex q)).owner = none := by
  rw [h.guarded.owner q hq, holder_of_ready hready, hcode]
  simp [IsInside]

/-- A stroke after which its thread goes on with other code. -/
theorem Sound.setCode {others : List ThreadId} {next : Next α} {code' : List (Instr α)}
    (h : S.Sound M) (hready : M.ready = t :: others) (hcode : (M.thread t).code = i :: code)
    (hstroke : S.Stroke M t i M' next) (hnext : next ≠ .park)
    (hshape' : S.Shape (M.thread t).step t code')
    (hguards : ∀ q < S.queues, (M'.mutex (S.mutex q)).waiting.toList = [] ∧
      (M'.mutex (S.mutex q)).owner = S.holding q t code') : S.Sound (M'.setCode t code') := by
  have hshape : S.Shape (M.thread t).step t (i :: code) := hcode ▸ (h.shaped t).code
  have hthreads := hstroke.threads h.fits hshape
  have hthread : ∀ u, M'.thread u = M.thread u := thread_congr hthreads
  obtain ⟨behind, hready'⟩ := hstroke.ready_behind h.fits hshape hready
  have hshaped : S.Shaped M' := fun u => by rw [hthread]; exact h.shaped u
  have hfollows : S.Follows t { M'.thread t with code := code' } := by
    rw [hthread]
    exact ⟨hshape', (h.shaped t).pending⟩
  have horderly := hstroke.orderly h.fits hshape h.orderly hnext
  refine ⟨(hstroke.fits h.fits hshape).congr rfl rfl, horderly.setThread hready' _,
    hshaped.setThread hfollows, fun q hq => (hguards q hq).1, fun q hq => ?_⟩
  refine (hguards q hq).2.trans ?_
  rw [holder_of_ready (M := M'.setCode t _) hready', thread_setCode, if_pos rfl]

/-- **Whatever a tick can do keeps what holds in every state.** -/
theorem Sound.of_turn (h : S.Sound M) (hturn : S.Turn M M') : S.Sound M' := by
  cases hturn with
  | still => exact h
  | finish hready hidle =>
      exact ⟨h.fits.congr rfl rfl, h.orderly.finish hready hidle, h.shaped,
        h.guarded.behind h.orderly (.finish hready hidle)⟩
  | @next t others i op pending hready hcode hpending =>
      obtain ⟨-, hfind⟩ := h.shaped t
      rw [hpending] at hfind
      have hfollows : S.Follows t { M.thread t with code := [.start [i] op], pending, top := i } :=
        ⟨.trailing (trails_cons.2 ⟨hfind i op (by simp), trails_nil⟩),
          fun j op' hmem => hfind j op' (by simp [hmem])⟩
      refine ⟨h.fits.congr rfl rfl, h.orderly.setThread hready _, h.shaped.setThread hfollows,
        h.guarded.waiting, fun q hq => (h.guarded.owner q hq).trans ?_⟩
      have hready' : (M.setThread t { M.thread t with
          code := [.start [i] op], pending, top := i }).ready = t :: others := hready
      rw [holder_of_ready hready, hcode, holder_of_ready hready', thread_setThread, if_pos rfl]
      simp [IsInside]
      rfl
  | @goOn t others i code N more hready hcode hstroke =>
      have hshape : S.Shape (M.thread t).step t (i :: code) := hcode ▸ (h.shaped t).code
      refine h.setCode hready hcode hstroke (by simp) (hstroke.shape hshape ?_) ?_
      · rintro q hq rfl
        exact h.free_of_lock hready hcode hq
      · intro q hq
        refine hstroke.guards hq h.fits hshape (h.guarded.waiting q hq) ?_
        rw [h.guarded.owner q hq, holder_of_ready hready, hcode]
  | @park t others i code N hready hcode hstroke =>
      have hhalts := hstroke.halts hready hcode
      have hstays := hstroke.stays (.inr rfl)
      exact ⟨(h.fits.congr hstays.queues hstays.names).congr rfl rfl,
        hstroke.orderly_of_park h.orderly hready hcode,
        fun u => by rw [hhalts.thread]; exact h.shaped u, h.guarded.behind h.orderly hhalts⟩
  | @unwind t others i code N message hready hcode hstroke =>
      have hshape : S.Shape (M.thread t).step t (i :: code) := hcode ▸ (h.shaped t).code
      have htrails : S.Trails (M.thread t).step
          (cleanup code ++ [.report [(M.thread t).top] (.panicked message)]) :=
        (hstroke.trails_of_unwind hshape).givenUp _ _
      refine h.setCode hready hcode hstroke (by simp) (.trailing htrails) ?_
      intro q hq
      have howner := h.guarded.owner q hq
      rw [holder_of_ready hready, hcode] at howner
      cases hstroke with
      | start hb =>
          rw [hb.mutex_eq hq, howner, holding_of_trails hq htrails]
          exact ⟨h.guarded.waiting q hq, by simp [IsInside]⟩

/-- **Every tick keeps what holds in every state.** -/
theorem Sound.tick (h : S.Sound M) : S.Sound M.tick :=
  h.of_turn h.turn

/-! ### Orders -/

/-- Everything is in order before the first step. -/
theorem Sound.origin (hfresh : S.origin.Fresh) : S.Sound S.origin := by
  refine ⟨.origin S, ⟨?_, ?_, ?_, ?_, ?_⟩, ?_, ?_, ?_⟩
  · simp [hfresh.ready]
  · intro s; simp [hfresh.parkedOn]
  · intro s u hu; simp [hfresh.parkedOn] at hu
  · intro u _; exact .inl (hfresh.idle u)
  · simp [hfresh.ready]
  · intro u
    obtain ⟨hcode, hpending⟩ := hfresh.idle u
    exact ⟨by rw [hcode]; exact .trailing trails_nil, by simp [hpending]⟩
  · intro q _; exact hfresh.waiters (.mutex (S.mutex q))
  · intro q _; simp [hfresh.owner, holder, hfresh.ready]

/-- The log may start anew. -/
theorem Sound.clearLog (h : S.Sound M) : S.Sound { M with log := [] } := by
  refine ⟨h.fits.congr rfl rfl, h.orderly.congr rfl ?_ (fun _ => rfl) (fun _ => rfl), h.shaped,
    h.guarded.waiting, h.guarded.owner⟩
  intro s; cases s <;> rfl

theorem Sound.give (h : S.Sound M) (hready : M.ready = []) (hidle : M.IsIdle t) (step : Nat) :
    S.Sound (M.give t step (S.given step)) := by
  have hready' : (M.give t step (S.given step)).ready = [t] := by
    rw [ready_give, hready, List.nil_append]
  refine ⟨h.fits.congr rfl rfl, h.orderly.give hready hidle hready' ?_ ?_, ?_,
    h.guarded.waiting, ?_⟩
  · intro s; cases s <;> rfl
  · intro u hu
    rw [thread_give, if_neg (Ne.symm hu)]
  · refine Shaped.setThread h.shaped ⟨.trailing trails_nil, ?_⟩
    intro i op hmem
    obtain ⟨⟨op', i'⟩, hzip, heq⟩ := List.mem_map.1 hmem
    obtain ⟨rfl, rfl⟩ := Prod.mk.inj heq
    exact List.mem_zipIdx_iff_getElem?.1 hzip
  · intro q hq
    refine (h.guarded.owner q hq).trans ?_
    rw [holder_of_ready hready', thread_give, if_pos rfl]
    simp [holder, hready, holding]

theorem Sound.exit (h : S.Sound M) (hready : M.ready = []) (t : ThreadId) :
    S.Sound (M.exit t) := by
  have hcode : ∀ u, ((M.exit t).thread u).code = (M.thread u).code := fun u => by
    rw [thread_exit]; split <;> simp_all
  have hpending : ∀ u, ((M.exit t).thread u).pending = (M.thread u).pending := fun u => by
    rw [thread_exit]; split <;> simp_all
  have hstep : ∀ u, ((M.exit t).thread u).step = (M.thread u).step := fun u => by
    rw [thread_exit]; split <;> simp_all
  refine ⟨h.fits.congr rfl rfl, h.orderly.congr rfl ?_ hcode hpending, ?_, h.guarded.waiting, ?_⟩
  · intro s
    cases s with
    | raw r => rfl
    | handle u =>
        show ((M.exit t).handle u).parked = (M.handle u).parked
        rw [handle_exit]
        split
        · subst u; rfl
        · rfl
  · intro u
    exact ⟨by rw [hcode, hstep]; exact (h.shaped u).code,
      by rw [hpending, hstep]; exact (h.shaped u).pending⟩
  · intro q hq
    refine (h.guarded.owner q hq).trans ?_
    show M.ready.head?.bind _ = M.ready.head?.bind _
    simp [hready]

end Setting

end BlockingSync
