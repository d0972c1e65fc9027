/-
Tokens are neither lost nor made up.

Somebody who watches a run keeps a ledger of every task that is resumed and of every handle
on which a suspension returns.  A token is made by a resume and used up by the suspension
that returns, so those that have returned and the token that is left never outnumber the
resumes; they can be fewer, since a resume adds nothing to a token that is there already.
Nobody resumes who has terminated, so a terminated handle has one token left at most.

No token lies idle while a thread is parked on its handle: the resume that made it has
unparked a thread, which is ready and stands at its suspension still, unless another took
the token first (`Heeded`).  When no thread is ready there is no such thread either.
-/
import BlockingSync.Proofs.Resumes
import BlockingSync.Proofs.Roster

namespace BlockingSync

variable {α : Type}

namespace Machine

variable {M M' : Machine α} {t : ThreadId}

/-! ### What a tick does to tokens -/

/-- The tasks that the next tick resumes. -/
def resumed (M : Machine α) : List HandleId :=
  match M.doing? with
  | some (t, i) => M.resumedBy t i
  | none => []

/-- The handle on which a suspension returns in the next tick, if one does. -/
def returned (M : Machine α) : List HandleId :=
  match M.doing? with
  | some (_, .suspend h _) => if (M.handle h).notified then [h] else []
  | _ => []

theorem allLive_resumed (M : Machine α) : M.AllLive M.resumed := by
  unfold resumed
  split
  · exact allLive_resumedBy _ _
  · exact allLive_nil

theorem terminated_rouseAll (handles : Table Handle) (hs : List HandleId) (h : HandleId) :
    ((rouseAll handles hs).get h).terminated = (handles.get h).terminated := by
  induction hs generalizing handles with
  | nil => rfl
  | cons u hs ih =>
      show ((rouseAll (rouse handles u) hs).get h).terminated = _
      rw [ih, rouse, Table.get_set]
      split
      · subst u; rfl
      · rfl

/-- A thread that runs leaves the handles as its instruction does. -/
theorem handles_tick {others : List ThreadId} {i : Instr α} {code : List (Instr α)}
    (hready : M.ready = t :: others) (hcode : (M.thread t).code = i :: code) :
    M.tick.handles = (M.execute t i).1.handles := by
  unfold tick
  rw [hready]
  simp only [hcode]
  split <;> rename_i heq <;> rw [heq] <;> rfl

theorem handles_tick_of_not_doing (h : M.doing? = none) : M.tick.handles = M.handles := by
  unfold tick
  cases hready : M.ready with
  | nil => rfl
  | cons t others =>
      cases hcode : (M.thread t).code with
      | nil =>
          simp only [hcode]
          split <;> first | rfl | simp_all
      | cons i code =>
          rw [doing?_of_code hready hcode] at h
          simp at h

/-- What a tick can do to the handles. -/
inductive Tells (M : Machine α) : Table Handle → Prop
  | resumes (h : M.returned = []) : Tells M (rouseAll M.handles M.resumed)
  | returns {h} (hn : (M.handle h).notified = true) (hret : M.returned = [h])
      (hres : M.resumed = []) :
      Tells M (M.handles.set h { M.handle h with notified := false })
  | parks {h t} (hn : (M.handle h).notified = false) (hret : M.returned = [])
      (hres : M.resumed = []) :
      Tells M (M.handles.set h { M.handle h with parked := (M.handle h).parked ++ [t] })
  | terminates {h} (hret : M.returned = []) (hres : M.resumed = []) :
      Tells M (M.handles.set h { M.handle h with terminated := true })

theorem tick_tells (M : Machine α) : M.Tells M.tick.handles := by
  cases hdoing : M.doing? with
  | none =>
      have hres : M.resumed = [] := by simp [resumed, hdoing]
      have hret : M.returned = [] := by simp [returned, hdoing]
      rw [handles_tick_of_not_doing hdoing]
      have h := Tells.resumes (M := M) hret
      rwa [hres, rouseAll_nil] at h
  | some entry =>
      obtain ⟨t, i⟩ := entry
      obtain ⟨others, code, hready, hcode⟩ := doing?_eq_some.1 hdoing
      have hres : M.resumed = M.resumedBy t i := by simp [resumed, hdoing]
      rw [handles_tick hready hcode]
      by_cases hsuspend : ∃ h w, i = .suspend h w
      · obtain ⟨h, w, rfl⟩ := hsuspend
        have hres' : M.resumed = [] := hres
        simp only [execute]
        split
        · rename_i hn
          exact .returns hn (by simp [returned, hdoing, hn]) hres'
        · rename_i hn
          exact .parks (by simpa using hn) (by simp [returned, hdoing, hn]) hres'
      · have hret : M.returned = [] := by
          unfold returned
          split
          · rename_i h w heq
            rw [hdoing] at heq
            obtain ⟨-, rfl⟩ := Prod.mk.inj (Option.some.inj heq)
            exact absurd ⟨h, w, rfl⟩ hsuspend
          · rfl
        by_cases hterm : ∃ path handle, i = .start path (.onTask handle .terminate)
        · obtain ⟨path, handle, rfl⟩ := hterm
          simp only [resumedBy, resumedByOp, resumedByTask] at hres
          simp only [execute, perform]
          cases hh : M.handle? handle with
          | none =>
              have h := Tells.resumes (M := M) hret
              rw [hres, hh] at h
              exact h
          | some h =>
              rw [hh] at hres
              exact .terminates hret hres
        · rw [handles_execute (fun h w hi => hsuspend ⟨h, w, hi⟩)
            (fun path handle hi => hterm ⟨path, handle, hi⟩), ← hres]
          exact .resumes hret

/-- A suspension that returns has used a token up, and a token that is new is that of a resume. -/
theorem count_tick (M : Machine α) (h : HandleId) :
    M.returned.count h + (M.tick.handle h).notified.toNat ≤
      (M.handle h).notified.toNat + M.resumed.count h := by
  have htells := M.tick_tells
  generalize hhandles : M.tick.handles = handles at htells
  have hhandle : M.tick.handle h = handles.get h := by rw [handle, hhandles]
  rw [hhandle]
  cases htells with
  | resumes hret =>
      rw [hret, notified_rouseAll]
      cases hcontains : M.resumed.contains h with
      | false => simp [handle]
      | true =>
          have hpos : 0 < M.resumed.count h := List.count_pos_iff.2 (by simpa using hcontains)
          have := Bool.toNat_le ((M.handles.get h).notified || true)
          simp only [List.count_nil]
          omega
  | @returns u hn hret hres =>
      rw [hret, hres, Table.get_set]
      by_cases hu : u = h
      · subst hu
        simp [hn]
      · simp [hu, handle]
  | @parks u t hn hret hres =>
      rw [hret, hres, Table.get_set]
      split
      · subst u; simp
      · simp [handle]
  | @terminates u hret hres =>
      rw [hret, hres, Table.get_set]
      split
      · subst u; simp
      · simp [handle]

/-- Who has terminated stays so. -/
theorem terminated_tick {h : HandleId} (hterm : (M.handle h).terminated = true) :
    (M.tick.handle h).terminated = true := by
  have htells := M.tick_tells
  generalize hhandles : M.tick.handles = handles at htells
  rw [handle, hhandles]
  cases htells with
  | resumes => rw [terminated_rouseAll]; exact hterm
  | returns | parks =>
      rw [Table.get_set]
      split
      · subst h; exact hterm
      · exact hterm
  | terminates =>
      rw [Table.get_set]
      split
      · rfl
      · exact hterm

/-- Who has terminated is not resumed. -/
theorem count_resumed_of_terminated {h : HandleId} (hterm : (M.handle h).terminated = true) :
    M.resumed.count h = 0 := by
  refine List.count_eq_zero.2 fun hmem => ?_
  have hlive := M.allLive_resumed h hmem
  simp [isResumable, hterm] at hlive

/-! ### No token lies idle -/

/-- Whether every token at a handle on which a thread is parked has a ready thread that stands at
a suspension on it. -/
def Heeded (M : Machine α) : Prop :=
  ∀ h, (M.handle h).notified = true → (M.handle h).parked ≠ [] →
    ∃ u ∈ M.ready, M.stop? u = some (.handle h)

/-- Whoever unparks a thread makes it ready. -/
theorem Heeded.roused (h : M.Heeded) (ho : M.Orderly) (u : HandleId) : (M.roused u).Heeded := by
  intro v hn hparked
  rw [handle_roused] at hn hparked
  by_cases huv : u = v
  · subst huv
    rw [if_pos rfl] at hparked
    -- Some thread was parked first, and it is the one that is ready now.
    obtain ⟨first, rest, hfirst⟩ : ∃ first rest, (M.handle u).parked = first :: rest := by
      cases hp : (M.handle u).parked with
      | nil => simp [hp] at hparked
      | cons first rest => exact ⟨first, rest, rfl⟩
    have hmem : first ∈ M.parkedOn (.handle u) := by simp [parkedOn, hfirst]
    refine ⟨first, ?_, (ho.of_parked _ first hmem).2⟩
    simp [Machine.roused, hfirst]
  · rw [if_neg huv] at hn hparked
    obtain ⟨w, hw, hstop⟩ := h v hn hparked
    exact ⟨w, List.mem_append_left _ hw, hstop⟩

/-- What keeps the tokens of handles with parked threads, and the threads that stand there ready,
keeps the invariant. -/
theorem Heeded.of (h : M.Heeded)
    (hstep : ∀ v, (M'.handle v).notified = true → (M'.handle v).parked ≠ [] →
      (M.handle v).notified = true ∧ (M.handle v).parked ≠ [] ∧
        ∀ u ∈ M.ready, M.stop? u = some (.handle v) →
          u ∈ M'.ready ∧ M'.stop? u = some (.handle v)) : M'.Heeded := by
  intro v hn hparked
  obtain ⟨hn', hparked', hready⟩ := hstep v hn hparked
  obtain ⟨u, hu, hstop⟩ := h v hn' hparked'
  exact ⟨u, hready u hu hstop⟩

theorem stop?_congr (hthreads : M'.threads = M.threads) (u : ThreadId) :
    M'.stop? u = M.stop? u := by
  rw [stop?, stop?, thread_congr hthreads]

/-- Other parts of the state do not matter. -/
theorem Heeded.congr (h : M.Heeded) (hn : ∀ v, (M'.handle v).notified = (M.handle v).notified)
    (hparked : ∀ v, (M'.handle v).parked = (M.handle v).parked)
    (hready : ∀ u ∈ M.ready, u ∈ M'.ready) (hthreads : M'.threads = M.threads) : M'.Heeded := by
  refine h.of fun v hv hp => ⟨hn v ▸ hv, hparked v ▸ hp, fun u hu hstop => ⟨hready u hu, ?_⟩⟩
  rw [stop?_congr hthreads, hstop]

/-- A thread that does not stand at a suspension goes on with something else. -/
theorem Heeded.setThread (h : M.Heeded) (hne : ∀ v, M.stop? t ≠ some (.handle v))
    (s : Thread α) : (M.setThread t s).Heeded := by
  refine h.of fun v hv hp => ⟨hv, hp, fun u hu hstop => ⟨hu, ?_⟩⟩
  have hut : t ≠ u := fun hc => hne v (hc ▸ hstop)
  rw [stop?, thread_setThread, if_neg hut]
  exact hstop

/-- The thread that runs takes the token of a handle, or parks there without one; whoever stands at
another handle is still there. -/
theorem Heeded.elsewhere (h : M.Heeded) {v : HandleId} {s : Handle} (hn : s.notified = false)
    (hstop : M.stop? t = some (.handle v)) (hhandles : M'.handles = M.handles.set v s)
    (hready : ∀ u ∈ M.ready, u ≠ t → u ∈ M'.ready)
    (hthread : ∀ u, u ≠ t → M'.thread u = M.thread u) : M'.Heeded := by
  intro x hx hp
  rw [handle, hhandles, Table.get_set] at hx hp
  by_cases hv : v = x
  · rw [if_pos hv, hn] at hx
    simp at hx
  · rw [if_neg hv] at hx hp
    obtain ⟨u, hu, hat⟩ := h x hx hp
    have hut : u ≠ t := by
      intro hc
      rw [hc, hstop] at hat
      exact hv (Stop.handle.inj (Option.some.inj hat))
    refine ⟨u, hready u hu hut, ?_⟩
    rw [stop?, hthread u hut]
    exact hat

theorem Heeded.change {e : Effect} (h : M.Heeded) (ho : M.Orderly) (hc : Change t M e M') :
    M'.Heeded := by
  cases hc with
  | resume u => exact h.roused ho u
  | @rouse p u rest =>
      have hsame : (M.setWaiters p rest).Heeded :=
        h.congr (fun v => by simp) (fun v => by simp) (fun u hu => by simpa using hu) (by simp)
      exact hsame.roused (ho.setWaiters p rest) u
  | terminate u =>
      exact h.congr (keeps_setHandle (·.notified) (by rfl)) (keeps_setHandle (·.parked) (by rfl))
        (fun _ hu => hu) rfl
  | unpark =>
      exact h.congr (fun _ => rfl) (fun _ => rfl) (fun _ hu => List.mem_append_left _ hu) rfl
  | enter | relist | skip =>
      exact h.congr (fun v => by simp [enqueue]) (fun v => by simp [enqueue])
        (fun u hu => by simpa [enqueue, Machine.note] using hu) (by simp [enqueue, Machine.note])
  | _ => exact h.congr (fun _ => rfl) (fun _ => rfl) (fun _ hu => hu) rfl

theorem Heeded.changes {allowed : Effect → Prop} (h : M.Heeded) (ho : M.Orderly)
    (hc : Changes allowed t M M') : M'.Heeded := by
  have hboth : M'.Orderly ∧ M'.Heeded :=
    hc.keeps (I := fun N => N.Orderly ∧ N.Heeded)
      (fun _ _ _ _ last hN => ⟨hN.1.change last, hN.2.change hN.1 last⟩) ⟨ho, h⟩
  exact hboth.2

end Machine

namespace Setting

open Machine

variable {S : Setting α} {M M' : Machine α} {t : ThreadId}

/-- A stroke that is no suspension keeps the invariant. -/
theorem Stroke.heeded {i : Instr α} {code : List (Instr α)} {step : Nat} {next : Next α}
    (hs : S.Sound M) (h : M.Heeded) (hshape : S.Shape step t (i :: code))
    (hstroke : S.Stroke M t i M' next) (hnext : next ≠ .park) (hi : ∀ v w, i ≠ .suspend v w) :
    M'.Heeded := by
  cases hpassive : i.isPassive with
  | false => exact h.changes hs.orderly (hstroke.changes hs.fits hshape hpassive hnext)
  | true =>
      cases hstroke with
      | report => exact h.congr (fun _ => rfl) (fun _ => rfl) (fun _ hu => hu) rfl
      | pass => exact absurd rfl (hi _ _)
      | parkRaw | park => exact absurd rfl hnext
      | _ => simp [Instr.isPassive] at hpassive

/-- Where a thread stands that has parked. -/
theorem stop?_ne_of_code {i : Instr α} {code : List (Instr α)}
    (hcode : (M.thread t).code = i :: code) (hi : ∀ v w, i ≠ .suspend v w) (v : HandleId) :
    M.stop? t ≠ some (.handle v) := by
  rw [stop?_of_code hcode]
  cases i with
  | suspend u w => exact absurd rfl (hi u w)
  | _ => simp [Instr.stop?]

/-- So it does when the thread goes on behind it. -/
theorem Stroke.heeded_setThread {i : Instr α} {code : List (Instr α)} {next : Next α}
    (hs : S.Sound M) (h : M.Heeded) (hcode : (M.thread t).code = i :: code)
    (hstroke : S.Stroke M t i M' next) (hnext : next ≠ .park) (hi : ∀ v w, i ≠ .suspend v w)
    (s : Thread α) : (M'.setThread t s).Heeded := by
  have hshape : S.Shape (M.thread t).step t (i :: code) := hcode ▸ (hs.shaped t).code
  refine (hstroke.heeded hs h hshape hnext hi).setThread (fun v => ?_) s
  rw [stop?_congr (hstroke.threads hs.fits hshape)]
  exact stop?_ne_of_code hcode hi v

/-- **A token goes to a thread that is parked, as long as there is one.** -/
theorem Turn.heeded (hs : S.Sound M) (h : M.Heeded) (hturn : S.Turn M M') : M'.Heeded := by
  cases hturn with
  | still => exact h
  | @finish t others hready hidle =>
      refine h.of fun v hv hp => ⟨hv, hp, fun u hu hstop => ⟨?_, hstop⟩⟩
      have hut : u ≠ t := by
        intro hc
        simp [hc, stop?, hidle.1] at hstop
      rw [hready] at hu
      exact (List.mem_cons.1 hu).resolve_left hut
  | @next t others i op pending hready hcode hpending =>
      refine h.setThread (fun v => ?_) _
      simp [stop?, hcode]
  | @goOn t others i code N more hready hcode hstroke =>
      by_cases hsuspend : ∃ v w, i = .suspend v w
      · obtain ⟨v, w, rfl⟩ := hsuspend
        cases hstroke with
        | pass hn =>
            refine h.elsewhere (t := t) (s := { M.handle v with notified := false }) rfl
              (stop?_of_code hcode) rfl (fun u hu _ => hu) fun u hu => ?_
            rw [thread_setCode, if_neg (Ne.symm hu)]
            rfl
      · have hne : ∀ v w, i ≠ .suspend v w := fun v w hi => hsuspend ⟨v, w, hi⟩
        exact hstroke.heeded_setThread hs h hcode (by simp) hne _
  | @park t others i code N hready hcode hstroke =>
      have hbehind : ∀ u ∈ M.ready, u ≠ t → u ∈ M.ready.tail := by
        intro u hu hut
        rw [hready] at hu ⊢
        exact (List.mem_cons.1 hu).resolve_left hut
      cases hstroke with
      | start hb => exact absurd rfl hb.next_ne_park
      | parkRaw =>
          refine h.of fun v hv hp => ⟨hv, hp, fun u hu hstop => ⟨hbehind u hu fun hut => ?_, hstop⟩⟩
          simp [hut, stop?_of_code hcode, Instr.stop?] at hstop
      | @park v w hn =>
          exact h.elsewhere (s := { M.handle v with parked := (M.handle v).parked ++ [t] }) hn
            (stop?_of_code hcode) rfl hbehind fun _ _ => rfl
  | @unwind t others i code N message hready hcode hstroke =>
      have hne : ∀ v w, i ≠ .suspend v w := by
        intro v w hi
        subst hi
        cases hstroke
      exact hstroke.heeded_setThread hs h hcode (by simp) hne _

end Setting

/-! ### The ledger -/

/-- A moment of a run, with what was written down so far. -/
structure Account where
  /-- How many steps have begun. -/
  steps : Nat
  machine : Machine Json
  /-- The tasks that were resumed, each as often as it was. -/
  resumed : List HandleId := []
  /-- The handles on which suspensions have returned, each as often as it happened. -/
  returned : List HandleId := []

namespace Account

/-- The account after a tick. -/
def tick (x : Account) : Account where
  steps := x.steps
  machine := x.machine.tick
  resumed := x.resumed ++ x.machine.resumed
  returned := x.returned ++ x.machine.returned

/-- The account after a number of ticks. -/
def ticks : Nat → Account → Account
  | 0, x => x
  | count + 1, x => ticks count x.tick

/-- The account when a step has begun. -/
def order (x : Account) (t : ThreadId) (ops? : Option (List (Op Json))) : Account :=
  { x with steps := x.steps + 1, machine := x.machine.begin t x.steps ops? }

/-- The tokens of a handle that were used up, and the one that is left. -/
def spent (x : Account) (h : HandleId) : Nat :=
  x.returned.count h + (x.machine.handle h).notified.toNat

variable {x : Account} {h : HandleId}

theorem spent_tick : x.tick.spent h ≤ x.spent h + x.machine.resumed.count h := by
  have hcount := x.machine.count_tick h
  show (x.returned ++ x.machine.returned).count h + (x.machine.tick.handle h).notified.toNat ≤
    x.returned.count h + (x.machine.handle h).notified.toNat + x.machine.resumed.count h
  rw [List.count_append]
  omega

theorem notified_begin (M : Machine Json) (t : ThreadId) (step : Nat)
    (ops? : Option (List (Op Json))) :
    ((M.begin t step ops?).handle h).notified = (M.handle h).notified := by
  cases ops? with
  | some ops => rfl
  | none =>
      show ((M.exit t).handle h).notified = _
      rw [Machine.handle_exit]
      split
      · subst t; rfl
      · rfl

theorem spent_order (t : ThreadId) (ops? : Option (List (Op Json))) :
    (x.order t ops?).spent h = x.spent h := by
  show x.returned.count h + _ = _
  rw [order, notified_begin]
  rfl

end Account

namespace Scenario

open Machine

/-- The accounts that come after one. -/
inductive Continues (s : Scenario) (a : Account) : Account → Prop
  | refl : Continues s a a
  | tick {b} (h : Continues s a b) : Continues s a b.tick
  | order {b name order t} (h : Continues s a b) (still : b.machine.ready = [])
      (hstep : s.steps[b.steps]? = some (name, order)) (ht : b.machine.thread? name = some t)
      (idle : b.machine.status t = .idle) : Continues s a (b.order t order.ops?)
  | refuse {b name order} (h : Continues s a b) (still : b.machine.ready = [])
      (hstep : s.steps[b.steps]? = some (name, order))
      (hno : ∀ t, b.machine.thread? name = some t → b.machine.status t ≠ .idle) :
      Continues s a { b with steps := b.steps + 1 }

/-- Whether an account is one of the run. -/
def Keeps (s : Scenario) (x : Account) : Prop :=
  s.Continues ⟨0, s.start.1, [], []⟩ x

variable {s : Scenario} {a b x : Account} {k : Nat} {past : List (Entry Json)} {M : Machine Json}

theorem Continues.ticks (h : s.Continues a b) (count : Nat) : s.Continues a (b.ticks count) := by
  induction count generalizing b with
  | zero => exact h
  | succ count ih => exact ih h.tick

/-- Every state that a scenario comes to has an account. -/
theorem Reaches.kept (h : s.Reaches k past M) :
    ∃ resumed returned, s.Keeps ⟨k, M, resumed, returned⟩ := by
  induction h with
  | start => exact ⟨[], [], .refl⟩
  | tick _ ih =>
      obtain ⟨resumed, returned, h⟩ := ih
      exact ⟨_, _, h.tick⟩
  | order _ still hstep ht idle ih =>
      obtain ⟨resumed, returned, h⟩ := ih
      exact ⟨_, _, h.order still hstep ht idle⟩
  | refuse _ still hstep hno ih =>
      obtain ⟨resumed, returned, h⟩ := ih
      exact ⟨_, _, h.refuse still hstep hno⟩

/-- What comes after a state that the scenario comes to, it comes to as well. -/
theorem Continues.reaches (h : s.Continues a b) (ha : ∃ past, s.Reaches a.steps past a.machine) :
    ∃ past, s.Reaches b.steps past b.machine := by
  induction h with
  | refl => exact ha
  | tick _ ih =>
      obtain ⟨past, h⟩ := ih
      exact ⟨past, h.tick⟩
  | order _ still hstep ht idle ih =>
      obtain ⟨past, h⟩ := ih
      exact ⟨_, h.order still hstep ht idle⟩
  | refuse _ still hstep hno ih =>
      obtain ⟨past, h⟩ := ih
      exact ⟨past, h.refuse still hstep hno⟩

/-- Accounts are of states that the scenario comes to. -/
theorem Keeps.reaches (h : s.Keeps x) : ∃ past, s.Reaches x.steps past x.machine :=
  Continues.reaches h ⟨[], .start⟩

/-- Tokens that were used up, and the one that is left, were all made by resumes. -/
theorem Keeps.spent_le (h : s.Keeps x) (u : HandleId) : x.spent u ≤ x.resumed.count u := by
  induction h with
  | refl =>
      have hnone := s.start_new.fresh.notified u
      simp [Account.spent, hnone]
  | @tick b _ ih =>
      refine Nat.le_trans Account.spent_tick ?_
      show _ ≤ (b.resumed ++ b.machine.resumed).count u
      rw [List.count_append]
      omega
  | order _ _ _ _ _ ih =>
      rw [Account.spent_order]
      exact ih
  | refuse _ _ _ _ ih => exact ih

/-- A terminated handle stays so, and makes no more tokens. -/
theorem Continues.of_terminated (h : s.Continues a b) {u : HandleId}
    (hterm : (a.machine.handle u).terminated = true) :
    (b.machine.handle u).terminated = true ∧ b.spent u ≤ a.spent u := by
  induction h with
  | refl => exact ⟨hterm, Nat.le_refl _⟩
  | @tick b _ ih =>
      refine ⟨terminated_tick ih.1, Nat.le_trans Account.spent_tick ?_⟩
      rw [count_resumed_of_terminated ih.1]
      exact ih.2
  | @order b name order t _ _ _ _ _ ih =>
      refine ⟨?_, by rw [Account.spent_order]; exact ih.2⟩
      show ((b.machine.begin t b.steps order.ops?).handle u).terminated = true
      cases order.ops? with
      | some ops => exact ih.1
      | none =>
          show ((b.machine.exit t).handle u).terminated = true
          rw [handle_exit]
          split
          · rfl
          · exact ih.1
  | refuse _ _ _ _ ih => exact ih

/-- No token lies idle while a thread is parked that nobody has unparked. -/
theorem Reaches.heeded (h : s.Reaches k past M) : M.Heeded := by
  induction h with
  | start =>
      intro u hn
      rw [s.start_new.fresh.notified u] at hn
      simp at hn
  | tick h ih => exact h.sound.turn.heeded h.sound ih
  | @order k past M name order t h still hstep ht idle ih =>
      intro u hn hparked
      have hparked' : (M.handle u).parked ≠ [] := by
        cases hops : order.ops? with
        | some ops =>
            rw [hops] at hparked
            exact hparked
        | none =>
            rw [hops] at hparked
            have hexit : ((M.exit t).handle u).parked ≠ [] := hparked
            rw [handle_exit] at hexit
            split at hexit
            · subst u; exact hexit
            · exact hexit
      rw [Account.notified_begin] at hn
      obtain ⟨v, hv, -⟩ := ih u hn hparked'
      simp [still] at hv
  | refuse _ _ _ _ ih => exact ih

/-- **Tokens neither lose wakes nor invent them.**  When a step is over, no thread is parked on a
handle that has a token, or stands at a suspension on it.  At every moment the suspensions on a
handle that have returned, and one more if it has a token, are at most the resumes of it.  After it
has terminated at most one more returns, and only if it had a token then. -/
theorem tokens_conserved (s : Scenario) :
    (∀ k past M, s.Reaches k past M → M.ready = [] → ∀ h, (M.handle h).notified = true →
      (M.handle h).parked = [] ∧ ∀ u w code, (M.thread u).code ≠ .suspend h w :: code) ∧
    (∀ k M, (∃ past, s.Reaches k past M) ↔
      ∃ resumed returned, s.Keeps ⟨k, M, resumed, returned⟩) ∧
    (∀ x, s.Keeps x → ∀ h,
      x.returned.count h + (x.machine.handle h).notified.toNat ≤ x.resumed.count h) ∧
    ∀ a b, s.Keeps a → s.Continues a b → ∀ h, (a.machine.handle h).terminated = true →
      b.returned.count h ≤ a.returned.count h + (a.machine.handle h).notified.toNat := by
  refine ⟨?_, fun k M => ⟨fun ⟨_, h⟩ => h.kept, fun ⟨_, _, h⟩ => h.reaches⟩,
    fun x h => h.spent_le, ?_⟩
  · intro k past M h still v hn
    have hparked : (M.handle v).parked = [] := by
      by_cases hp : (M.handle v).parked = []
      · exact hp
      · obtain ⟨u, hu, -⟩ := h.heeded v hn hp
        simp [still] at hu
    refine ⟨hparked, fun u w code hcode => ?_⟩
    -- A thread that stands at a suspension when no thread is ready is parked there.
    rcases h.sound.orderly.of_not_ready u (by simp [still]) with hidle | ⟨stop, hstop, hmem⟩
    · simp [hidle.1] at hcode
    · rw [stop?_of_code hcode] at hstop
      obtain rfl := Option.some.inj hstop
      have hmem' : u ∈ (M.handle v).parked := hmem
      simp [hparked] at hmem'
  · intro a b _ hcont v hterm
    have hspent : b.spent v ≤ a.spent v := (hcont.of_terminated hterm).2
    unfold Account.spent at hspent
    omega

/-- Two threads suspend on one handle, which is resumed, terminated, and resumed in vain; later a
thread that waits elsewhere gets a token of its own. -/
def expired : Scenario where
  tasks := ["a", "b", "c"]
  objects := [("d", .task)]
  steps := [("a", .run [.onTask "d" .suspend]), ("b", .run [.onTask "d" .suspend]),
    ("c", .run [.onTask "d" .resume, .onTask "d" .terminate, .onTask "d" .resume,
      .onTask "b" .resume])]

/-- The account of that run when the handle has just been terminated. -/
def expiring : Account :=
  let x : Account := ⟨0, expired.start.1, [], []⟩
  (((((x.order 0 (some [.onTask "d" .suspend])).ticks 4).order 1
    (some [.onTask "d" .suspend])).ticks 4).order 2
      (some [.onTask "d" .resume, .onTask "d" .terminate, .onTask "d" .resume,
        .onTask "b" .resume])).ticks 5

theorem expired_keeps : expired.Keeps expiring := by
  have blank : expired.Keeps ⟨0, expired.start.1, [], []⟩ := .refl
  have first := (blank.order (t := 0) (by decide) rfl (by decide) (by rfl)).ticks 4
  have second := (first.order (t := 1) (by decide) rfl (by decide) (by rfl)).ticks 4
  exact (second.order (t := 2) (by decide) rfl (by decide) (by rfl)).ticks 5

theorem tokens_conserved_expired :
    (expiring.ticks 11).returned.count 3 = 1 ∧
      (expiring.ticks 11).returned.count 3 ≤
        expiring.returned.count 3 + (expiring.machine.handle 3).notified.toNat ∧
      (expiring.ticks 11).returned.count 3 +
          ((expiring.ticks 11).machine.handle 3).notified.toNat ≤
        (expiring.ticks 11).resumed.count 3 ∧
      ((expiring.ticks 11).machine.handle 1).notified = true ∧
      ((expiring.ticks 11).machine.handle 1).parked = [] := by
  obtain ⟨hidle, -, hspent, hterm⟩ := tokens_conserved expired
  have hover : expired.Keeps (expiring.ticks 11) := expired_keeps.ticks 11
  have hlater : expired.Continues expiring (expiring.ticks 11) := Continues.refl.ticks 11
  obtain ⟨past, hreaches⟩ := hover.reaches
  have hparked := hidle _ past _ hreaches (by decide) 1 (by decide)
  exact ⟨by decide, hterm _ _ expired_keeps hlater 3 (by decide), hspent _ hover 3, by decide,
    hparked.1⟩

end Scenario

end BlockingSync
