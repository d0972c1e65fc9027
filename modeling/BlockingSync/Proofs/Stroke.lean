/-
What one instruction does.

`Stroke` has a case for everything that an instruction can do, and `Turn` one for
everything that a tick can do; all invariants are carried over these cases.  Inside the
mutex of a queue a transaction either waits, which lets go of the mutex and puts the
thread on the list of its side, or comes to its result at once (`Transacts`).
-/
import BlockingSync.Proofs.Beginning
import BlockingSync.Proofs.Orderly

namespace BlockingSync

variable {α : Type}

/-- The operations behind a transaction. -/
def Transaction.verbs : Transaction α → List (Verb α)
  | .add v => [.push v]
  | .take => [.pop, .shift, .popWith false]
  | .tryTake => [.popWith true]
  | .clear => [.clear]
  | .resize bound => [.setCapacity bound]
  | .isEmpty => [.isEmpty]
  | .length => [.length, .size]
  | .numWaiting => [.numWaiting]
  | .capacity => [.capacity]
  | .values => [.values]

namespace Setting

variable (S : Setting α)

/-- Whether a transaction cannot go on. -/
def MustWait (s : Queue α) : Side → Prop
  | .take => s.values.toList = []
  | .add => s.isFull = true

/-- What a transaction that comes to its result does. -/
inductive Transacts (M : Machine α) (q : QueueId) : Transaction α → Machine α → Result α → Prop
  /-- The values are only looked at. -/
  | ask {tr r} (hside : tr.side? = none) (hkeep : tr ≠ .clear)
      (hr : ∀ verb, Machine.transaction? verb = some tr →
        verb.Agrees r (M.queue q).values.toList ∧ ∀ vs, verb.effect r vs = vs) :
      Transacts M q tr M r
  | add {v} (space : (M.queue q).isFull = false) :
      Transacts M q (.add v)
        ((M.setQueue q { M.queue q with values := (M.queue q).values.push v }).wakeOne
          (.condition (M.queue q).valueAvailable)).1 .done
  /-- A value is taken, and there is no space even so. -/
  | take {tr v rest} (htr : tr = .take ∨ tr = .tryTake)
      (hv : (M.queue q).values.toList = v :: rest.toList)
      (space : { M.queue q with values := rest }.hasSpace = false) :
      Transacts M q tr (M.setQueue q { M.queue q with values := rest }) (.taken v)
  | takeWaking {tr v rest} (htr : tr = .take ∨ tr = .tryTake)
      (hv : (M.queue q).values.toList = v :: rest.toList)
      (space : { M.queue q with values := rest }.hasSpace = true) :
      Transacts M q tr
        ((M.setQueue q { M.queue q with values := rest }).wakeOne
          (.condition (M.queue q).spaceAvailable)).1 (.taken v)
  | clear :
      Transacts M q .clear
        ((M.setQueue q { M.queue q with values := (M.queue q).values.clear }).wakeOne
          (.condition (M.queue q).spaceAvailable)).1 .done
  | resize {capacity} :
      Transacts M q (.resize capacity)
        (((M.setQueue q { M.queue q with capacity }).note
          (.resized capacity ((M.queue q).addedSlots capacity))).wakeMany
            (.condition (M.queue q).spaceAvailable) ((M.queue q).addedSlots capacity)) .ok

/-- What an instruction of the thread that runs can do. -/
inductive Stroke (M : Machine α) (t : ThreadId) : Instr α → Machine α → Next α → Prop
  | start {path op M' next} (h : S.Begins M t (M.thread t).step path op M' next) :
      Stroke M t (.start path op) M' next
  | claim {m} (ho : (M.mutex m).owner = none) :
      Stroke M t (.lock m) (M.setOwner m (some t)) (.goOn [])
  | queueUp {m o} (ho : (M.mutex m).owner = some o) :
      Stroke M t (.lock m) (M.enqueue (.mutex m) t) (.goOn [.suspend t (some (.mutex m)), .lock m])
  | unlock {m o} (ho : (M.mutex m).owner = some o) : Stroke M t (.unlock m) (M.free m) (.goOn [])
  | unlockFree {m} (ho : (M.mutex m).owner = none) : Stroke M t (.unlock m) M (.goOn [])
  | closeGuard {m path b} :
      Stroke M t (.closeGuard m path) M (.goOn [.unlock m, .report path (.guarded true b)])
  | seize {r M'} (h : Machine.Changes (· = .raw r) t M M') : Stroke M t (.seize r) M' (.goOn [])
  | parkRaw {r} :
      Stroke M t (.seize r)
        (M.setRawLock r { M.rawLock r with parked := (M.rawLock r).parked ++ [t] }) .park
  | pass {h w} (hn : (M.handle h).notified = true) :
      Stroke M t (.suspend h w) (M.setHandle h { M.handle h with notified := false }) (.goOn [])
  | park {h w} (hn : (M.handle h).notified = false) :
      Stroke M t (.suspend h w)
        (M.setHandle h { M.handle h with parked := (M.handle h).parked ++ [t] }) .park
  | report {path r} :
      Stroke M t (.report path r) (M.note (.finished t (M.thread t).step path r)) (.goOn [])
  | wait {q path tr side} (hside : tr.side? = some side) (hwait : MustWait (M.queue q) side)
      (ho : (M.mutex (S.mutex q)).owner = some t) :
      Stroke M t (.transact q path tr) (M.leave (S.condition q side) (S.mutex q) t)
        (.goOn [.suspend t (some (.condition (S.condition q side))), .lock (S.mutex q),
          .transact q path tr])
  | transact {q path tr M' r} (h : Transacts M q tr M' r) :
      Stroke M t (.transact q path tr) M' (.goOn [.unlock (S.mutex q), .report path r])

end Setting

namespace Machine

open Setting

variable {S : Setting α} {M : Machine α} {t : ThreadId}

/-! ### Transactions -/

/-- The operations that have a transaction behind them are told by it. -/
theorem mem_verbs {verb : Verb α} {tr : Transaction α} (h : transaction? verb = some tr) :
    verb ∈ tr.verbs := by
  cases verb with
  | popWith nonBlocking => cases nonBlocking <;> cases h <;> simp [Transaction.verbs]
  | _ => cases h <;> simp [Transaction.verbs]

theorem waitHeld_eq {s : Queue α} (ho : (M.mutex s.mutex).owner = some t) (c : ConditionId)
    (again : Instr α) :
    M.waitHeld t s c again =
      (M.leave c s.mutex t, .goOn [.suspend t (some (.condition c)), .lock s.mutex, again]) := by
  simp only [waitHeld, departNative, ho, if_true]
  rfl

theorem transact_stroke (hfits : M.Fits S) {q : QueueId} (hq : q < S.queues)
    (ho : (M.mutex (S.mutex q)).owner = some t) (path : Path) (tr : Transaction α) :
    S.Stroke M t (.transact q path tr) (M.transact t q path tr).1 (M.transact t q path tr).2 := by
  have hmutex : (M.queue q).mutex = S.mutex q := hfits.mutex q hq
  have ho' : (M.mutex (M.queue q).mutex).owner = some t := by rw [hmutex, ho]
  have done : ∀ M' r, Transacts M q tr M' r →
      S.Stroke M t (.transact q path tr) M'
        (.goOn [.unlock (M.queue q).mutex, .report path r]) := by
    intro M' r h
    rw [hmutex]
    exact .transact h
  have wait : ∀ side, tr.side? = some side → MustWait (M.queue q) side →
      S.Stroke M t (.transact q path tr)
        (M.waitHeld t (M.queue q) ((M.queue q).condition side) (.transact q path tr)).1
        (M.waitHeld t (M.queue q) ((M.queue q).condition side) (.transact q path tr)).2 := by
    intro side hside hwait
    rw [waitHeld_eq ho', hmutex, hfits.condition q hq]
    exact .wait hside hwait ho
  -- What a taking transaction does once there is a value.
  have taken : ∀ v rest, (M.queue q).values.shift? = some (v, rest) → (tr = .take ∨ tr = .tryTake) →
      S.Stroke M t (.transact q path tr) (M.takeValue t q path).1 (M.takeValue t q path).2 := by
    intro v rest hs htr
    have hv := WaitList.toList_of_shift? hs
    unfold takeValue
    simp only [hs]
    split
    · rename_i space
      exact done _ _ (.takeWaking htr hv space)
    · rename_i space
      exact done _ _ (.take htr hv (by simpa using space))
  cases tr with
  | add v =>
      simp only [transact, addValue]
      split
      · rename_i full
        exact wait .add rfl full
      · rename_i full
        exact done _ _ (.add (by simpa using full))
  | take =>
      simp only [transact]
      cases hs : (M.queue q).values.shift? with
      | none =>
          simp only [takeValue, hs]
          exact wait .take rfl ((WaitList.shift?_eq_none_iff _).1 hs)
      | some entry => exact taken entry.1 entry.2 hs (.inl rfl)
  | tryTake =>
      simp only [transact]
      split
      · rename_i empty
        have hnil := (WaitList.isEmpty_iff _).1 empty
        refine done _ _ (.ask rfl (by simp) fun verb hverb => ?_)
        obtain rfl := List.mem_singleton.1 (mem_verbs hverb)
        exact ⟨⟨rfl, rfl, hnil⟩, fun _ => rfl⟩
      · rename_i nonempty
        cases hs : (M.queue q).values.shift? with
        | none =>
            have hnil := (WaitList.shift?_eq_none_iff _).1 hs
            exact absurd ((WaitList.isEmpty_iff _).2 hnil) nonempty
        | some entry => exact taken entry.1 entry.2 hs (.inr rfl)
  | clear => exact done _ _ .clear
  | resize capacity => exact done _ _ .resize
  | isEmpty =>
      refine done _ _ (.ask rfl (by simp) fun verb hverb => ?_)
      obtain rfl := List.mem_singleton.1 (mem_verbs hverb)
      refine ⟨?_, fun _ => rfl⟩
      show (M.queue q).values.isEmpty = (M.queue q).values.toList.isEmpty
      rw [Bool.eq_iff_iff, WaitList.isEmpty_iff, List.isEmpty_iff]
  | length =>
      refine done _ _ (.ask rfl (by simp) fun verb hverb => ?_)
      have hmem : verb = .length ∨ verb = .size := by
        simpa [Transaction.verbs] using mem_verbs hverb
      rcases hmem with rfl | rfl <;>
        exact ⟨(WaitList.length_toList _).symm, fun _ => rfl⟩
  | numWaiting =>
      refine done _ _ (.ask rfl (by simp) fun verb hverb => ?_)
      obtain rfl := List.mem_singleton.1 (mem_verbs hverb)
      exact ⟨trivial, fun _ => rfl⟩
  | capacity =>
      refine done _ _ (.ask rfl (by simp) fun verb hverb => ?_)
      obtain rfl := List.mem_singleton.1 (mem_verbs hverb)
      exact ⟨trivial, fun _ => rfl⟩
  | values =>
      refine done _ _ (.ask rfl (by simp) fun verb hverb => ?_)
      obtain rfl := List.mem_singleton.1 (mem_verbs hverb)
      exact ⟨rfl, fun _ => rfl⟩

/-! ### All instructions -/

/-- Whatever an instruction does is told by `Stroke`. -/
theorem execute_stroke (hfits : M.Fits S) {i : Instr α} {code : List (Instr α)}
    (hshape : S.Shape (M.thread t).step t (i :: code))
    (ho : ∀ q path tr, i = .transact q path tr → (M.mutex (S.mutex q)).owner = some t) :
    S.Stroke M t i (M.execute t i).1 (M.execute t i).2 := by
  cases i with
  | start path op => exact .start (perform_begins hfits hshape.trails_of_start.1)
  | lock m =>
      cases hm : (M.mutex m).owner with
      | none =>
          have heq : M.execute t (.lock m) = (M.setOwner m (some t), .goOn []) := by
            simp only [execute, tryLock, hm]
          rw [heq]
          exact .claim hm
      | some o =>
          have heq : M.execute t (.lock m) =
              (M.enqueue (.mutex m) t, .goOn [.suspend t (some (.mutex m)), .lock m]) := by
            simp only [execute, tryLock, hm]
          rw [heq]
          exact .queueUp hm
  | unlock m =>
      cases hm : (M.mutex m).owner with
      | none =>
          have heq : (M.execute t (.unlock m)).1 = M := releaseWith_of_free hm none false
          rw [heq]
          exact .unlockFree hm
      | some o =>
          have heq : (M.execute t (.unlock m)).1 = M.free m := by
            show (M.releaseWith m (.ofPanic none) false).1 = M.free m
            rw [releaseWith_of_owned hm]
          rw [heq]
          exact .unlock hm
  | closeGuard m path => exact .closeGuard
  | seize r =>
      cases hr : (M.rawLock r).locked with
      | false =>
          have heq : M.execute t (.seize r) = ((M.trySeize r t).1, .goOn []) := by
            simp [execute, trySeize, hr]
          rw [heq]
          exact .seize (trySeize_changes t M r)
      | true =>
          have heq : M.execute t (.seize r) = (M.setRawLock r
              { M.rawLock r with parked := (M.rawLock r).parked ++ [t] }, .park) := by
            simp [execute, trySeize, hr]
          rw [heq]
          exact .parkRaw
  | suspend h w =>
      unfold execute
      simp only
      split
      · rename_i hn; exact .pass hn
      · rename_i hn; exact .park (by simpa using hn)
  | transact q path tr =>
      exact transact_stroke hfits hshape.of_transact.1.lt (ho q path tr rfl) path tr
  | report path r => exact .report

end Machine

/-! ### Ticks -/

namespace Setting

variable (S : Setting α)

/-- What a tick can do. -/
inductive Turn (M : Machine α) : Machine α → Prop
  | still (hready : M.ready = []) : Turn M M
  | finish {t others} (hready : M.ready = t :: others) (hidle : M.IsIdle t) :
      Turn M { M with ready := others }
  | next {t others i op pending} (hready : M.ready = t :: others) (hcode : (M.thread t).code = [])
      (hpending : (M.thread t).pending = (i, op) :: pending) :
      Turn M (M.setThread t { M.thread t with code := [.start [i] op], pending, top := i })
  | goOn {t others i code M' more} (hready : M.ready = t :: others)
      (hcode : (M.thread t).code = i :: code) (h : S.Stroke M t i M' (.goOn more)) :
      Turn M (M'.setCode t (more ++ code))
  | park {t others i code M'} (hready : M.ready = t :: others)
      (hcode : (M.thread t).code = i :: code) (h : S.Stroke M t i M' .park) :
      Turn M { M' with ready := M'.ready.tail }
  | unwind {t others i code M' message} (hready : M.ready = t :: others)
      (hcode : (M.thread t).code = i :: code) (h : S.Stroke M t i M' (.unwind message)) :
      Turn M (M'.setCode t
        (Machine.cleanup code ++ [.report [(M.thread t).top] (.panicked message)]))

/-- A tick of a thread that has an instruction to do. -/
theorem Turn.of_code {S : Setting α} {M M' : Machine α} {t : ThreadId} {others : List ThreadId}
    {i : Instr α} {code : List (Instr α)} (h : S.Turn M M') (hready : M.ready = t :: others)
    (hcode : (M.thread t).code = i :: code) :
    (∃ N more, S.Stroke M t i N (.goOn more) ∧ M' = N.setCode t (more ++ code)) ∨
      (∃ N, S.Stroke M t i N .park ∧ M' = { N with ready := N.ready.tail }) ∨
      ∃ N message, S.Stroke M t i N (.unwind message) ∧ M' = N.setCode t
        (Machine.cleanup code ++ [.report [(M.thread t).top] (.panicked message)]) := by
  have same : ∀ {t' others'}, M.ready = t' :: others' → t' = t := fun hr =>
    (List.cons.inj (hr.symm.trans hready)).1
  cases h with
  | still hr => simp [hr] at hready
  | finish hr hidle =>
      obtain rfl := same hr
      simp [hidle.1] at hcode
  | next hr hnil =>
      obtain rfl := same hr
      simp [hnil] at hcode
  | goOn hr hcode' hstroke =>
      obtain rfl := same hr
      obtain ⟨rfl, rfl⟩ := List.cons.inj (hcode'.symm.trans hcode)
      exact .inl ⟨_, _, hstroke, rfl⟩
  | park hr hcode' hstroke =>
      obtain rfl := same hr
      obtain ⟨rfl, rfl⟩ := List.cons.inj (hcode'.symm.trans hcode)
      exact .inr (.inl ⟨_, hstroke, rfl⟩)
  | unwind hr hcode' hstroke =>
      obtain rfl := same hr
      obtain ⟨rfl, rfl⟩ := List.cons.inj (hcode'.symm.trans hcode)
      exact .inr (.inr ⟨_, _, hstroke, rfl⟩)

end Setting

/-- Whatever a tick does is told by `Turn`, provided a thread inside a transaction holds the mutex
of the queue. -/
theorem Machine.tick_turn {S : Setting α} {M : Machine α} (hfits : M.Fits S) (hshaped : S.Shaped M)
    (ho : ∀ t others q path tr code, M.ready = t :: others →
      (M.thread t).code = .transact q path tr :: code → (M.mutex (S.mutex q)).owner = some t) :
    S.Turn M M.tick := by
  unfold tick
  split
  · rename_i hready; exact .still hready
  · rename_i t others hready
    simp only
    split
    · rename_i hcode hpending; exact .finish hready ⟨hcode, hpending⟩
    · rename_i i op pending hcode hpending; exact .next hready hcode hpending
    · rename_i i code hcode
      have hstroke : S.Stroke M t i (M.execute t i).1 (M.execute t i).2 := by
        refine execute_stroke hfits (hcode ▸ (hshaped t).code) ?_
        rintro q path tr rfl
        exact ho t others q path tr code hready hcode
      split <;> rename_i he <;> rw [he] at hstroke
      · exact .goOn hready hcode hstroke
      · exact .park hready hcode hstroke
      · exact .unwind hready hcode hstroke

end BlockingSync
