/-
Wakes one by one and wakes all at once.

To dispatch waiters is to take them out one after the other and to resume each of them, or to
leave a line about it.  A wake dispatches the waiters up to the first that can be resumed
(`wakeOne_eq_dispatch`), and several wakes dispatch those up to the last that they resume
(`wakeTimes_eq_dispatch`).  To take all waiters out first and to resume them afterwards comes to
the same as to dispatch them, also when some of them have been dispatched before
(`wakeAll_dispatch`).  So all that is to be said of wakes is said of dispatching
(`dispatched`), by induction on how many waiters are dispatched.
-/
import BlockingSync.Proofs.Resumes

namespace BlockingSync

variable {α : Type}

/-- The threads that become ready when handles are resumed in order, one per handle at most. -/
def unparkAll : Table Handle → List HandleId → List ThreadId
  | _, [] => []
  | handles, h :: hs => (handles.get h).parked.take 1 ++ unparkAll (rouse handles h) hs

namespace Machine

variable {M M' M'' : Machine α} {p : Place} {h : HandleId} {hs : List HandleId}
  {rest : WaitList HandleId}

/-! ### Dispatching -/

/-- Takes the earliest waiters out one by one, at most `count` of them, and resumes each before
the next is taken out; yields how many of them could be resumed. -/
def dispatch (M : Machine α) (p : Place) : Nat → Machine α × Nat
  | 0 => (M, 0)
  | count + 1 =>
    match (M.waiters p).shift? with
    | none => (M, 0)
    | some (h, rest) =>
      let (M, resumed) := (M.setWaiters p rest).tryResume h
      let (M, others) := M.dispatch p count
      (M, if resumed then others + 1 else others)

theorem dispatch_of_shift? (hs : (M.waiters p).shift? = some (h, rest)) (count : Nat) :
    M.dispatch p (count + 1) =
      ((((M.setWaiters p rest).tryResume h).1.dispatch p count).1,
        (((M.setWaiters p rest).tryResume h).1.dispatch p count).2 +
          (M.live [h]).length) := by
  simp only [dispatch, hs]
  cases live : M.isResumable h with
  | true =>
      rw [tryResume_of_resumable (by simpa using live), Machine.live, List.filter_cons_of_pos live]
      rfl
  | false =>
      rw [tryResume_of_not_resumable (by simpa using live), Machine.live,
        List.filter_cons_of_neg (by simp [live])]
      rfl

theorem dispatch_of_nobody (hnil : (M.waiters p).shift? = none) (count : Nat) :
    M.dispatch p count = (M, 0) := by
  cases count with
  | zero => rfl
  | succ count => simp only [dispatch, hnil]

theorem dispatch_add (p : Place) (first count : Nat) (M : Machine α) :
    (M.dispatch p (first + count)).1 = ((M.dispatch p first).1.dispatch p count).1 := by
  induction first generalizing M with
  | zero => rw [Nat.zero_add]; rfl
  | succ first ih =>
      rw [Nat.add_right_comm]
      cases hs : (M.waiters p).shift? with
      | none => rw [dispatch_of_nobody hs, dispatch_of_nobody hs, dispatch_of_nobody hs]
      | some entry =>
          obtain ⟨h, rest⟩ := entry
          rw [dispatch_of_shift? hs, dispatch_of_shift? hs]
          exact ih _

/-- What is done to each part of the state when some waiters of a place are taken out and resumed
in order, and others are left. -/
structure Dispatched (p : Place) (M : Machine α) (taken left : List HandleId) (M' : Machine α) :
    Prop where
  waiters : (M'.waiters p).toList = left
  elsewhere : ∀ p', p' ≠ p → M'.waiters p' = M.waiters p'
  owner : ∀ m, (M'.mutex m).owner = (M.mutex m).owner
  handles : M'.handles = rouseAll M.handles (M.live taken)
  ready : M'.ready = M.ready ++ unparkAll M.handles (M.live taken)
  log : M'.log = M.log ++ (taken.filter fun h => !M.isResumable h).map .skipped
  threads : M'.threads = M.threads
  queues : M'.queues = M.queues
  rawLocks : M'.rawLocks = M.rawLocks
  taskLists : M'.taskLists = M.taskLists
  names : M'.names = M.names
  handleNames : M'.handleNames = M.handleNames

/-! ### What is done to each part of the state -/

namespace Dispatched

variable {taken left : List HandleId}

theorem none : Dispatched p M [] (M.waiters p).toList M where
  waiters := rfl
  elsewhere _ _ := rfl
  owner _ := rfl
  handles := rfl
  ready := by simp [live, unparkAll]
  log := by simp
  threads := rfl
  queues := rfl
  rawLocks := rfl
  taskLists := rfl
  names := rfl
  handleNames := rfl

/-- A waiter that is resumed before the others. -/
theorem found (hlive : M.isResumable h = true)
    (hd : Dispatched p ((M.setWaiters p rest).roused h) taken left M') :
    Dispatched p M (h :: taken) left M' := by
  have hsame : ((M.setWaiters p rest).roused h).isResumable = M.isResumable := by
    funext u
    rw [isResumable_roused, isResumable_setWaiters]
  have hhandles : ((M.setWaiters p rest).roused h).handles = rouse M.handles h := by
    simp [roused, rouse, handle]
  have hcons : M.live (h :: taken) = h :: M.live taken := List.filter_cons_of_pos hlive
  exact
    { waiters := hd.waiters
      elsewhere := fun p' hp => by
        rw [hd.elsewhere p' hp, waiters_roused, waiters_setWaiters, if_neg (Ne.symm hp)]
      owner := fun m => (hd.owner m).trans (owner_setWaiters p rest m)
      handles := by
        rw [hd.handles, hhandles, live_congr hsame, hcons]
        rfl
      ready := by
        have hready : ((M.setWaiters p rest).roused h).ready =
            M.ready ++ (M.handles.get h).parked.take 1 := by
          simp [roused, handle]
        rw [hd.ready, hready, hhandles, live_congr hsame, hcons, List.append_assoc]
        rfl
      log := by
        rw [hd.log, hsame, List.filter_cons_of_neg (by simp [hlive])]
        exact congrArg (· ++ _) (log_setWaiters p rest)
      threads := hd.threads.trans (threads_setWaiters p rest)
      queues := hd.queues.trans (queues_setWaiters p rest)
      rawLocks := hd.rawLocks.trans (rawLocks_setWaiters p rest)
      taskLists := hd.taskLists.trans (taskLists_setWaiters p rest)
      names := hd.names.trans (names_setWaiters p rest)
      handleNames := hd.handleNames.trans (handleNames_setWaiters p rest) }

/-- A waiter before the others that cannot be resumed. -/
theorem passed (dead : M.isResumable h = false)
    (hd : Dispatched p ((M.setWaiters p rest).note (.skipped h)) taken left M') :
    Dispatched p M (h :: taken) left M' := by
  have hsame := isResumable_passed (M := M) p rest h
  have hcons : M.live (h :: taken) = M.live taken := List.filter_cons_of_neg (by simp [dead])
  have hhandles : ((M.setWaiters p rest).note (.skipped h)).handles = M.handles :=
    handles_setWaiters p rest
  exact
    { waiters := hd.waiters
      elsewhere := fun p' hp => by
        rw [hd.elsewhere p' hp, waiters_note, waiters_setWaiters, if_neg (Ne.symm hp)]
      owner := fun m => (hd.owner m).trans (owner_setWaiters p rest m)
      handles := by rw [hd.handles, hhandles, live_congr hsame, hcons]
      ready := by
        rw [hd.ready, hhandles, live_congr hsame, hcons]
        exact congrArg (· ++ _) (ready_setWaiters p rest)
      log := by
        rw [hd.log, hsame, List.filter_cons_of_pos (by simp [dead])]
        simp [Machine.note]
      threads := hd.threads.trans (threads_setWaiters p rest)
      queues := hd.queues.trans (queues_setWaiters p rest)
      rawLocks := hd.rawLocks.trans (rawLocks_setWaiters p rest)
      taskLists := hd.taskLists.trans (taskLists_setWaiters p rest)
      names := hd.names.trans (names_setWaiters p rest)
      handleNames := hd.handleNames.trans (handleNames_setWaiters p rest) }

/-- The list of the waiters that are left may be stored anew. -/
theorem relist (hd : Dispatched p M taken left M') {l : WaitList HandleId} (hl : l.toList = left) :
    Dispatched p M taken left (M'.setWaiters p l) where
  waiters := by rw [waiters_setWaiters_self, hl]
  elsewhere p' hp := by rw [waiters_setWaiters, if_neg (Ne.symm hp), hd.elsewhere p' hp]
  owner m := (owner_setWaiters p l m).trans (hd.owner m)
  handles := (handles_setWaiters p l).trans hd.handles
  ready := (ready_setWaiters p l).trans hd.ready
  log := (log_setWaiters p l).trans hd.log
  threads := (threads_setWaiters p l).trans hd.threads
  queues := (queues_setWaiters p l).trans hd.queues
  rawLocks := (rawLocks_setWaiters p l).trans hd.rawLocks
  taskLists := (taskLists_setWaiters p l).trans hd.taskLists
  names := (names_setWaiters p l).trans hd.names
  handleNames := (handleNames_setWaiters p l).trans hd.handleNames

end Dispatched

theorem waiters_tryResume (h : HandleId) (p : Place) :
    (M.tryResume h).1.waiters p = M.waiters p := by
  cases live : M.isResumable h with
  | true => rw [tryResume_of_resumable live, waiters_roused]
  | false => rw [tryResume_of_not_resumable live, waiters_note]

theorem length_live_cons (M : Machine α) (h : HandleId) (hs : List HandleId) :
    (M.live (h :: hs)).length = (M.live hs).length + (M.live [h]).length := by
  cases live : M.isResumable h <;> simp [Machine.live, live]

/-- Dispatching waiters resumes them in order. -/
theorem dispatched (M : Machine α) (p : Place) (count : Nat) :
    Dispatched p M ((M.waiters p).toList.take count) ((M.waiters p).toList.drop count)
        (M.dispatch p count).1 ∧
      (M.dispatch p count).2 = (M.live ((M.waiters p).toList.take count)).length := by
  induction count generalizing M with
  | zero => exact ⟨.none, rfl⟩
  | succ count ih =>
      cases hs : (M.waiters p).shift? with
      | none =>
          have hnil := (WaitList.shift?_eq_none_iff _).1 hs
          have hnone : Dispatched p M [] (M.waiters p).toList M := .none
          rw [hnil] at hnone
          rw [dispatch_of_nobody hs, hnil, List.take_nil, List.drop_nil]
          exact ⟨hnone, rfl⟩
      | some entry =>
          obtain ⟨h, rest⟩ := entry
          have hsame : ((M.setWaiters p rest).tryResume h).1.isResumable = M.isResumable := by
            funext u
            rw [isResumable_tryResume, isResumable_setWaiters]
          obtain ⟨hd, hcount⟩ := ih ((M.setWaiters p rest).tryResume h).1
          rw [waiters_tryResume, waiters_setWaiters_self] at hd hcount
          rw [dispatch_of_shift? hs, WaitList.toList_of_shift? hs, List.take_succ_cons,
            List.drop_succ_cons]
          rw [live_congr hsame] at hcount
          refine ⟨?_, ?_⟩
          · cases live : M.isResumable h with
            | true =>
                rw [tryResume_of_resumable (by simpa using live)] at hd ⊢
                exact hd.found live
            | false =>
                rw [tryResume_of_not_resumable (by simpa using live)] at hd ⊢
                exact hd.passed live
          · exact (congrArg (· + _) hcount).trans (length_live_cons ..).symm

/-! ### Wake after wake -/

/-- How many waiters so many wakes take out: those up to the last that they resume, or all. -/
def consumed (M : Machine α) : Nat → List HandleId → Nat
  | 0, _ => 0
  | _ + 1, [] => 0
  | count + 1, h :: hs =>
    (if M.isResumable h then M.consumed count hs else M.consumed (count + 1) hs) + 1

@[simp] theorem consumed_zero (M : Machine α) (hs : List HandleId) : M.consumed 0 hs = 0 := by
  cases hs <;> rfl

theorem consumed_congr {N : Machine α} (hlive : N.isResumable = M.isResumable) (count : Nat)
    (hs : List HandleId) : N.consumed count hs = M.consumed count hs := by
  induction hs generalizing count with
  | nil => cases count <;> rfl
  | cons h hs ih =>
      cases count with
      | zero => rfl
      | succ count => rw [consumed, consumed, hlive, ih, ih]

/-- Those that are taken out by wakes have been resumed by them, as far as they can be. -/
theorem live_take_consumed (M : Machine α) (count : Nat) (hs : List HandleId) :
    M.live (hs.take (M.consumed count hs)) = (M.live hs).take count := by
  induction hs generalizing count with
  | nil => simp [Machine.live]
  | cons h hs ih =>
      cases count with
      | zero => simp [consumed, Machine.live]
      | succ count =>
          unfold Machine.live at ih ⊢
          cases live : M.isResumable h with
          | true => simp [consumed, live, ih]
          | false => simp [consumed, live, ih]

/-- Wakes go on where the first of them has left off. -/
theorem consumed_succ (M : Machine α) (count : Nat) (hs : List HandleId) :
    M.consumed (count + 1) hs =
      M.consumed 1 hs + M.consumed count (hs.drop (M.consumed 1 hs)) := by
  induction hs with
  | nil => cases count <;> rfl
  | cons h hs ih =>
      cases live : M.isResumable h with
      | true => simp [consumed, live, Nat.add_comm]
      | false =>
          simp only [consumed, live, Bool.false_eq_true, if_false, List.drop_succ_cons,
            Nat.zero_add]
          omega

/-- What a wake does, without a bound on how far it may go. -/
theorem wakeOne_of_shift? (hs : (M.waiters p).shift? = some (h, rest)) :
    M.wakeOne p = if M.isResumable h then ((M.setWaiters p rest).roused h, some h)
      else ((M.setWaiters p rest).note (.skipped h)).wakeOne p := by
  rw [wakeOne, WaitList.length_of_shift? hs, wakeOneOf, hs]
  simp only
  cases live : M.isResumable h with
  | true =>
      rw [tryResume_of_resumable (by simpa using live)]
      rfl
  | false =>
      rw [tryResume_of_not_resumable (by simpa using live)]
      simp only [wakeOne, waiters_note, waiters_setWaiters_self]
      rfl

theorem wakeOne_of_shift?_none (hs : (M.waiters p).shift? = none) : M.wakeOne p = (M, none) := by
  unfold wakeOne
  cases (M.waiters p).length with
  | zero => rfl
  | succ count => rw [wakeOneOf, hs]

/-- A wake dispatches the waiters up to the first that can be resumed. -/
theorem wakeOne_eq_dispatch (M : Machine α) (p : Place) :
    (M.wakeOne p).1 = (M.dispatch p (M.consumed 1 (M.waiters p).toList)).1 := by
  generalize hl : (M.waiters p).toList = hs
  induction hs generalizing M with
  | nil =>
      have hs := (WaitList.shift?_eq_none_iff _).2 hl
      rw [wakeOne_of_shift?_none hs, dispatch_of_nobody hs]
  | cons h hs ih =>
      obtain ⟨rest, hshift, rfl⟩ := WaitList.shift?_eq_some hl
      rw [wakeOne_of_shift? hshift, consumed, dispatch_of_shift? hshift]
      cases live : M.isResumable h with
      | true =>
          rw [tryResume_of_resumable (by simpa using live), if_pos rfl, consumed_zero]
          rfl
      | false =>
          rw [tryResume_of_not_resumable (by simpa using live)]
          simp only [Bool.false_eq_true, if_false, Nat.zero_add]
          rw [ih _ (by simp), consumed_congr (isResumable_passed p rest h)]

theorem wakeTimes_eq_dispatch (p : Place) (count : Nat) (M : Machine α) :
    wakeTimes p count M = (M.dispatch p (M.consumed count (M.waiters p).toList)).1 := by
  induction count generalizing M with
  | zero =>
      rw [consumed_zero]
      rfl
  | succ count ih =>
      have hlive : (M.wakeOne p).1.isResumable = M.isResumable :=
        (wakeOne_wakes 0 M p).isResumable
      have hleft : ((M.wakeOne p).1.waiters p).toList =
          (M.waiters p).toList.drop (M.consumed 1 (M.waiters p).toList) := by
        rw [wakeOne_eq_dispatch]
        exact (dispatched M p _).1.waiters
      rw [wakeTimes, ih, consumed_congr hlive, hleft, wakeOne_eq_dispatch, ← dispatch_add,
        ← consumed_succ]

/-- Whom the next of several wakes resumes. -/
theorem wakeOne_wakeTimes (p : Place) (count : Nat) (M : Machine α) :
    ((wakeTimes p count M).wakeOne p).2 = (M.live (M.waiters p).toList)[count]? := by
  have hfind : ∀ N : Machine α, (N.waiters p).toList.find? N.isResumable =
      (N.live (N.waiters p).toList).head? := fun N => (List.head?_filter ..).symm
  rw [wakeOne_selects, hfind, live_wakeTimes, List.head?_drop]

/-! ### All at once -/

theorem wakeAll_of_nobody (hnil : (M.waiters p).toList = []) :
    M.wakeAll p = (M.setWaiters p (M.waiters p), 0) := by
  have hlength : (M.waiters p).length = 0 := by
    rw [← WaitList.length_toList, hnil, List.length_nil]
  rw [wakeAll, WaitList.drainAll, hlength]
  rfl

theorem wakeAll_of_shift? (hs : (M.waiters p).shift? = some (h, rest)) :
    M.wakeAll p =
      ((((M.setWaiters p rest).tryResume h).1.wakeAll p).1,
        (((M.setWaiters p rest).tryResume h).1.wakeAll p).2 + (M.live [h]).length) := by
  have hdrain : (M.waiters p).drainAll = (h :: rest.drainAll.1, rest.drainAll.2) := by
    rw [WaitList.drainAll, WaitList.length_of_shift? hs, WaitList.drain, hs]
    rfl
  have hlater : ((M.setWaiters p rest).tryResume h).1.wakeAll p =
      ((M.setWaiters p rest.drainAll.2).tryResume h).1.resumeAll rest.drainAll.1 := by
    rw [wakeAll, waiters_tryResume, waiters_setWaiters_self]
    simp only
    rw [setWaiters_tryResume, setWaiters_setWaiters]
  rw [hlater, wakeAll, hdrain]
  simp only [resumeAll]
  cases live : M.isResumable h with
  | true => simp [tryResume_of_resumable, Machine.live, live]
  | false => simp [tryResume_of_not_resumable, Machine.live, live]

/-- Taking all waiters out first comes to the same as dispatching some of them before. -/
theorem wakeAll_dispatch (p : Place) (count : Nat) (M : Machine α) :
    ((M.dispatch p count).1.wakeAll p).1 = (M.wakeAll p).1 ∧
      (M.dispatch p count).2 + ((M.dispatch p count).1.wakeAll p).2 = (M.wakeAll p).2 := by
  induction count generalizing M with
  | zero => exact ⟨rfl, Nat.zero_add _⟩
  | succ count ih =>
      cases hs : (M.waiters p).shift? with
      | none =>
          rw [dispatch_of_nobody hs]
          exact ⟨rfl, Nat.zero_add _⟩
      | some entry =>
          obtain ⟨h, rest⟩ := entry
          obtain ⟨hstate, hcount⟩ := ih ((M.setWaiters p rest).tryResume h).1
          rw [dispatch_of_shift? hs, wakeAll_of_shift? hs]
          refine ⟨hstate, ?_⟩
          simp only
          omega

theorem wakeAll_dispatched (M : Machine α) (p : Place) :
    Dispatched p M (M.waiters p).toList [] (M.wakeAll p).1 ∧
      (M.wakeAll p).2 = (M.live (M.waiters p).toList).length := by
  obtain ⟨hd, hcount⟩ := dispatched M p (M.waiters p).toList.length
  obtain ⟨hstate, htotal⟩ := wakeAll_dispatch p (M.waiters p).toList.length M
  rw [List.take_length, List.drop_length] at hd
  rw [List.take_length] at hcount
  rw [wakeAll_of_nobody hd.waiters] at hstate htotal
  exact ⟨hstate ▸ hd.relist hd.waiters, htotal.symm.trans hcount⟩

/-- **Wakes resume the waiters in order, one by one or all at once.**  A wake takes out the
waiters up to the first that can be resumed, resumes that one, and leaves a line about each of
the others; waking all does so with every waiter.  The next of several wakes resumes the next
waiter that can be resumed, if there is one.  So many wakes, and then waking all, comes to the
very state that waking all at once comes to. -/
theorem wakes_in_order (M : Machine α) (p : Place) :
    let entries := (M.waiters p).toList
    -- one wake
    ((M.wakeOne p).2 = entries.find? M.isResumable ∧ Awakens p M (M.wakeOne p).1) ∧
    -- all at once
    ((M.wakeAll p).2 = (M.live entries).length ∧ Dispatched p M entries [] (M.wakeAll p).1) ∧
    -- wake after wake, and then all at once
    ∀ count,
      ((wakeTimes p count M).wakeOne p).2 = (M.live entries)[count]? ∧
      M.live (entries.take (M.consumed count entries)) = (M.live entries).take count ∧
      Dispatched p M (entries.take (M.consumed count entries))
        (entries.drop (M.consumed count entries)) (wakeTimes p count M) ∧
      ((wakeTimes p count M).wakeAll p).1 = (M.wakeAll p).1 ∧
      min count (M.live entries).length + ((wakeTimes p count M).wakeAll p).2 =
        (M.wakeAll p).2 := by
  intro entries
  obtain ⟨hall, htotal⟩ := wakeAll_dispatched M p
  refine ⟨⟨wakeOne_selects M p, wakeOne_awakens M p⟩, ⟨htotal, hall⟩, fun count => ?_⟩
  obtain ⟨hd, hcount⟩ := dispatched M p (M.consumed count entries)
  obtain ⟨hstate, hrest⟩ := wakeAll_dispatch p (M.consumed count entries) M
  have htaken := live_take_consumed M count entries
  rw [htaken, List.length_take] at hcount
  rw [hcount] at hrest
  rw [← wakeTimes_eq_dispatch] at hd hstate hrest
  exact ⟨wakeOne_wakeTimes p count M, htaken, hd, hstate, hrest⟩

end Machine

end BlockingSync
