/-
What a tick does to a mutex.

A tick leaves a mutex and its waiters alone, or gives the mutex up, or the thread that runs
takes it or queues up for it (`Touch`).  Giving it up takes the waiters out up to the first
that can be resumed.
-/
import BlockingSync.Proofs.Deeds
import BlockingSync.Proofs.Selection

namespace BlockingSync

variable {α : Type}

namespace Machine

/-- The task that has a lock, if any. -/
def holder? (M : Machine α) : Lockable → Option HandleId
  | .native m | .wrapped m | .minimal m => (M.mutex m).owner
  | .raw r => (M.rawLock r).owner

/-- What a tick of a thread does to a mutex. -/
inductive Touch (m : MutexId) (t : ThreadId) (M M' : Machine α) : Prop
  | stays (howner : (M'.mutex m).owner = (M.mutex m).owner)
      (hsame : (M'.waiters (.mutex m)).toList = (M.waiters (.mutex m)).toList)
  | frees (hplace : M.place? t = none) (owned : (M.mutex m).owner ≠ none)
      (free : (M'.mutex m).owner = none)
      (hwaiters : (M'.waiters (.mutex m)).toList = M.afterFirst (M.waiters (.mutex m)).toList)
      (hlive : M'.isResumable = M.isResumable)
  | takes {code} (hcode : (M.thread t).code = .lock m :: code)
      (hsame : (M'.waiters (.mutex m)).toList = (M.waiters (.mutex m)).toList)
  | queues {code} (hcode : (M.thread t).code = .lock m :: code)
      (hwaiters : (M'.waiters (.mutex m)).toList = (M.waiters (.mutex m)).toList ++ [t])
  /-- The thread tries to take it. -/
  | claims {path name code}
      (hcode : (M.thread t).code = .start path (.onObject name .tryLock) :: code)
      (ho : M.object? name = some (.mutex m))
      (hsame : (M'.waiters (.mutex m)).toList = (M.waiters (.mutex m)).toList)

variable {M M' M'' : Machine α} {t u : ThreadId} {m : MutexId} {p : Place} {c : ConditionId}

theorem Touch.congr (h : M.Touch m t M') (hm : M''.mutex m = M'.mutex m)
    (hlive : M''.isResumable = M'.isResumable) : M.Touch m t M'' := by
  have hwaiters : M''.waiters (.mutex m) = M'.waiters (.mutex m) := congrArg Mutex.waiting hm
  cases h with
  | stays howner hsame => exact .stays (by rw [hm, howner]) (by rw [hwaiters, hsame])
  | frees hplace owned free hw hl =>
      exact .frees hplace owned (by rw [hm, free]) (by rw [hwaiters, hw]) (by rw [hlive, hl])
  | takes hcode hsame => exact .takes hcode (by rw [hwaiters, hsame])
  | queues hcode hw => exact .queues hcode (by rw [hwaiters, hw])
  | claims hcode ho hsame => exact .claims hcode ho (by rw [hwaiters, hsame])

theorem Touch.of_mutex (h : M'.mutex m = M.mutex m) : M.Touch m t M' :=
  .stays (by rw [h]) (congrArg (fun s : Mutex => s.waiting.toList) h)

theorem Touch.of_changes {allowed : Effect → Prop} (h : Changes allowed t M M')
    (hs : ∀ e, allowed e → e.Spares m) : M.Touch m t M' :=
  .of_mutex (h.mutex_eq hs)

theorem Wakes.isResumable (h : Wakes p t M M') : M'.isResumable = M.isResumable := by
  refine h.keeps (I := fun N => N.isResumable = M.isResumable) ?_ rfl
  rintro e N N' rfl hc hN
  rw [← hN]
  funext u
  cases hc <;> simp

/-- Giving a mutex up wakes the earliest of its waiters that can be resumed. -/
theorem touch_wakeOne {N : Machine α} (hplace : M.place? t = none)
    (owned : (M.mutex m).owner ≠ none) (free : (N.mutex m).owner = none)
    (hwaiters : N.waiters (.mutex m) = M.waiters (.mutex m))
    (hlive : N.isResumable = M.isResumable) : M.Touch m t (N.wakeOne (.mutex m)).1 := by
  refine .frees hplace owned (by rw [owner_wakeOne, free]) ?_ ?_
  · rw [waiters_wakeOne, hwaiters]
    unfold afterFirst
    rw [hlive]
  · rw [(wakeOne_wakes t N (.mutex m)).isResumable, hlive]

/-- Only the thread that runs can come to the list. -/
theorem Touch.mem_waiters (h : M.Touch m t M') (hut : u ≠ t)
    (hu : u ∈ (M'.waiters (.mutex m)).toList) : u ∈ (M.waiters (.mutex m)).toList := by
  cases h with
  | stays _ hsame | takes _ hsame | claims _ _ hsame => rwa [hsame] at hu
  | frees _ _ _ hwaiters =>
      rw [hwaiters, afterFirst] at hu
      exact (List.dropWhile_suffix _).mem (List.mem_of_mem_tail hu)
  | queues _ hwaiters =>
      rw [hwaiters, List.mem_append, List.mem_singleton] at hu
      exact hu.resolve_right hut

theorem touch_free (hplace : M.place? t = none) {m' : MutexId}
    (owned : (M.mutex m').owner ≠ none) : M.Touch m t (M.free m') := by
  by_cases hmm : m' = m
  · subst hmm
    exact touch_wakeOne hplace owned (by simp [mutex_setOwner]) (waiters_setOwner ..) rfl
  · exact .of_mutex (free_mutex_ne hmm)

theorem touch_leave (hplace : M.place? t = none) {m' : MutexId}
    (owned : (M.mutex m').owner ≠ none) : M.Touch m t (M.leave c m' t) := by
  by_cases hmm : m' = m
  · subst hmm
    refine touch_wakeOne hplace owned ?_ ?_ ?_
    · simp [enqueue, owner_setWaiters, mutex_setOwner]
    · rw [enqueue, waiters_setWaiters, if_neg (by simp), waiters_setOwner]
    · funext u
      simp [enqueue]
      rfl
  · exact .of_mutex (leave_mutex_ne hmm)

theorem touch_does {path : Path} {op : Op α} {next : Next α} {code : List (Instr α)}
    (hcode : (M.thread t).code = .start path op :: code) (h : M.Does t path op M' next) :
    M.Touch m t M' := by
  have hplace : M.place? t = none := place?_of_code hcode
  cases h with
  | aside h =>
      refine .of_changes h ?_
      intro e he
      cases e with
      | own | enter | wake => exact absurd he id
      | _ => simp [Effect.Spares]
  | @claim name m' hop ho =>
      by_cases hmm : m' = m
      · subst hmm
        subst hop
        exact .claims hcode ho (by rw [waiters_setOwner])
      · exact .of_mutex (by rw [mutex_setOwner, if_neg hmm])
  | give _ _ _ _ owned => exact touch_free hplace (by simp [owned])
  | take | synchronize | guard => exact .of_mutex rfl
  | @wait name lock c o l _ _ _ _ hd =>
      -- A wait with a mutex gives that mutex up; a wait with a raw lock touches none.
      rcases depart_of_departed hd with ⟨m', -, ⟨u, owned⟩, heq⟩ | ⟨r, -, hraw⟩
      · rw [heq]
        exact touch_leave hplace (by simp [owned])
      · have henter : Changes (· = .enter (.condition c)) t M (M.enqueue (.condition c) t) :=
          .single rfl (.enter _)
        refine .of_mutex ?_
        rw [hraw.mutex_eq (by rintro e rfl; simp [Effect.Spares]),
          henter.mutex_eq (by rintro e rfl; simp [Effect.Spares])]
  | signal =>
      refine .of_changes (wakeOne_wakes t M _) ?_
      rintro e rfl
      simp [Effect.Spares]
  | broadcast =>
      refine .of_changes (wakeAll_wakes t M _) ?_
      rintro e rfl
      simp [Effect.Spares]

end Machine

namespace Setting

open Machine

variable {S : Setting α} {M M' : Machine α} {t : ThreadId} {m : MutexId} {i : Instr α}
  {code : List (Instr α)} {others : List ThreadId}

theorem touch_stroke {next : Next α} (hfits : M.Fits S)
    (hshape : S.Shape (M.thread t).step t (i :: code)) (hcode : (M.thread t).code = i :: code)
    (hi : ∀ path op, i ≠ .start path op) (h : S.Stroke M t i M' next) : M.Touch m t M' := by
  have hplace : M.place? t = i.place? := place?_of_code hcode
  cases h with
  | start => exact absurd rfl (hi _ _)
  | @claim m' =>
      by_cases hmm : m' = m
      · subst hmm
        exact .takes hcode (by rw [waiters_setOwner])
      · exact .of_mutex (by rw [mutex_setOwner, if_neg hmm])
  | @queueUp m' =>
      by_cases hmm : m' = m
      · subst hmm
        exact .queues hcode (by rw [enqueue, waiters_setWaiters_self, WaitList.toList_push])
      · refine .of_mutex ?_
        simp [enqueue, setWaiters, mutex_setMutex, hmm]
  | unlock owned => exact touch_free hplace (by simp [owned])
  | seize h =>
      refine .of_changes h ?_
      rintro e rfl
      simp [Effect.Spares]
  | unlockFree | closeGuard | parkRaw | pass | park | report => exact .of_mutex rfl
  | wait _ _ owned => exact touch_leave hplace (by simp [owned])
  | transact h =>
      refine .of_changes (h.changes (t := t) hfits hshape.of_transact.1.lt) ?_
      rintro e he
      cases e with
      | wake p =>
          cases p with
          | condition c => simp [Effect.Spares]
          | mutex m => exact absurd he id
      | own | enter => exact absurd he id
      | _ => simp [Effect.Spares]

/-- **What a tick does to a mutex is told by `Touch`.** -/
theorem Sound.touch (h : S.Sound M) (hready : M.ready = t :: others) (m : MutexId) :
    M.Touch m t M.tick := by
  have same : ∀ {t' others'}, M.ready = t' :: others' → t = t' := fun hr =>
    (List.cons.inj (hready.symm.trans hr)).1
  have hmove := h.move
  generalize M.tick = M' at hmove ⊢
  cases hmove with
  | still | finish | next => exact .of_mutex rfl
  | @goOn t' others' i code N more hr hcode hdeed =>
      obtain rfl := same hr
      have htouch : M.Touch m t N := by
        cases hdeed with
        | start _ hdoes => exact touch_does hcode hdoes
        | stroke hi hstroke =>
            exact touch_stroke h.fits (hcode ▸ (h.shaped t).code) hcode hi hstroke
      exact htouch.congr rfl rfl
  | @park t' others' i code N hr hcode hstroke =>
      obtain rfl := same hr
      have hhalts := hstroke.halts hr hcode
      exact .of_mutex (hhalts.mutex m)
  | unwind hr hcode _ hdoes =>
      obtain rfl := same hr
      exact (touch_does hcode hdoes).congr rfl rfl

end Setting

end BlockingSync
