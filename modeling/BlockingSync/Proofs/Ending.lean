/-
Every step ends.

No loop of the primitives has a measure of its own: a task that retries goes behind the
others, and by then somebody else may have taken what it was after.  What falls is a
quantity of the whole machine,

    toil(M) = (8 n + 5) · labour(M) + unrest(M),

where `n` is the number of threads, `labour` is what the operations begun and still to
begin can get done, and `unrest` counts for each ready thread how far it can go without
getting anything done, and four for each token of a thread's own handle.

A tick that gets something done lowers the labour, and may ready every thread and set
every token; `8 n + 4` is what that can raise the unrest to.  Any other tick wakes nobody
and lowers the unrest: the thread that runs comes nearer to the place where it stops, and
one that passes its suspension without stopping has taken its token.  In particular a
transaction that waits gives the mutex of its queue up, but nobody ever waits for that
mutex (`Guarded.waiting`), so there is nobody to wake.
-/
import BlockingSync.Proofs.Deeds
import BlockingSync.Proofs.Presence
import Mathlib.Data.List.Perm.Subperm
import Mathlib.Data.List.TakeWhile
import Mathlib.Tactic.Ring

namespace BlockingSync

variable {α : Type}

/-! ### Sums over tables -/

namespace Table

variable {β : Type}

/-- The sum of a weight over all values that were written. -/
def total (f : β → Nat) (t : Table β) : Nat :=
  t.cells.foldr (f · + ·) 0

variable [Inhabited β] {f : β → Nat}

theorem total_setCell (hf : f default = 0) (v : β) (i : Nat) (cells : List β) :
    (setCell v i cells).foldr (f · + ·) 0 + f (cells.getD i default) =
      cells.foldr (f · + ·) 0 + f v := by
  induction i generalizing cells with
  | zero =>
      cases cells with
      | nil => simp [setCell, hf]
      | cons w cells => simp [setCell]; omega
  | succ i ih =>
      cases cells with
      | nil => simpa [setCell, hf] using ih []
      | cons w cells =>
          have := ih cells
          simp only [setCell, List.foldr_cons, List.getD_cons_succ]
          omega

/-- Writing a value exchanges one weight for another. -/
theorem total_set (hf : f default = 0) (t : Table β) (i : Nat) (v : β) :
    (t.set i v).total f + f (t.get i) = t.total f + f v :=
  total_setCell hf v i t.cells

omit [Inhabited β] in
theorem total_le {g : β → Nat} (k : Nat) (h : ∀ v, f v ≤ k * g v) (t : Table β) :
    t.total f ≤ k * t.total g := by
  unfold total
  induction t.cells with
  | nil => simp
  | cons v cells ih =>
      have := h v
      simp only [List.foldr_cons, Nat.mul_add]
      omega

end Table

/-! ### The measure -/

/-- What an instruction can get done, and all that follows from it. -/
def Instr.labour : Instr α → Nat
  | .start _ op => Machine.opWork op
  | .transact .. | .closeGuard .. => 3
  | .unlock _ | .report .. | .seize _ => 1
  | .lock _ | .suspend .. => 0

/-- How far a thread that comes to an instruction can go without getting anything done. -/
def Instr.slack : Instr α → Nat
  | .lock _ => 3
  | .transact .. => 2
  | .suspend .. | .seize _ => 1
  | _ => 0

namespace Machine

/-- What a row of instructions can get done. -/
def codeLabour (code : List (Instr α)) : Nat :=
  code.foldr (·.labour + ·) 0

/-- What a thread can get done. -/
def threadLabour (s : Thread α) : Nat :=
  codeLabour s.code + s.pending.foldr (fun entry rest => opWork entry.2 + 1 + rest) 0

/-- What all threads together can get done. -/
def labour (M : Machine α) : Nat :=
  M.threads.total threadLabour

/-- How far code can be followed without getting anything done. -/
def codeSlack (code : List (Instr α)) : Nat :=
  (code.head?.map Instr.slack).getD 0

/-- How many threads have a token on their own handle. -/
def tokens (M : Machine α) : Nat :=
  (List.range M.threads.size).countP fun h => (M.handle h).notified

/-- How much can happen before anything gets done. -/
def unrest (M : Machine α) : Nat :=
  M.ready.foldr (fun t rest => codeSlack (M.thread t).code + 1 + rest) 0 + 4 * M.tokens

/-- A bound on the unrest, and room for one more. -/
def span (M : Machine α) : Nat :=
  8 * M.threads.size + 5

variable {M M' : Machine α} {t : ThreadId}

/-! ### Labour -/

@[simp] theorem codeLabour_nil : codeLabour ([] : List (Instr α)) = 0 :=
  rfl

@[simp] theorem codeLabour_cons (i : Instr α) (code : List (Instr α)) :
    codeLabour (i :: code) = i.labour + codeLabour code :=
  rfl

@[simp] theorem codeLabour_append (code code' : List (Instr α)) :
    codeLabour (code ++ code') = codeLabour code + codeLabour code' := by
  induction code with
  | nil => simp
  | cons i code ih => simp [ih]; omega

/-- What is given back when an operation is given up was still to be given back. -/
theorem codeLabour_cleanup (code : List (Instr α)) :
    codeLabour (cleanup code) ≤ codeLabour code := by
  induction code with
  | nil => exact Nat.le_refl _
  | cons i code ih =>
      cases i with
      | unlock m => simpa [cleanup] using ih
      | closeGuard m path => simp [cleanup, Instr.labour]; omega
      | _ => simp [cleanup]; omega

theorem codeLabour_startBody (path : Path) (body : List (Op α)) :
    codeLabour (startBody path body) = bodyWork body := by
  have key : ∀ (index : Nat → Nat), codeLabour
      (body.mapIdx fun i op => .start (path ++ [index i]) op) = bodyWork body := by
    induction body with
    | nil => intro index; rfl
    | cons op body ih =>
        intro index
        simp only [List.mapIdx_cons, codeLabour_cons, Instr.labour, bodyWork]
        rw [ih fun i => index (i + 1)]
  exact key id

theorem labour_setThread (t : ThreadId) (s : Thread α) :
    (M.setThread t s).labour + threadLabour (M.thread t) = M.labour + threadLabour s :=
  Table.total_set rfl M.threads t s

/-- Going on with other code exchanges the labour of one for that of the other. -/
theorem labour_setCode (hthreads : M'.threads = M.threads) (code' : List (Instr α)) :
    (M'.setCode t code').labour + codeLabour (M.thread t).code =
      M.labour + codeLabour code' := by
  have hsame : M'.labour = M.labour := congrArg (Table.total threadLabour) hthreads
  have hset : (M'.setCode t code').labour + threadLabour (M'.thread t) =
      M'.labour + threadLabour { M'.thread t with code := code' } :=
    labour_setThread t _
  rw [← thread_congr hthreads t]
  simp only [threadLabour] at hset
  omega

theorem labour_le_instrWork (i : Instr α) : i.labour ≤ 2 * instrWork i := by
  cases i with
  | start path op => simp only [Instr.labour, instrWork]; omega
  | _ => simp [Instr.labour, instrWork]

theorem threadLabour_le (s : Thread α) : threadLabour s ≤ 2 * threadWork s := by
  have hcode : codeLabour s.code ≤ 2 * s.code.foldr (instrWork · + ·) 0 := by
    induction s.code with
    | nil => simp
    | cons i code ih =>
        have := labour_le_instrWork i
        simp only [codeLabour_cons, List.foldr_cons]
        omega
  unfold threadLabour threadWork
  induction s.pending with
  | nil => simpa using hcode
  | cons entry pending ih =>
      simp only [List.foldr_cons]
      omega

/-- The bound on the work of a machine is one on its labour. -/
theorem labour_le_work (M : Machine α) : M.labour ≤ 2 * M.work :=
  Table.total_le 2 threadLabour_le M.threads

/-! ### Unrest -/

/-- A thread that has something to do is one of those that were created. -/
theorem lt_size_of_not_isIdle (h : ¬ M.IsIdle t) : t < M.threads.size := by
  by_contra hge
  have hnone : M.threads.cells[t]? = none := List.getElem?_eq_none (Nat.not_lt.1 hge)
  have hdefault : M.thread t = default := by
    simp only [thread, Table.get, List.getD_eq_getElem?_getD, hnone, Option.getD_none]
  apply h
  rw [IsIdle, hdefault]
  exact ⟨rfl, rfl⟩

theorem codeSlack_le (code : List (Instr α)) : codeSlack code ≤ 3 := by
  cases code with
  | nil => simp [codeSlack]
  | cons i code => cases i <;> simp [codeSlack, Instr.slack]

/-- Each thread is ready once at most, but for one that runs and has nothing left to do. -/
theorem Orderly.length_ready (h : M.Orderly) : M.ready.length ≤ M.threads.size + 1 := by
  have hnodup : M.ready.tail.Nodup := h.ready_nodup.tail
  have hsubset : M.ready.tail ⊆ List.range M.threads.size := by
    intro u hu
    obtain ⟨s, hs⟩ := h.of_behind u hu
    refine List.mem_range.2 (lt_size_of_not_isIdle fun hidle => ?_)
    simp [stop?, hidle.1] at hs
  have hlength := (List.subperm_of_subset hnodup hsubset).length_le
  rw [List.length_range, List.length_tail] at hlength
  omega

theorem Orderly.unrest_lt (h : M.Orderly) : M.unrest < M.span := by
  have hready : ∀ ready : List ThreadId,
      ready.foldr (fun t rest => codeSlack (M.thread t).code + 1 + rest) 0 ≤
        4 * ready.length := by
    intro ready
    induction ready with
    | nil => simp
    | cons t ready ih =>
        have := codeSlack_le (M.thread t).code
        simp only [List.foldr_cons, List.length_cons]
        omega
  have htokens : M.tokens ≤ M.threads.size := by
    have := List.countP_le_length (p := fun h => (M.handle h).notified)
      (l := List.range M.threads.size)
    rwa [List.length_range] at this
  have := hready M.ready
  have := h.length_ready
  unfold unrest span
  omega

/-- The state after the token of a handle was taken. -/
def hushed (M : Machine α) (h : HandleId) : Machine α :=
  M.setHandle h { M.handle h with notified := false }

theorem notified_hushed (h u : HandleId) :
    ((M.hushed h).handle u).notified = ((M.handle u).notified && u != h) := by
  rw [hushed, handle_setHandle]
  by_cases hu : h = u
  · subst hu
    simp
  · rw [if_neg hu]
    simp [Ne.symm hu]

/-- Taking the token of a handle makes no token. -/
theorem tokens_hushed_le (h : HandleId) : (M.hushed h).tokens ≤ M.tokens := by
  refine List.countP_mono_left fun u _ hu => ?_
  rw [notified_hushed, Bool.and_eq_true] at hu
  exact hu.1

/-- Taking the token of a thread's own handle leaves one token less. -/
theorem tokens_hushed_lt {h : HandleId} (hh : h < M.threads.size)
    (hn : (M.handle h).notified = true) : (M.hushed h).tokens < M.tokens := by
  have hmem : h ∈ (List.range M.threads.size).filter fun u => (M.handle u).notified :=
    List.mem_filter.2 ⟨List.mem_range.2 hh, hn⟩
  have hlength := List.length_filter_lt_length_iff_exists (p := fun u => u != h).2
    ⟨h, hmem, by simp⟩
  rw [List.filter_filter] at hlength
  show (List.range M.threads.size).countP _ < (List.range M.threads.size).countP _
  rw [List.countP_eq_length_filter, List.countP_eq_length_filter]
  simp only [notified_hushed]
  simpa only [Bool.and_comm] using hlength

theorem tokens_congr (hn : ∀ h, (M'.handle h).notified = (M.handle h).notified)
    (hsize : M'.threads.size = M.threads.size) : M'.tokens = M.tokens := by
  simp only [tokens, hn, hsize]

theorem size_setThread (ht : t < M.threads.size) (s : Thread α) :
    (M.setThread t s).threads.size = M.threads.size :=
  Table.size_set s ht

/-- The thread that runs goes on with code that it can follow less far, and wakes nobody. -/
theorem unrest_setCode {others : List ThreadId} {code : List (Instr α)} (horderly : M.Orderly)
    (hready : M.ready = t :: others) (ht : t < M.threads.size)
    (hthreads : M'.threads = M.threads) (hready' : M'.ready = M.ready)
    (hslack : codeSlack code + 4 * M'.tokens < codeSlack (M.thread t).code + 4 * M.tokens) :
    (M'.setCode t code).unrest < M.unrest := by
  have hnot : t ∉ others := by
    have hnodup := horderly.ready_nodup
    rw [hready] at hnodup
    exact (List.nodup_cons.1 hnodup).1
  have hothers : others.foldr
        (fun u rest => codeSlack ((M'.setCode t code).thread u).code + 1 + rest) 0 =
      others.foldr (fun u rest => codeSlack (M.thread u).code + 1 + rest) 0 := by
    refine List.foldr_ext _ _ _ fun u hu rest => ?_
    have hne : t ≠ u := fun hc => hnot (hc ▸ hu)
    rw [thread_setCode, if_neg hne, thread_congr hthreads]
  have htokens : (M'.setCode t code).tokens = M'.tokens :=
    tokens_congr (fun _ => rfl) (size_setThread (hthreads ▸ ht) _)
  have hready'' : (M'.setCode t code).ready = t :: others := hready'.trans hready
  unfold unrest
  rw [htokens, hready'', hready]
  simp only [List.foldr_cons, hothers]
  rw [thread_setCode, if_pos rfl]
  show codeSlack code + 1 + _ + _ < _
  omega

/-- A thread that halts takes its share of the unrest with it. -/
theorem Halts.unrest_lt (h : M.Halts t M') : M'.unrest < M.unrest := by
  have htokens : M'.tokens = M.tokens := tokens_congr h.notified (by rw [h.threads])
  unfold unrest
  rw [htokens, h.ready]
  simp only [List.foldr_cons, h.thread]
  omega

/-- With nobody on the list, a wake does nothing. -/
theorem wakeOne_of_nobody {p : Place} (h : (M.waiters p).toList = []) : (M.wakeOne p).1 = M := by
  have hlength : (M.waiters p).length = 0 := by
    rw [← WaitList.length_toList, h, List.length_nil]
  unfold wakeOne
  rw [hlength, wakeOneOf]

/-! ### What a tick wears down -/

theorem le_opWork (op : Op α) : 8 ≤ opWork op := by
  cases op <;> simp [opWork]

/-- An operation that begins can get more done than all that it leaves to be done. -/
theorem Does.labour_lt {path : Path} {op : Op α} {next : Next α} (h : M.Does t path op M' next)
    {more : List (Instr α)} (hnext : next = .goOn more) : codeLabour more < opWork op := by
  have small : ∀ {code : List (Instr α)}, codeLabour code ≤ 3 → next = .goOn code →
      codeLabour more < opWork op := by
    intro code hcode heq
    obtain rfl := Next.goOn.inj (heq.symm.trans hnext)
    have := le_opWork op
    omega
  cases h with
  | aside _ hn => cases hn with
      | answer => exact small (by simp [Instr.labour]) rfl
      | unwind => cases hnext
      | seize => exact small (by simp [Instr.labour]) rfl
      | enter => exact small (by simp [Instr.labour]) rfl
      | told => exact small (by simp [Instr.labour]) rfl
  | claim | take | signal | broadcast => exact small (by simp [Instr.labour]) rfl
  | give _ _ _ _ _ hn =>
      rcases hn with ⟨r, rfl⟩ | ⟨message, rfl⟩
      · exact small (by simp [Instr.labour]) rfl
      · cases hnext
  | synchronize hop | guard hop =>
      subst hop
      obtain rfl := Next.goOn.inj hnext
      simp [Instr.labour, codeLabour_startBody, opWork]
      omega
  | @wait _ _ _ _ l =>
      refine small ?_ rfl
      cases l <;> simp [Instr.labour, acquire]

/-- What a tick leaves is less: the labour, or at least the unrest. -/
structure Wears (M M' : Machine α) : Prop where
  size : M'.threads.size = M.threads.size
  less : M'.labour < M.labour ∨ M'.labour = M.labour ∧ M'.unrest < M.unrest

theorem Wears.of_halts (h : M.Halts t M') : Wears M M' :=
  ⟨by rw [h.threads], .inr ⟨congrArg (Table.total threadLabour) h.threads, h.unrest_lt⟩⟩

/-- Less labour of the thread that runs is enough, whatever was woken. -/
theorem Wears.of_setThread {s : Thread α} (hthreads : M'.threads = M.threads)
    (ht : t < M.threads.size) (hless : threadLabour s < threadLabour (M.thread t)) :
    Wears M (M'.setThread t s) := by
  have hsame : M'.labour = M.labour := congrArg (Table.total threadLabour) hthreads
  have hlabour := labour_setThread (M := M') t s
  rw [thread_congr hthreads] at hlabour
  refine ⟨?_, .inl (by omega)⟩
  rw [← congrArg Table.size hthreads]
  exact size_setThread (hthreads ▸ ht) s

theorem Wears.of_setCode {code : List (Instr α)} (hthreads : M'.threads = M.threads)
    (ht : t < M.threads.size) (hless : codeLabour code < codeLabour (M.thread t).code) :
    Wears M (M'.setCode t code) := by
  refine .of_setThread hthreads ht ?_
  rw [thread_congr hthreads]
  exact Nat.add_lt_add_right hless _

/-- What is worn down by every tick. -/
def toil (M : Machine α) : Nat :=
  M.span * M.labour + M.unrest

theorem Wears.toil_lt (h : Wears M M') (horderly : M'.Orderly) : M'.toil < M.toil := by
  have hunrest := horderly.unrest_lt
  have hspan : M'.span = M.span := by rw [span, span, h.size]
  rw [hspan] at hunrest
  unfold toil
  rw [hspan]
  rcases h.less with hless | ⟨hsame, hless⟩
  · -- A unit of labour outweighs all the unrest that it can make.
    have : M.span * (M'.labour + 1) ≤ M.span * M.labour := Nat.mul_le_mul_left _ hless
    rw [Nat.mul_succ] at this
    omega
  · rw [hsame]
    omega

/-- The machine after a number of ticks. -/
def ticks : Nat → Machine α → Machine α
  | 0, M => M
  | count + 1, M => ticks count M.tick

end Machine

namespace Setting

open Machine

variable {S : Setting α} {M M' : Machine α} {t : ThreadId}

theorem codeSlack_of_trails {step : Nat} {code : List (Instr α)} (h : S.Trails step code) :
    codeSlack code = 0 := by
  cases code with
  | nil => rfl
  | cons i code =>
      have hi := (trails_cons.1 h).1
      cases i with
      | lock | seize | suspend | transact => exact absurd hi id
      | _ => rfl

/-- A thread that passes a suspension has taken its own token, or was told to suspend and will not
stop again before it gets something done. -/
theorem Shape.hushed {step : Nat} {h : HandleId} {w : Option Place} {code : List (Instr α)}
    (hshape : S.Shape step t (.suspend h w :: code)) (ht : t < M.threads.size)
    (hn : (M.handle h).notified = true) :
    codeSlack code + 4 * (M.hushed h).tokens < 1 + 4 * M.tokens := by
  cases w with
  | none =>
      have htrails : S.Trails step code := by
        cases hshape with
        | trailing htrails => exact absurd (trails_cons.1 htrails).1 id
        | told _ htrails => exact htrails
      have := codeSlack_of_trails htrails
      have := tokens_hushed_le (M := M) h
      omega
  | some p =>
      obtain rfl := hshape.handle_of_suspend
      have := tokens_hushed_lt ht hn
      have := codeSlack_le code
      omega

/-- A transaction that waits gives up a mutex that nobody waits for. -/
theorem Sound.leave_eq (h : S.Sound M) {q : QueueId} (hq : q < S.queues) (c : ConditionId)
    (t : ThreadId) :
    M.leave c (S.mutex q) t = (M.setOwner (S.mutex q) none).enqueue (.condition c) t := by
  refine wakeOne_of_nobody ?_
  rw [enqueue, waiters_setWaiters, if_neg (by simp), waiters_setOwner]
  exact h.guarded.waiting q hq

/-- An instruction gets something done, or else it wakes nobody and the thread comes nearer to the
place where it stops. -/
theorem Deed.wears (h : S.Sound M) {i : Instr α} {code more : List (Instr α)}
    (hcode : (M.thread t).code = i :: code) (hdeed : S.Deed M t i M' (.goOn more)) :
    codeLabour more < i.labour ∨
      codeLabour more = i.labour ∧ M'.ready = M.ready ∧
        codeSlack (more ++ code) + 4 * M'.tokens < i.slack + 4 * M.tokens := by
  have hshape : S.Shape (M.thread t).step t (i :: code) := hcode ▸ (h.shaped t).code
  cases hdeed with
  | start hop hdoes => exact .inl (hdoes.labour_lt rfl)
  | stroke hi hstroke =>
    cases hstroke with
    | start => exact absurd rfl (hi _ _)
    | @claim m ho =>
        refine .inr ⟨rfl, rfl, ?_⟩
        have htokens : (M.setOwner m (some t)).tokens = M.tokens :=
          tokens_congr (fun _ => rfl) rfl
        have hslack : codeSlack code < 3 := by
          rcases hshape.of_lock with ⟨-, htrails⟩ | ⟨q, path, tr, rest, -, rfl, -, -⟩
          · rw [codeSlack_of_trails htrails]
            omega
          · show 2 < 3
            omega
        show codeSlack code + _ < 3 + _
        omega
    | @queueUp m o ho =>
        have htokens : (M.enqueue (.mutex m) t).tokens = M.tokens :=
          tokens_congr (fun _ => rfl) rfl
        refine .inr ⟨rfl, rfl, ?_⟩
        show 1 + _ < 3 + _
        omega
    | unlock | unlockFree | closeGuard | seize | report | transact =>
        exact .inl (by simp [Instr.labour])
    | @pass handle w hn =>
        refine .inr ⟨rfl, rfl, hshape.hushed (lt_size_of_not_isIdle fun hidle => ?_) hn⟩
        simp [hidle.1] at hcode
    | @wait q path tr side hside hwait ho =>
        have htokens : ((M.setOwner (S.mutex q) none).enqueue (.condition (S.condition q side))
            t).tokens = M.tokens := tokens_congr (fun _ => rfl) rfl
        rw [h.leave_eq hshape.of_transact.1.lt]
        refine .inr ⟨rfl, rfl, ?_⟩
        show 1 + _ < 2 + _
        omega

/-- **Every tick wears the machine down, as long as there is a thread that runs.** -/
theorem Move.wears (h : S.Sound M) (hready : M.ready ≠ []) (hmove : S.Move M M') : Wears M M' := by
  have hsize : ∀ {u i code}, (M.thread u).code = i :: code → u < M.threads.size := by
    intro u i code hcode
    refine lt_size_of_not_isIdle fun hidle => ?_
    simp [hidle.1] at hcode
  cases hmove with
  | still hnil => exact absurd hnil hready
  | finish hr hidle => exact .of_halts (.finish hr hidle)
  | @next t others i op pending hr hcode hpending =>
      have ht : t < M.threads.size := lt_size_of_not_isIdle fun hidle => by
        simp [hidle.2] at hpending
      refine .of_setThread rfl ht ?_
      simp only [threadLabour, hcode, hpending, codeLabour_cons, codeLabour_nil, Instr.labour,
        List.foldr_cons]
      omega
  | @goOn t others i code N more hr hcode hdeed =>
      have hthreads := hdeed.threads h hcode
      rcases hdeed.wears h hcode with hless | ⟨hsame, hready', hslack⟩
      · refine .of_setCode hthreads (hsize hcode) ?_
        rw [hcode, codeLabour_append, codeLabour_cons]
        omega
      · have hlabour := labour_setCode (t := t) hthreads (more ++ code)
        rw [hcode, codeLabour_cons, codeLabour_append] at hlabour
        refine ⟨?_, .inr ⟨by omega, ?_⟩⟩
        · rw [← congrArg Table.size hthreads]
          exact size_setThread (hthreads ▸ hsize hcode) _
        · refine unrest_setCode h.orderly hr (hsize hcode) hthreads hready' ?_
          rw [hcode]
          exact hslack
  | park hr hcode hstroke => exact .of_halts (hstroke.halts hr hcode)
  | @unwind t others path op code N message hr hcode hop hdoes =>
      refine .of_setCode hdoes.changes.threads (hsize hcode) ?_
      have := codeLabour_cleanup code
      have := le_opWork op
      rw [hcode]
      simp only [codeLabour_append, codeLabour_cons, codeLabour_nil, Instr.labour]
      omega

/-! ### Runs -/

/-- As many ticks as the toil says suffice, and settling stops where they lead. -/
theorem Sound.settles (h : S.Sound M) (fuel : Nat) (hfuel : M.toil ≤ fuel) :
    ∃ n ≤ M.toil, ticks n M = settle fuel M ∧ (settle fuel M).ready = [] := by
  induction fuel generalizing M with
  | zero =>
      refine ⟨0, by omega, rfl, ?_⟩
      by_contra hready
      have := (h.move.wears h hready).toil_lt h.tick.orderly
      omega
  | succ fuel ih =>
      by_cases hready : M.ready = []
      · have hstop : settle (fuel + 1) M = M := by simp [settle, hready]
        exact ⟨0, by omega, hstop.symm, by rw [hstop, hready]⟩
      · have hgo : settle (fuel + 1) M = settle fuel M.tick := by
          simp [settle, hready]
        have hless := (h.move.wears h hready).toil_lt h.tick.orderly
        obtain ⟨n, hn, hticks, hend⟩ := ih h.tick (by omega)
        refine ⟨n + 1, by omega, ?_, ?_⟩
        · rw [hgo, ← hticks]
          rfl
        · rw [hgo, hend]

/-- The bound on the ticks of a run is generous enough. -/
theorem Sound.toil_le_effort (h : S.Sound M) : M.toil ≤ M.effort := by
  have hunrest := h.orderly.unrest_lt
  have hlabour : M.span * M.labour ≤ M.span * (2 * M.work) :=
    Nat.mul_le_mul_left _ M.labour_le_work
  have hproduct : M.span * (2 * M.work) ≤ 16 * M.work * (M.threads.size + 1) := by
    have : M.span ≤ 8 * (M.threads.size + 1) := by
      unfold span
      omega
    calc M.span * (2 * M.work) ≤ 8 * (M.threads.size + 1) * (2 * M.work) :=
          Nat.mul_le_mul_right _ this
      _ = 16 * M.work * (M.threads.size + 1) := by ring
  have heffort : M.effort = 16 * M.work * (M.threads.size + 1) + 16 * (M.threads.size + 1) := by
    unfold effort
    ring
  unfold toil
  unfold span at hunrest
  omega

/-- **A run ends, since its bound on ticks is never met.** -/
theorem Sound.ends (h : S.Sound M) :
    ∃ n ≤ M.effort, ticks n M = M.run ∧ M.run.ready = [] := by
  obtain ⟨n, hn, hticks, hend⟩ := h.settles M.effort h.toil_le_effort
  exact ⟨n, Nat.le_trans hn h.toil_le_effort, hticks, hend⟩

/-- **No more than a fixed number of ticks go by without anything getting done.** -/
theorem Sound.gets_on (h : S.Sound M) :
    ∃ n ≤ M.unrest + 1, (ticks n M).ready = [] ∨ (ticks n M).labour < M.labour := by
  generalize hbound : M.unrest = bound
  induction bound using Nat.strongRecOn generalizing M with
  | _ bound ih =>
      by_cases hready : M.ready = []
      · exact ⟨0, by omega, .inl hready⟩
      · rcases (h.move.wears h hready).less with hless | ⟨hsame, hless⟩
        · exact ⟨1, by omega, .inr hless⟩
        · obtain ⟨n, hn, hcase⟩ := ih _ (hbound ▸ hless) h.tick rfl
          rw [hsame] at hcase
          exact ⟨n + 1, by omega, hcase⟩

end Setting

namespace Scenario

open Machine

variable {s : Scenario} {k : Nat} {past : List (Entry Json)} {M : Machine Json}

/-- A step that begins when the one before is over comes to its own end. -/
theorem Reaches.ready_step (h : s.Reaches k past M) (still : M.ready = []) {name : String}
    {order : Order} (hstep : s.steps[k]? = some (name, order)) :
    (Scenario.step M k name order).1.ready = [] := by
  unfold Scenario.step
  split
  · exact still
  · rename_i t ht
    split
    · exact still
    · exact still
    · rename_i hs
      obtain ⟨n, -, -, hend⟩ := (h.order still hstep ht hs).sound.ends
      exact hend

/-- When a step is over no thread is ready, and the next begins. -/
theorem ready_after (s : Scenario) (k : Nat) :
    (s.after k).ready = [] ∧ (k ≤ s.steps.length → ∃ past, s.Reaches k past (s.after k)) := by
  induction k with
  | zero => exact ⟨s.start_new.fresh.ready, fun _ => ⟨[], .start⟩⟩
  | succ k ih =>
      obtain ⟨still, hreaches⟩ := ih
      unfold after
      cases hstep : s.steps[k]? with
      | none =>
          refine ⟨still, fun hk => ?_⟩
          rw [List.getElem?_eq_none_iff] at hstep
          omega
      | some entry =>
          obtain ⟨name, order⟩ := entry
          have hk : k < s.steps.length := (List.getElem?_eq_some_iff.1 hstep).1
          obtain ⟨past, h⟩ := hreaches (by omega)
          exact ⟨h.ready_step still hstep, fun _ => h.step still hstep⟩

/-- **Every step ends.**  After each step no thread is ready.  Of any state in between this is
reached after a number of ticks that its operations bound, and long before the bound that the run
is given; only so many ticks as the number of threads bounds go by until some operation has got
on; and a wake goes on until it has resumed somebody or nobody is left to resume. -/
theorem every_step_ends (s : Scenario) :
    (∀ k, (s.after k).ready = []) ∧
      ∀ k past M, s.Reaches k past M →
        (∃ n ≤ M.effort, ticks n M = M.run ∧ M.run.ready = []) ∧
        (∃ n ≤ M.span, (ticks n M).ready = [] ∨ (ticks n M).labour < M.labour) ∧
        M.tick.labour ≤ M.labour ∧
        ∀ p, (M.wakeOne p).2 = none → ((M.wakeOne p).1.waiters p).toList = [] := by
  refine ⟨fun k => (s.ready_after k).1, fun k past M h => ⟨h.sound.ends, ?_, ?_, ?_⟩⟩
  · obtain ⟨n, hn, hcase⟩ := h.sound.gets_on
    exact ⟨n, Nat.le_trans hn h.sound.orderly.unrest_lt, hcase⟩
  · by_cases hready : M.ready = []
    · have hstill : M.tick = M := by simp [tick, hready]
      exact Nat.le_of_eq (congrArg labour hstill)
    · rcases (h.sound.move.wears h.sound hready).less with hless | ⟨hsame, -⟩
      · exact Nat.le_of_lt hless
      · exact Nat.le_of_eq hsame
  · intro p hnone
    rw [wakeOne_selects] at hnone
    rw [waiters_wakeOne, afterFirst, List.dropWhile_eq_nil_iff.2, List.tail_nil]
    simpa using hnone

/-- A task waits for a mutex with a token of its own in hand, so that it enters the list twice; when
it is woken it finds the mutex taken again, and in the end it waits for a queue. -/
def restless : Scenario where
  tasks := ["a", "b"]
  objects := [("m", .mutex {}), ("q", .queue .unbounded)]
  steps := [("a", .run [.onObject "m" .lock]),
    ("b", .run [.onTask "b" .resume, .onObject "m" .lock, .onObject "q" .pop]),
    ("a", .run [.onObject "m" .unlock, .onObject "m" .lock, .onObject "m" .unlock])]

theorem every_step_ends_restless : ∃ past M, restless.Reaches 3 past M ∧ M.ready = [0] ∧
    (∃ n ≤ M.effort, ticks n M = M.run ∧ M.run.ready = []) ∧
    ∃ n ≤ M.span, (ticks n M).ready = [] ∨ (ticks n M).labour < M.labour := by
  obtain ⟨past, h⟩ := (restless.ready_after 2).2 (by decide)
  have horder := h.order (t := 0) (by decide) rfl (by decide) (by rfl)
  obtain ⟨hends, hgets, -⟩ := (every_step_ends restless).2 _ _ _ horder
  exact ⟨_, _, horder, by decide, hends, hgets⟩

end Scenario

end BlockingSync
