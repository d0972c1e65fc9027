/-
The history of a queue.

An operation on a queue takes effect inside the mutex, and is reported a little later, in
the same turn of its thread.  In between, the report is already certain (`unreported`).
With it counted in, every tick adds at most one operation to the history, exactly when it
takes effect, and so the history is legal for a plain list, and leads to the values that
the queue has.
-/
import BlockingSync.Proofs.Reach

namespace BlockingSync

variable {α : Type}

/-- The line that a thread will add next to the log, if that is certain by now. -/
def toReport (t : ThreadId) (step : Nat) : List (Instr α) → List (Entry α)
  | .report path r :: _ | .unlock _ :: .report path r :: _ => [.finished t step path r]
  | _ => []

/-- Whether an instruction can bring an operation on a queue to its result. -/
def Instr.decides : Instr α → Bool
  | .start .. | .transact .. => true
  | _ => false

/-- The operation that is over but has not been reported. -/
def Machine.unreported (M : Machine α) : List (Entry α) :=
  match M.ready with
  | [] => []
  | t :: _ => toReport t (M.thread t).step (M.thread t).code

namespace Setting

open Machine

variable (S : Setting α)

/-- The operation on a queue that a line of the log reports.  An operation that was given up by a
panic has no result, and one whose name meant nothing has not come to the queue. -/
def reply? (q : QueueId) : Entry α → Option (Verb α × Result α)
  | .finished _ _ _ (.panicked _) | .finished _ _ _ .noSuchObject => none
  | .finished _ step path r =>
    match S.call? step path with
    | some (q', verb) => if q' = q then some (verb, r) else none
    | none => none
  | _ => none

/-- The operations on a queue that lines of the log report. -/
def history (q : QueueId) (lines : List (Entry α)) : Calls α := lines.filterMap (S.reply? q)

/-- The operations on a queue that are over, since the log was begun. -/
def calls (q : QueueId) (M : Machine α) : Calls α :=
  S.history q M.log ++ S.history q M.unreported

variable {S} {M M' : Machine α} {t : ThreadId} {q : QueueId} {i : Instr α}
  {code more : List (Instr α)} {step : Nat}

@[simp] theorem history_nil : S.history q [] = [] :=
  rfl

@[simp] theorem history_append (lines lines' : List (Entry α)) :
    S.history q (lines ++ lines') = S.history q lines ++ S.history q lines' := by
  simp [history]

theorem history_of_unfinished {lines : List (Entry α)}
    (h : ∀ line ∈ lines, line.isFinished = false) : S.history q lines = [] := by
  unfold history
  rw [List.filterMap_eq_nil_iff]
  intro line hline
  have := h line hline
  cases line with
  | finished => simp [Entry.isFinished] at this
  | _ => rfl

/-- A report of no operation on a queue. -/
theorem history_report {path : Path} {r : Result α}
    (h : S.call? step path = none ∨ ∃ message, r = .panicked message) :
    S.history q [.finished t step path r] = [] := by
  have hreply : S.reply? q (.finished t step path r) = none := by
    rcases h with h | ⟨message, rfl⟩
    · cases r <;> simp [reply?, h]
    · rfl
  simp [history, hreply]

/-- An operation that has not come to a queue. -/
theorem history_missed {path : Path} :
    S.history q [.finished t step path (.noSuchObject : Result α)] = [] :=
  rfl

@[simp] theorem toReport_nil : toReport t step ([] : List (Instr α)) = [] :=
  rfl

@[simp] theorem toReport_report (path : Path) (r : Result α) :
    toReport t step (.report path r :: code) = [.finished t step path r] :=
  rfl

/-- What stands behind reports no operation on a queue. -/
theorem history_toReport_of_trails (h : S.Trails step code) :
    S.history q (toReport t step code) = [] := by
  unfold toReport
  split
  · exact history_report (trails_cons.1 h).1
  · exact history_report (trails_cons.1 (trails_cons.1 h).2).1
  · rfl

theorem history_log_of_changes {allowed : Effect → Prop} (h : Changes allowed t M M') :
    S.history q M'.log = S.history q M.log := by
  obtain ⟨lines, hlog, hlines⟩ := h.log
  rw [hlog, history_append, history_of_unfinished hlines, List.append_nil]

/-! ### Operations as they take effect -/

theorem history_finished {path : Path} {r : Result α} {q' : QueueId} {verb : Verb α}
    {vs : List α} (hcall : S.call? step path = some (q', verb)) (hr : verb.Agrees r vs) :
    S.history q [.finished t step path r] = if q' = q then [(verb, r)] else [] := by
  have hreply : S.reply? q (.finished t step path r) = if q' = q then some (verb, r) else none := by
    cases r with
    | panicked message => exact absurd rfl (hr.ne_panicked message)
    | noSuchObject => exact absurd rfl hr.ne_noSuchObject
    | _ => simp [reply?, hcall]
  by_cases hqq : q' = q <;> simp [history, hreply, hqq]

/-- An operation that is answered at once. -/
theorem advances_of_answers {path : Path} {r : Result α} (h : S.Answers M step path r)
    (calls : Calls α) : Calls.Advances (M.queue q).values.toList calls (M.queue q).values.toList
      (calls ++ S.history q [.finished t step path r]) := by
  cases hcall : S.call? step path with
  | none =>
      rw [history_report (.inl hcall), List.append_nil]
      exact .same
  | some call =>
      obtain ⟨q', verb⟩ := call
      obtain ⟨rfl, -⟩ | ⟨hagrees, heffect⟩ := h q' verb hcall
      · rw [history_missed, List.append_nil]
        exact .same
      rw [history_finished hcall hagrees]
      split
      · rename_i hqq
        subst hqq
        have hstep : Calls.Advances _ calls _ _ := .call hagrees
        rwa [heffect] at hstep
      · rw [List.append_nil]
        exact .same

/-- Taking the first value is right for all operations that take one. -/
theorem agrees_taken {tr : Transaction α} {verb : Verb α} (hverb : transaction? verb = some tr)
    (htr : tr = .take ∨ tr = .tryTake) (v : α) (vs : List α) :
    verb.Agrees (.taken v) (v :: vs) ∧ vs = verb.effect (.taken v) (v :: vs) := by
  have hmem := mem_verbs hverb
  rcases htr with rfl | rfl <;> simp only [Transaction.verbs, List.mem_cons, List.not_mem_nil,
    or_false] at hmem
  · rcases hmem with rfl | rfl | rfl <;> exact ⟨rfl, rfl⟩
  · subst hmem
    exact ⟨rfl, rfl⟩

/-- What a transaction reports is right, and what it does is what its operation should do. -/
theorem Transacts.agrees {tr : Transaction α} {r : Result α} {verb : Verb α}
    (h : Transacts M q tr M' r) (hverb : transaction? verb = some tr) :
    verb.Agrees r (M.queue q).values.toList ∧
      (M'.queue q).values.toList = verb.effect r (M.queue q).values.toList := by
  have woken : ∀ (N : Machine α) (p : Place), (N.wakeOne p).1.queue q = N.queue q := fun N p =>
    (wakeOne_wakes 0 N p).queue_eq (by rintro e rfl; simp)
  have set : ∀ s : Queue α, (M.setQueue q s).queue q = s := fun s => Table.get_set_self ..
  cases h with
  | ask _ _ hr => exact ⟨(hr verb hverb).1, ((hr verb hverb).2 _).symm⟩
  | add =>
      obtain rfl := List.mem_singleton.1 (mem_verbs hverb)
      exact ⟨trivial, by rw [woken, set, WaitList.toList_push]; rfl⟩
  | @take tr v rest htr hv =>
      rw [set, hv]
      exact agrees_taken hverb htr v _
  | @takeWaking tr v rest htr hv =>
      rw [woken, set, hv]
      exact agrees_taken hverb htr v _
  | clear =>
      obtain rfl := List.mem_singleton.1 (mem_verbs hverb)
      exact ⟨trivial, by rw [woken, set, WaitList.toList_clear]; rfl⟩
  | @resize capacity =>
      obtain rfl := List.mem_singleton.1 (mem_verbs hverb)
      refine ⟨trivial, ?_⟩
      have hkeep : ∀ N : Machine α, ∀ p count, (N.wakeMany p count).queue q = N.queue q :=
        fun N p count => (wakeTimes_wakes 0 p _ N).queue_eq (by rintro e rfl; simp)
      have hset : ((M.setQueue q { M.queue q with capacity }).queue q).values.toList =
          (M.queue q).values.toList := by rw [set]
      rw [hkeep]
      exact hset

/-- An operation that begins adds at most its own answer. -/
theorem Begins.advances {path : Path} {op : Op α} (hq : q < S.queues)
    (h : S.Begins M t step path op M' (.goOn more)) : Calls.Advances
      (M.queue q).values.toList (S.history q M.log) (M'.queue q).values.toList
      (S.history q M'.log ++ S.history q (toReport t step (more ++ code))) := by
  have haway := h.isAway hq
  rw [haway.queue_eq fun _ he => he.1, history_log_of_changes haway]
  cases h with
  | calm _ ho =>
      cases ho with
      | answer hr => exact advances_of_answers hr _
      | _ => exact .silent rfl
  | forget _ hcall | resumes _ _ hcall => exact .silent (history_report (.inl hcall))
  | release _ _ hcall hn =>
      rcases hn with ⟨r, hn⟩ | ⟨message, hn⟩
      · obtain rfl := Next.goOn.inj hn
        exact .silent (history_report (.inl hcall))
      · cases hn
  | wait | waitRaw => exact .silent rfl

/-- What stands behind the release of a mutex is reported just as the release itself. -/
theorem history_toReport_unlock {m : MutexId} (hshape : S.Shape step t (.unlock m :: code)) :
    S.history q (toReport t step code) = S.history q (toReport t step (.unlock m :: code)) := by
  rcases hshape.of_unlock with ⟨hm, htrails⟩ | ⟨q', path, r, rest, -, -, rfl, -⟩
  · have hwhole : S.Trails step (.unlock m :: code) := trails_cons.2 ⟨hm, htrails⟩
    rw [history_toReport_of_trails htrails, history_toReport_of_trails hwhole]
  · rfl

/-- What is certain to be reported stays the same, unless an operation takes effect. -/
theorem Stroke.history_toReport (hshape : S.Shape step t (i :: code))
    (h : S.Stroke M t i M' (.goOn more)) (hi : i.isPassive = false)
    (hstart : ∀ path op, i ≠ .start path op) (hne : ∀ q path tr, i ≠ .transact q path tr) :
    S.history q (toReport t step (more ++ code)) = S.history q (toReport t step (i :: code)) := by
  cases h with
  | start => exact absurd rfl (hstart _ _)
  | claim =>
      rcases hshape.of_lock with ⟨-, htrails⟩ | ⟨q', path, tr, rest, -, rfl, -, -⟩
      · exact history_toReport_of_trails htrails
      · rfl
  | queueUp => rfl
  | unlock | unlockFree => exact history_toReport_unlock hshape
  | closeGuard => exact history_report (.inl hshape.of_closeGuard.2.1)
  | seize => exact history_toReport_of_trails hshape.trails_of_seize
  | pass | report => cases hi
  | wait | transact => exact absurd rfl (hne _ _ _)

/-- What stands behind a suspension is no report of an operation on a queue. -/
theorem history_toReport_suspend {h : HandleId} {w : Option Place}
    (hshape : S.Shape step t (.suspend h w :: code)) : S.history q (toReport t step code) = [] := by
  cases hshape with
  | trailing h => exact absurd (trails_cons.1 h).1 id
  | told _ h => exact history_toReport_of_trails h
  | locking | waiting | waitingRaw | queueing => rfl

/-- A transaction takes effect when it comes to its result. -/
theorem Transacts.advances {q' : QueueId} {path : Path} {tr : Transaction α} {r : Result α}
    (hfits : M.Fits S) (hs : S.Serves step path q' tr) (h : Transacts M q' tr M' r) :
    Calls.Advances (M.queue q).values.toList (S.history q M.log) (M'.queue q).values.toList
      (S.history q M'.log ++ S.history q [.finished t step path r]) := by
  obtain ⟨verb, hcall, hverb⟩ := hs.called
  obtain ⟨hagrees, heffect⟩ := h.agrees hverb
  have hchanges := h.changes (t := t) hfits hs.lt
  rw [history_log_of_changes hchanges, history_finished hcall hagrees]
  split
  · rename_i hqq
    subst hqq
    rw [heffect]
    exact .call hagrees
  · rename_i hqq
    have hsame : M'.queue q = M.queue q := by
      refine hchanges.queue_eq ?_
      rintro e he rfl
      exact hqq he.symm
    rw [hsame, List.append_nil]
    exact .same

/-- An instruction that brings no operation to its result leaves queues and histories alone. -/
theorem Stroke.quiet (hq : q < S.queues) (hfits : M.Fits S)
    (hshape : S.Shape (M.thread t).step t (i :: code)) (h : S.Stroke M t i M' (.goOn more))
    (hi : i.decides = false) : M'.queue q = M.queue q ∧
      S.history q M'.log ++ S.history q (toReport t (M.thread t).step (more ++ code)) =
        S.history q M.log ++ S.history q (toReport t (M.thread t).step (i :: code)) := by
  cases i with
  | start | transact => cases hi
  | suspend v w =>
      cases h with
      | pass =>
          rw [List.nil_append, history_toReport_suspend hshape]
          exact ⟨rfl, rfl⟩
  | report path r =>
      cases h with
      | report =>
          have hrest := history_toReport_of_trails (t := t) (q := q) hshape.trails_of_report
          rw [List.nil_append, hrest, List.append_nil, toReport_report, ← history_append]
          exact ⟨rfl, rfl⟩
  | lock | unlock | closeGuard | seize =>
      have haway := h.isAway hq hfits hshape rfl (by simp) (by simp)
      rw [haway.queue_eq fun _ he => he.1, history_log_of_changes haway,
        h.history_toReport hshape rfl (by simp) (by simp)]
      exact ⟨rfl, rfl⟩

/-- A stroke adds at most one operation to the history of a queue, just when it takes effect. -/
theorem Stroke.advances (hq : q < S.queues) (hfits : M.Fits S)
    (hshape : S.Shape (M.thread t).step t (i :: code)) (h : S.Stroke M t i M' (.goOn more))
    (hi : i.decides = true) :
    Calls.Advances (M.queue q).values.toList (S.history q M.log) (M'.queue q).values.toList
      (S.history q M'.log ++ S.history q (toReport t (M.thread t).step (more ++ code))) := by
  cases i with
  | start path op =>
      cases h with
      | start h => exact h.advances hq
  | transact q' path tr =>
      cases h with
      | @wait _ _ _ side =>
          have hleave := leave_changes M (S.condition q' side) (S.mutex q') t
          rw [hleave.queue_eq (by rintro e (rfl | rfl | rfl) <;> simp),
            history_log_of_changes hleave]
          exact .silent rfl
      | transact h => exact h.advances hfits hshape.of_transact.1
  | _ => cases hi

/-! ### Ticks -/

theorem unreported_of_ready {others : List ThreadId} (hready : M.ready = t :: others) :
    M.unreported = toReport t (M.thread t).step (M.thread t).code := by
  simp [unreported, hready]

/-- The thread that ran goes on with other code. -/
theorem unreported_setCode {ready : List ThreadId} (hthreads : M'.threads = M.threads)
    (hready : M'.ready = t :: ready) :
    (M'.setCode t code).unreported = toReport t (M.thread t).step code := by
  have hready' : (M'.setCode t code).ready = t :: ready := hready
  have hthread : M'.thread t = M.thread t := thread_congr hthreads t
  rw [unreported_of_ready hready', thread_setCode, if_pos rfl, hthread]

/-- A thread that has stopped has nothing to report. -/
theorem toReport_of_stop {u : ThreadId} {s : Stop} (h : M.stop? u = some s) :
    toReport u step (M.thread u).code = [] := by
  cases hcode : (M.thread u).code with
  | nil => rfl
  | cons i code =>
      rw [stop?_of_code hcode] at h
      cases i with
      | suspend | seize => rfl
      | _ => simp [Instr.stop?] at h

/-- Nothing is left to report when a thread stops. -/
theorem unreported_behind (ho : M.Orderly) (h : M.Halts t M') : M'.unreported = [] := by
  cases hready : M'.ready with
  | nil => simp [unreported, hready]
  | cons u others =>
      obtain ⟨s, hs⟩ := ho.of_behind u (by simp [h.ready, hready])
      rw [unreported_of_ready hready, h.thread, toReport_of_stop hs]

/-- Nothing is left to report by a thread that stops. -/
theorem unreported_of_halts (h : M.Halts t M') : M.unreported = [] := by
  rw [unreported_of_ready h.ready]
  rcases h.stopped with hidle | ⟨s, hs⟩
  · rw [hidle.1, toReport_nil]
  · exact toReport_of_stop hs

/-- A thread that stops adds nothing. -/
theorem calls_of_halts (ho : M.Orderly) (h : M.Halts t M') : S.calls q M' = S.calls q M := by
  rw [calls, calls, unreported_of_halts h, unreported_behind ho h, h.log]

/-- What the thread that runs does is told by `Stroke`. -/
theorem Sound.stroke {others : List ThreadId} (h : S.Sound M) (hready : M.ready = t :: others)
    (hcode : (M.thread t).code = i :: code) :
    S.Stroke M t i (M.execute t i).1 (M.execute t i).2 := by
  have hshape : S.Shape (M.thread t).step t (i :: code) := hcode ▸ (h.shaped t).code
  refine execute_stroke h.fits hshape ?_
  rintro q path tr rfl
  rw [h.guarded.owner q hshape.of_transact.1.lt, holder_of_ready hready, hcode]
  simp [IsInside]

/-- Giving up an operation leaves queues and histories alone. -/
theorem quiet_of_unwind {others : List ThreadId} {message : String} (hs : S.Sound M)
    (hready : M.ready = t :: others) (hcode : (M.thread t).code = i :: code)
    (hstroke : S.Stroke M t i M' (.unwind message)) :
    M'.queue q = M.queue q ∧ S.calls q (M'.setCode t
      (cleanup code ++ [.report [(M.thread t).top] (.panicked message)])) = S.calls q M := by
  have hshape : S.Shape (M.thread t).step t (i :: code) := hcode ▸ (hs.shaped t).code
  have hthreads := hstroke.threads hs.fits hshape
  obtain ⟨behind, hready'⟩ := hstroke.ready_behind hs.fits hshape hready
  have htrails : S.Trails (M.thread t).step
      (cleanup code ++ [.report [(M.thread t).top] (.panicked message)]) :=
    (hstroke.trails_of_unwind hshape).givenUp _ _
  rw [calls, calls, unreported_of_ready hready, unreported_setCode hthreads hready', hcode,
    history_toReport_of_trails htrails]
  cases hstroke with
  | start h =>
      cases h with
      | unwind => exact ⟨rfl, rfl⟩
      | @release m =>
          have hc := free_changes t M m
          refine ⟨hc.queue_eq (by rintro e (rfl | rfl) <;> simp), ?_⟩
          show S.history q (M.free m).log ++ [] = S.history q M.log ++ []
          rw [history_log_of_changes hc]

/-- What a tick can do to a queue and its history: nothing, unless the thread that runs begins an
operation or performs a transaction. -/
theorem Sound.quiet_or (hq : q < S.queues) (hs : S.Sound M) :
    (M.tick.queue q = M.queue q ∧ S.calls q M.tick = S.calls q M) ∨
      ∃ t i code N more, (M.thread t).code = i :: code ∧ i.decides = true ∧
        M.execute t i = (N, .goOn more) ∧ S.Stroke M t i N (.goOn more) ∧
        M.tick.queue q = N.queue q ∧ S.calls q M = S.history q M.log ∧
        S.calls q M.tick =
          S.history q N.log ++ S.history q (toReport t (M.thread t).step (more ++ code)) := by
  rcases hready : M.ready with _ | ⟨t, others⟩
  · have hsame : M.tick = M := by simp only [Machine.tick, hready]
    exact .inl ⟨by rw [hsame], by rw [hsame]⟩
  rcases hcode : (M.thread t).code with _ | ⟨i, code⟩
  · rcases hpending : (M.thread t).pending with _ | ⟨⟨j, op⟩, pending⟩
    · have hhalts : M.Halts t { M with ready := others } := .finish hready ⟨hcode, hpending⟩
      have htick : M.tick = { M with ready := others } := by
        simp only [Machine.tick, hready, hcode, hpending]
      rw [htick]
      exact .inl ⟨rfl, calls_of_halts hs.orderly hhalts⟩
    · have htick : M.tick = M.setThread t { M.thread t with
          code := [.start [j] op], pending, top := j } := by
        simp only [Machine.tick, hready, hcode, hpending]
      have hready' : M.tick.ready = t :: others := by rw [htick]; exact hready
      refine .inl ⟨by rw [htick]; rfl, ?_⟩
      rw [calls, calls, unreported_of_ready hready, unreported_of_ready hready', htick,
        thread_setThread, if_pos rfl, hcode]
      rfl
  have hshape : S.Shape (M.thread t).step t (i :: code) := hcode ▸ (hs.shaped t).code
  have hstroke := hs.stroke hready hcode
  rcases he : M.execute t i with ⟨N, more | - | message⟩ <;> rw [he] at hstroke
  · have htick : M.tick = N.setCode t (more ++ code) := by
      simp only [Machine.tick, hready, hcode, he]
    have hthreads := hstroke.threads hs.fits hshape
    obtain ⟨behind, hready'⟩ := hstroke.ready_behind hs.fits hshape hready
    have hcalls : S.calls q M =
        S.history q M.log ++ S.history q (toReport t (M.thread t).step (i :: code)) := by
      rw [calls, unreported_of_ready hready, hcode]
    have hcalls' : S.calls q M.tick =
        S.history q N.log ++ S.history q (toReport t (M.thread t).step (more ++ code)) := by
      rw [htick, calls, unreported_setCode hthreads hready']
      rfl
    cases hi : i.decides with
    | false =>
        obtain ⟨hqueue, hsame⟩ := hstroke.quiet hq hs.fits hshape hi
        exact .inl ⟨by rw [htick]; exact hqueue, by rw [hcalls', hcalls, hsame]⟩
    | true =>
        have hnone : toReport t (M.thread t).step (i :: code) = [] := by
          cases i with
          | start | transact => rfl
          | _ => cases hi
        rw [hnone, history_nil, List.append_nil] at hcalls
        exact .inr ⟨t, i, code, N, more, hcode, hi, he, hstroke, by rw [htick]; rfl, hcalls,
          hcalls'⟩
  · have htick : M.tick = { N with ready := N.ready.tail } := by
      simp only [Machine.tick, hready, hcode, he]
    have hhalts : M.Halts t { N with ready := N.ready.tail } := hstroke.halts hready hcode
    rw [htick]
    exact .inl ⟨hhalts.queue q, calls_of_halts hs.orderly hhalts⟩
  · have htick : M.tick = N.setCode t
        (cleanup code ++ [.report [(M.thread t).top] (.panicked message)]) := by
      simp only [Machine.tick, hready, hcode, he]
    have hquiet := quiet_of_unwind (q := q) hs hready hcode hstroke
    rw [htick]
    exact .inl hquiet

/-- **A tick adds at most one operation to the history of a queue, just when it takes effect.** -/
theorem Sound.advances (hq : q < S.queues) (hs : S.Sound M) :
    Calls.Advances (M.queue q).values.toList (S.calls q M) (M.tick.queue q).values.toList
      (S.calls q M.tick) := by
  rcases hs.quiet_or hq with
    ⟨hqueue, hcalls⟩ | ⟨t, i, code, N, more, hcode, hi, -, hstroke, hqueue, hcalls, hcalls'⟩
  · rw [hqueue, hcalls]
    exact .same
  · rw [hqueue, hcalls, hcalls']
    exact hstroke.advances hq hs.fits (hcode ▸ (hs.shaped t).code) hi

end Setting

/-! ### Throughout a scenario -/

namespace Scenario

open Machine Setting

variable {s : Scenario} {k : Nat} {past : List (Entry Json)} {M : Machine Json} {q : QueueId}

/-- The values of a queue before the first step. -/
def initial (s : Scenario) (q : QueueId) : List Json := (s.start.1.queue q).values.toList

theorem unreported_of_over (still : M.ready = []) : M.unreported = [] := by
  simp [unreported, still]

/-- Nothing is left to report when a step begins. -/
theorem unreported_of_begin {t : ThreadId} {ops? : Option (List (Op Json))} (still : M.ready = []) :
    (M.begin t k ops?).unreported = [] := by
  cases ops? with
  | none => exact unreported_of_over still
  | some ops =>
      have hready : (M.begin t k (some ops)).ready = [t] := by
        show M.ready ++ [t] = [t]
        rw [still, List.nil_append]
      have hcode : ((M.begin t k (some ops)).thread t).code = [] := by
        show (({ M with log := [] } : Machine Json).give t k ops |>.thread t).code = []
        rw [thread_give, if_pos rfl]
      rw [unreported_of_ready hready, hcode]
      rfl

/-- An order adds nothing to the history. -/
theorem calls_of_begin {t : ThreadId} {ops? : Option (List (Op Json))} (still : M.ready = []) :
    s.setting.calls q (M.begin t k ops?) = [] := by
  rw [calls, unreported_of_begin still]
  cases ops? <;> rfl

theorem Reaches.records (h : s.Reaches k past M) (hq : q < s.start.1.queues.size) :
    Calls.Records (s.initial q) (s.setting.history q past ++ s.setting.calls q M)
      (M.queue q).values.toList := by
  induction h with
  | start =>
      have hfresh := s.start_new.fresh
      have hnone : s.setting.calls q s.start.1 = [] := by
        rw [calls, unreported_of_over hfresh.ready, hfresh.log]
        rfl
      rw [hnone]
      exact ⟨trivial, rfl⟩
  | tick h ih => exact ih.advance ((h.sound.advances hq).behind _)
  | @order k past M name order t h still hstep ht idle ih =>
      rw [calls, unreported_of_over still, history_nil, List.append_nil, ← history_append] at ih
      rw [calls_of_begin still, List.append_nil]
      cases order.ops? <;> exact ih
  | refuse _ _ _ _ ih => exact ih

end Scenario

end BlockingSync
