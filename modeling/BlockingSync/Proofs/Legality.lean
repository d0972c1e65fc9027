/-
The history of a queue is legal.

An operation whose name means nothing comes to no queue, and the history leaves it out.  A
name loses its meaning only in an operation that reports this before anything else begins;
so whoever says that the name of a queue means nothing stands behind the report that
dropped it.  Together with the records of the history that is all a queue may say.
-/
import BlockingSync.Proofs.History

namespace BlockingSync

variable {α : Type}

namespace Setting

open Machine

variable (S : Setting α)

/-- Whether a line of the log reports that the object of a name was dropped. -/
def Dropped (name : String) : Entry α → Prop
  | .finished _ step path (.dropped _) => S.find? step path = some (.drop name)
  | _ => False

/-- Whether a line of the log reports that an operation on a queue did not come to it, since its
name meant nothing. -/
def Missed (q : QueueId) (name : String) : Entry α → Prop
  | .finished _ step path .noSuchObject =>
    S.origin.object? name = some (.queue q) ∧
      ∃ verb, S.find? step path = some (.onObject name verb)
  | _ => False

/-- Whether all operations that did not come to a queue stand behind the report that dropped it. -/
def DropsFirst (q : QueueId) (lines : List (Entry α)) : Prop :=
  ∀ before line after name, lines = before ++ line :: after → S.Missed q name line →
    ∃ drop ∈ before, S.Dropped name drop

/-- What a tick does to names and to the log, with the lines that are certain to come next.  Only
what was certain is reported; a name loses its meaning together with the certainty that this is
reported; and that it has none becomes certain only where that is so. -/
structure Tells (q : QueueId) (M : Machine α) (due : List (Entry α)) (M' : Machine α)
    (due' : List (Entry α)) : Prop where
  log : ∃ lines, M'.log = M.log ++ lines ∧ ∀ line ∈ lines, line.isFinished = false ∨ line ∈ due
  kept : ∀ line ∈ due, line ∈ M'.log ∨ line ∈ due'
  dropped : ∀ name, M'.object? name = none →
    M.object? name = none ∨ ∃ line ∈ due', S.Dropped name line
  missed : ∀ name, ∀ line ∈ due', S.Missed q name line →
    line ∈ due ∨ due = [] ∧ M.object? name = none

variable {S} {M M' : Machine α} {t : ThreadId} {q : QueueId} {i : Instr α}
  {code more : List (Instr α)} {step : Nat} {name : String} {line : Entry α}
  {due due' lines lines' : List (Entry α)}

theorem Missed.isFinished (h : S.Missed q name line) : line.isFinished = true := by
  cases line with
  | finished => rfl
  | _ => exact absurd h id

/-- The operation that was missed is one on the queue. -/
theorem Missed.called {path : Path} {r : Result α} (h : S.Missed q name (.finished t step path r)) :
    r = .noSuchObject ∧ ∃ verb, S.call? step path = some (q, verb) := by
  cases r with
  | noSuchObject =>
      obtain ⟨hname, verb, hfind⟩ := h
      exact ⟨rfl, verb, call?_of_queue hfind hname⟩
  | _ => exact absurd h id

theorem Missed.named (h : S.Missed q name line) : S.origin.object? name = some (.queue q) := by
  cases line with
  | finished t step path r =>
      cases r with
      | noSuchObject => exact h.1
      | _ => exact absurd h id
  | _ => exact absurd h id

/-- What is said where no operation on a queue stands misses none. -/
theorem not_missed_of_call? {path : Path} {r : Result α}
    (h : S.call? step path = none ∨ ∃ message, r = .panicked message) :
    ¬ S.Missed q name (.finished t step path r) := by
  intro hmissed
  obtain ⟨rfl, verb, hcall⟩ := hmissed.called
  rcases h with h | ⟨message, h⟩
  · rw [h] at hcall
    cases hcall
  · cases h

theorem not_missed_of_trails (h : S.Trails step code) (hline : line ∈ toReport t step code) :
    ¬ S.Missed q name line := by
  unfold toReport at hline
  split at hline
  · obtain rfl := List.mem_singleton.1 hline
    exact not_missed_of_call? (trails_cons.1 h).1
  · obtain rfl := List.mem_singleton.1 hline
    exact not_missed_of_call? (trails_cons.1 (trails_cons.1 h).2).1
  · cases hline

/-! ### Lines in order -/

/-- Lines that miss an operation may follow once the queue was dropped. -/
theorem DropsFirst.append (h : S.DropsFirst q lines)
    (hnew : ∀ name, ∀ line ∈ lines', S.Missed q name line → ∃ drop ∈ lines, S.Dropped name drop) :
    S.DropsFirst q (lines ++ lines') := by
  intro before line after name heq hmissed
  rcases List.append_eq_append_iff.1 heq with ⟨between, rfl, hlines'⟩ | ⟨rest, hlines, hrest⟩
  · obtain ⟨drop, hmem, hdrop⟩ := hnew name line (by simp [hlines']) hmissed
    exact ⟨drop, List.mem_append_left _ hmem, hdrop⟩
  · cases rest with
    | nil =>
        have hrest : line :: after = lines' := hrest
        rw [List.append_nil] at hlines
        exact hlines ▸ hnew name line (hrest ▸ List.mem_cons_self) hmissed
    | cons first rest =>
        obtain ⟨rfl, -⟩ := List.cons.inj hrest
        exact h before _ rest name hlines hmissed

/-! ### Strokes -/

/-- Names keep their meaning, and what is certain to come next misses no operation anew. -/
theorem Tells.of_names (hnames : M'.names = M.names)
    (hlog : ∃ lines, M'.log = M.log ++ lines ∧ ∀ line ∈ lines, line.isFinished = false)
    (hkept : ∀ line ∈ due, line ∈ due')
    (hmissed : ∀ name, ∀ line ∈ due', S.Missed q name line → line ∈ due) :
    S.Tells q M due M' due' := by
  obtain ⟨lines, heq, hlines⟩ := hlog
  refine ⟨⟨lines, heq, ?_⟩, ?_, ?_, ?_⟩
  · intro line hline
    exact .inl (hlines line hline)
  · intro line hline
    exact .inr (hkept line hline)
  · intro name hlost
    exact .inl (by simpa only [object?, hnames] using hlost)
  · intro name line hline hm
    exact .inl (hmissed name line hline hm)

theorem Tells.setCode (h : S.Tells q M due M' due') : S.Tells q M due (M'.setCode t code) due' :=
  ⟨h.log, h.kept, h.dropped, h.missed⟩

/-- An operation that begins says that its name means nothing only where that is so. -/
theorem Begins.object?_of_missed {path : Path} {op : Op α}
    (h : S.Begins M t step path op M' (.goOn more)) (hline : line ∈ toReport t step (more ++ code))
    (hmissed : S.Missed q name line) : M.object? name = none := by
  cases h with
  | calm _ ho =>
      cases ho with
      | answer hr =>
          obtain rfl := List.mem_singleton.1 hline
          obtain ⟨rfl, verb, hcall⟩ := hmissed.called
          obtain ⟨-, verb', hfind⟩ := hmissed
          rcases hr q verb hcall with ⟨-, lost, verb'', hfind', hlost⟩ | ⟨hagrees, -⟩
          · rw [hfind] at hfind'
            cases hfind'
            exact hlost
          · exact absurd rfl hagrees.ne_noSuchObject
      | _ => cases hline
  | forget _ hcall | resumes _ _ hcall =>
      obtain rfl := List.mem_singleton.1 hline
      exact absurd hmissed (not_missed_of_call? (.inl hcall))
  | release _ _ hcall hn =>
      rcases hn with ⟨r, hn⟩ | ⟨message, hn⟩
      · obtain rfl := Next.goOn.inj hn
        obtain rfl := List.mem_singleton.1 hline
        exact absurd hmissed (not_missed_of_call? (.inl hcall))
      · cases hn
  | wait | waitRaw => cases hline

/-- A name loses its meaning in an operation that says so next. -/
theorem Begins.dropped {path : Path} {op : Op α} (hfind : S.find? step path = some op)
    (h : S.Begins M t step path op M' (.goOn more)) (hlost : M'.object? name = none) :
    M.object? name = none ∨ ∃ line ∈ toReport t step (more ++ code), S.Dropped name line := by
  rcases h.names with hnames | ⟨dropped, leak, rfl, rfl, hnext⟩
  · exact .inl (by simpa only [object?, hnames] using hlost)
  · obtain rfl := Next.goOn.inj hnext
    by_cases hname : name = dropped
    · subst hname
      exact .inr ⟨_, List.mem_singleton_self _, hfind⟩
    · exact .inl (by rwa [object?_forget_ne hname] at hlost)

theorem Begins.tells {path : Path} {op : Op α} (hq : q < S.queues)
    (hfind : S.find? step path = some op) (h : S.Begins M t step path op M' (.goOn more)) :
    S.Tells q M [] M' (toReport t step (more ++ code)) := by
  obtain ⟨lines, hlog, hlines⟩ := (h.isAway hq).log
  refine ⟨⟨lines, hlog, ?_⟩, by simp, ?_, ?_⟩
  · intro line hline
    exact .inl (hlines line hline)
  · intro name hlost
    exact h.dropped hfind hlost
  · intro name line hline hmissed
    exact .inr ⟨rfl, h.object?_of_missed hline hmissed⟩

/-- The release of a mutex says nothing that was not certain. -/
theorem tells_of_unlock {m : MutexId} (hshape : S.Shape step t (.unlock m :: code))
    (h : Changes (fun e => e = .own m none ∨ e = .wake (.mutex m)) t M M') :
    S.Tells q M (toReport t step (.unlock m :: code)) M' (toReport t step code) := by
  refine .of_names (h.names (by rintro e (rfl | rfl) <;> simp)) h.log ?_ ?_
  · intro line hline
    cases code with
    | nil => cases hline
    | cons j code =>
        cases j with
        | report path r => exact hline
        | _ => cases hline
  · intro name line hline hmissed
    rcases hshape.of_unlock with ⟨-, htrails⟩ | ⟨q', path, r, rest, -, -, rfl, -⟩
    · exact absurd hmissed (not_missed_of_trails htrails hline)
    · exact hline

/-- No other instruction makes it certain that an operation was missed. -/
theorem Stroke.not_missed (hshape : S.Shape step t (i :: code))
    (h : S.Stroke M t i M' (.goOn more)) (hstart : ∀ path op, i ≠ .start path op)
    (hunlock : ∀ m, i ≠ .unlock m) (name : String) :
    ∀ line ∈ toReport t step (more ++ code), ¬ S.Missed q name line := by
  intro line hline
  cases h with
  | start => exact absurd rfl (hstart _ _)
  | unlock | unlockFree => exact absurd rfl (hunlock _)
  | claim =>
      rcases hshape.of_lock with ⟨-, htrails⟩ | ⟨q', path, tr, rest, -, rfl, -, -⟩
      · exact not_missed_of_trails htrails hline
      · cases hline
  | queueUp | wait => cases hline
  | closeGuard =>
      obtain rfl := List.mem_singleton.1 hline
      exact not_missed_of_call? (.inl hshape.of_closeGuard.2.1)
  | seize => exact not_missed_of_trails hshape.trails_of_seize hline
  | report => exact not_missed_of_trails hshape.trails_of_report hline
  | pass =>
      cases hshape with
      | trailing h => exact absurd (trails_cons.1 h).1 id
      | told _ h => exact not_missed_of_trails h hline
      | locking | waiting | waitingRaw | queueing => cases hline
  | transact h =>
      obtain rfl := List.mem_singleton.1 hline
      obtain ⟨verb, -, hverb⟩ := hshape.of_transact.1.called
      intro hmissed
      exact (h.agrees hverb).1.ne_noSuchObject hmissed.called.1

/-- **An instruction says nothing but what was certain, and makes certain only what is so.** -/
theorem Stroke.tells (hq : q < S.queues) (hfits : M.Fits S)
    (hshape : S.Shape (M.thread t).step t (i :: code)) (h : S.Stroke M t i M' (.goOn more)) :
    S.Tells q M (toReport t (M.thread t).step (i :: code)) M'
      (toReport t (M.thread t).step (more ++ code)) := by
  cases i with
  | start path op =>
      cases h with
      | start h => exact h.tells hq hshape.trails_of_start.1
  | report path r =>
      have hmissed := h.not_missed (q := q) hshape (by simp) (by simp)
      cases h with
      | report =>
          refine ⟨⟨_, rfl, ?_⟩, ?_, fun name => .inl, ?_⟩
          · intro line hline
            exact .inr hline
          · intro line hline
            exact .inl (List.mem_append_right _ hline)
          · intro name line hline hm
            exact absurd hm (hmissed name line hline)
  | unlock m =>
      cases h with
      | unlock => exact tells_of_unlock hshape (free_changes t M m)
      | unlockFree => exact tells_of_unlock hshape .refl
  | suspend v w =>
      have hmissed := h.not_missed (q := q) hshape (by simp) (by simp)
      cases h with
      | pass =>
          refine .of_names rfl ⟨[], (List.append_nil _).symm, by simp⟩ (by simp [toReport]) ?_
          intro name line hline hm
          exact absurd hm (hmissed name line hline)
  | lock | closeGuard | seize | transact =>
      have hmissed := h.not_missed (q := q) hshape (by simp) (by simp)
      refine .of_names (h.names hfits hshape (by simp))
        (h.changes hfits hshape rfl (by simp)).log (by simp [toReport]) ?_
      intro name line hline hm
      exact absurd hm (hmissed name line hline)

/-! ### Ticks -/

/-- A thread that stops tells nothing. -/
theorem Tells.of_halts (ho : M.Orderly) (h : M.Halts t M') (hnames : M'.names = M.names) :
    S.Tells q M M.unreported M' M'.unreported := by
  rw [unreported_of_halts h, unreported_behind ho h]
  exact .of_names hnames ⟨[], by simp [h.log], by simp⟩ (by simp) (by simp)

/-- What an operation that is given up tells. -/
theorem Stroke.tells_of_unwind {message : String} (hshape : S.Shape step t (i :: code))
    (h : S.Stroke M t i M' (.unwind message)) : S.Tells q M (toReport t step (i :: code)) M'
      (toReport t step (cleanup code ++ [.report [(M.thread t).top] (.panicked message)])) := by
  have htrails : S.Trails step
      (cleanup code ++ [.report [(M.thread t).top] (.panicked message)]) :=
    (h.trails_of_unwind hshape).givenUp _ _
  have hmissed : ∀ name, ∀ line ∈ toReport t step
      (cleanup code ++ [.report [(M.thread t).top] (.panicked message)]), S.Missed q name line →
        line ∈ ([] : List (Entry α)) := by
    intro name line hline hm
    exact absurd hm (not_missed_of_trails htrails hline)
  cases h with
  | start h =>
      cases h with
      | unwind => exact .of_names rfl ⟨[], by simp, by simp⟩ (by simp [toReport]) hmissed
      | @release m =>
          have hfree := free_changes t M m
          exact .of_names (hfree.names (by rintro e (rfl | rfl) <;> simp)) hfree.log
            (by simp [toReport]) hmissed

theorem Turn.tells (hq : q < S.queues) (hs : S.Sound M) (h : S.Turn M M') :
    S.Tells q M M.unreported M' M'.unreported := by
  cases h with
  | still => exact .of_names rfl ⟨[], by simp, by simp⟩ (fun _ => id) fun _ _ hline _ => hline
  | finish hready hidle => exact .of_halts hs.orderly (.finish hready hidle) rfl
  | @next t others j op pending hready hcode hpending =>
      have hready' : (M.setThread t { M.thread t with
          code := [.start [j] op], pending, top := j }).ready = t :: others := hready
      rw [unreported_of_ready hready, hcode, unreported_of_ready hready', thread_setThread,
        if_pos rfl]
      exact .of_names rfl ⟨[], by simp; rfl, by simp⟩ (by simp) (by simp [toReport])
  | @goOn t others i code N more hready hcode hstroke =>
      have hshape : S.Shape (M.thread t).step t (i :: code) := hcode ▸ (hs.shaped t).code
      obtain ⟨behind, hready'⟩ := hstroke.ready_behind hs.fits hshape hready
      rw [unreported_of_ready hready, hcode,
        unreported_setCode (hstroke.threads hs.fits hshape) hready']
      exact (hstroke.tells hq hs.fits hshape).setCode
  | park hready hcode hstroke =>
      exact .of_halts hs.orderly (hstroke.halts hready hcode) (hstroke.stays (.inr rfl)).names
  | @unwind t others i code N message hready hcode hstroke =>
      have hshape : S.Shape (M.thread t).step t (i :: code) := hcode ▸ (hs.shaped t).code
      obtain ⟨behind, hready'⟩ := hstroke.ready_behind hs.fits hshape hready
      rw [unreported_of_ready hready, hcode,
        unreported_setCode (hstroke.threads hs.fits hshape) hready']
      exact (hstroke.tells_of_unwind hshape).setCode

variable (S) in
/-- What the log says about names: it reports, or is certain to report next, every drop of a queue,
and says that an operation was missed only behind that. -/
structure Remembers (q : QueueId) (past : List (Entry α)) (M : Machine α) : Prop where
  dropped : ∀ name, S.origin.object? name = some (.queue q) → M.object? name = none →
    ∃ drop ∈ past ++ M.log ++ M.unreported, S.Dropped name drop
  missed : ∀ name, ∀ line ∈ M.unreported, S.Missed q name line →
    ∃ drop ∈ past ++ M.log, S.Dropped name drop
  ordered : S.DropsFirst q (past ++ M.log)

/-- **The log goes on to remember.** -/
theorem Remembers.tells {past : List (Entry α)} (h : S.Remembers q past M)
    (ht : S.Tells q M M.unreported M' M'.unreported) : S.Remembers q past M' := by
  obtain ⟨lines, hlog, hlines⟩ := ht.log
  have hpast : past ++ M'.log = past ++ M.log ++ lines := by rw [hlog, List.append_assoc]
  have hmem : ∀ line ∈ past ++ M.log, line ∈ past ++ M'.log := by
    intro line hline
    rw [hpast]
    exact List.mem_append_left _ hline
  refine ⟨?_, ?_, ?_⟩
  · intro name hname hlost
    rcases ht.dropped name hlost with hlost | ⟨drop, hdrop, hd⟩
    · obtain ⟨drop, hdrop, hd⟩ := h.dropped name hname hlost
      refine ⟨drop, ?_, hd⟩
      rcases List.mem_append.1 hdrop with hdrop | hdrop
      · exact List.mem_append_left _ (hmem drop hdrop)
      · rcases ht.kept drop hdrop with hdrop | hdrop
        · exact List.mem_append_left _ (List.mem_append_right _ hdrop)
        · exact List.mem_append_right _ hdrop
    · exact ⟨drop, List.mem_append_right _ hdrop, hd⟩
  · intro name line hline hm
    rcases ht.missed name line hline hm with hline | ⟨hnone, hlost⟩
    · obtain ⟨drop, hdrop, hd⟩ := h.missed name line hline hm
      exact ⟨drop, hmem drop hdrop, hd⟩
    · obtain ⟨drop, hdrop, hd⟩ := h.dropped name hm.named hlost
      rw [hnone, List.append_nil] at hdrop
      exact ⟨drop, hmem drop hdrop, hd⟩
  · rw [hpast]
    refine h.ordered.append ?_
    intro name line hline hm
    have hdue : line ∈ M.unreported := (hlines line hline).resolve_left (by simp [hm.isFinished])
    exact h.missed name line hdue hm

end Setting

/-! ### Throughout a scenario -/

namespace Scenario

open Machine Setting

variable {s : Scenario} {k : Nat} {past : List (Entry Json)} {M : Machine Json} {q : QueueId}

theorem Reaches.remembers (h : s.Reaches k past M) (hq : q < s.start.1.queues.size) :
    s.setting.Remembers q past M := by
  induction h with
  | start =>
      have hfresh := s.start_new.fresh
      refine ⟨?_, ?_, ?_⟩
      · intro name hname hlost
        exact absurd (hname.symm.trans hlost) (by simp)
      · simp [unreported_of_over hfresh.ready]
      · intro before line after name heq
        simp [hfresh.log] at heq
  | tick h ih => exact ih.tells (h.sound.turn.tells hq h.sound)
  | @order k past M name order t h still hstep ht idle ih =>
      obtain ⟨hdropped, -, hordered⟩ := ih
      rw [unreported_of_over still, List.append_nil] at hdropped
      have hlog : (M.begin t k order.ops?).log = [] := by cases order.ops? <;> rfl
      have hobject : ∀ name, (M.begin t k order.ops?).object? name = M.object? name := by
        cases order.ops? <;> exact fun _ => rfl
      refine ⟨?_, by simp [unreported_of_begin still], ?_⟩
      · intro name hname hlost
        rw [hlog, unreported_of_begin still, List.append_nil, List.append_nil]
        exact hdropped name hname (hobject name ▸ hlost)
      · rwa [hlog, List.append_nil]
  | refuse _ _ _ _ ih => exact ih

/-- **The history of every queue is that of a plain list.**  When a step is over, every reported
operation on the queue had the right result when it took effect, the values are those that the
operations leave, one after the other, and what an observer sees are these values.  Unless the queue
was cleared, what was taken and what is left are, in order, the first values and those added.  Only
behind the report that the queue was dropped does an operation say that its name means nothing. -/
theorem history_legal (h : s.Reaches k past M) (still : M.ready = [])
    (hq : q < s.start.1.queues.size) :
    (s.setting.history q (past ++ M.log)).Legal (s.initial q) ∧
      (M.queue q).values.toList =
        Calls.outcome (s.initial q) (s.setting.history q (past ++ M.log)) ∧
      M.view (.queue q) = .queue (M.queue q).capacity.val
        (Calls.outcome (s.initial q) (s.setting.history q (past ++ M.log))) (M.queueWaiting q) ∧
      ((.clear, .done) ∉ s.setting.history q (past ++ M.log) →
        (s.setting.history q (past ++ M.log)).taken ++ (M.queue q).values.toList =
          s.initial q ++ (s.setting.history q (past ++ M.log)).added) ∧
      s.setting.DropsFirst q (past ++ M.log) := by
  have hrecords := h.records hq
  rw [calls, unreported_of_over still, history_nil, List.append_nil, ← history_append] at hrecords
  obtain ⟨hlegal, hvalues⟩ := hrecords
  refine ⟨hlegal, hvalues, ?_, fun hclear => ?_, (h.remembers hq).ordered⟩
  · rw [← hvalues]
    rfl
  · rw [hvalues]
    exact Calls.taken_append_outcome hlegal hclear

/-- A consumer that waits for two values, and a producer that drops the queue in the end. -/
def exchange : Scenario where
  tasks := ["consumer", "producer"]
  objects := [("q", .queue .unbounded)]
  steps := [("consumer", .run [.onObject "q" .pop, .onObject "q" .pop]),
    ("producer", .run [.onObject "q" (.push (.integer 1)), .onObject "q" (.push (.integer 2)),
      .onObject "q" (.push (.integer 3))]),
    ("producer", .run [.drop "q", .onObject "q" .length])]

/-- Its operations that came to the queue, as they took effect. -/
def exchanged : Calls Json :=
  [(.push (.integer 1), .done), (.push (.integer 2), .done), (.push (.integer 3), .done),
    (.pop, .taken (.integer 1)), (.pop, .taken (.integer 2))]

theorem history_legal_after_exchange : ∃ past, exchange.Reaches 3 past (exchange.after 3) ∧
    (exchange.after 3).ready = [] ∧
    exchange.setting.history 0 (past ++ (exchange.after 3).log) = exchanged ∧
    exchanged.Legal [] ∧
    ((exchange.after 3).queue 0).values.toList = [.integer 3] ∧
    Calls.outcome [] exchanged = [.integer 3] ∧
    exchanged.taken ++ [.integer 3] = exchanged.added ∧
    ∃ before missed, past ++ (exchange.after 3).log = before ++ [missed] ∧
      exchange.setting.Missed 0 "q" missed ∧
      ∃ drop ∈ before, exchange.setting.Dropped "q" drop := by
  have h₁ : exchange.Reaches 1 [] (exchange.after 1) :=
    (Reaches.start.order (t := 0) rfl rfl rfl rfl).settle _
  have h₂ : exchange.Reaches 2 (exchange.after 1).log (exchange.after 2) :=
    (h₁.order (t := 1) (by decide) rfl rfl rfl).settle _
  have h₃ : exchange.Reaches 3 ((exchange.after 1).log ++ (exchange.after 2).log)
      (exchange.after 3) :=
    (h₂.order (t := 1) (by decide) rfl rfl rfl).settle _
  have hhistory : exchange.setting.history 0
      ((exchange.after 1).log ++ (exchange.after 2).log ++ (exchange.after 3).log) = exchanged :=
    rfl
  have hvalues : ((exchange.after 3).queue 0).values.toList = [.integer 3] := rfl
  have hmissed : exchange.setting.Missed 0 "q" (.finished 1 2 [1] .noSuchObject) :=
    ⟨rfl, .length, rfl⟩
  have hlog : (exchange.after 1).log ++ (exchange.after 2).log ++ (exchange.after 3).log =
      ((exchange.after 1).log ++ (exchange.after 2).log ++ [.finished 1 2 [0] (.dropped none)]) ++
        [.finished 1 2 [1] .noSuchObject] := rfl
  obtain ⟨hlegal, houtcome, -, hkept, hdrops⟩ :=
    history_legal (q := 0) h₃ (by decide) (by decide)
  rw [hhistory] at hlegal houtcome hkept
  rw [hvalues] at houtcome hkept
  exact ⟨_, h₃, by decide, hhistory, hlegal, hvalues, houtcome.symm,
    hkept (by simp [exchanged]), _, _, hlog, hmissed, hdrops _ _ [] "q" hlog hmissed⟩

end Scenario

end BlockingSync
