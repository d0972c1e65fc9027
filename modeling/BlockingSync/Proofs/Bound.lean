/-
The bound of a queue.

Whether there is space is asked before a value is added, under the mutex and in the same
transaction; so it does not matter that a producer may have parked in between, or how
many of them were woken for one slot.  What is proved of a tick is that a value which it
adds had space under the bound then in force.  The bound in force is told by the history:
it is the one that the last successful `setCapacity` has set.

The rest is about histories alone.  A value that had space leaves the queue within its
bound, and all other operations leave it no longer than it was; so a queue within its
bound stays there until the bound is lowered, and one beyond it does not grow.
-/
import BlockingSync.Proofs.Passage
import Mathlib.Data.List.Induction

namespace BlockingSync

variable {α : Type}

/-! ### Bounds in a history -/

/-- The bound that an operation sets. -/
def Verb.bound? : Verb α → Result α → Option Word
  | .setCapacity bound, .ok => some bound
  | _, _ => none

/-- Whether there is space behind so many values.  Zero is no bound. -/
def Word.HasSpace (bound : Word) (length : Nat) : Prop := bound.val = 0 ∨ length < bound.val

/-- Whether so many values are within a bound.  Zero is no bound. -/
def Word.Admits (bound : Word) (length : Nat) : Prop := bound.val = 0 ∨ length ≤ bound.val

/-- Only an operation that adds a value makes the queue longer, and by one. -/
theorem Verb.length_effect_le (verb : Verb α) (r : Result α) (vs : List α) :
    (verb.effect r vs).length ≤ vs.length + (verb.added? r).toList.length := by
  fun_cases Verb.effect verb r vs with
  | case1 => simp [Verb.added?]
  | case2 | case3 | case4 =>
      rw [List.length_tail]
      omega
  | case5 | case6 => simp

/-- An operation that adds a value sets no bound. -/
theorem Verb.bound?_of_added {verb : Verb α} {r : Result α} {v : α} (h : verb.added? r = some v) :
    verb = .push v ∧ r = .done ∧ verb.bound? r = none := by
  cases verb with
  | push w =>
      cases r with
      | done => exact ⟨congrArg _ (Option.some.inj h), rfl, rfl⟩
      | _ => cases h
  | _ => cases h

theorem Verb.bound?_eq_some {verb : Verb α} {r : Result α} {bound : Word}
    (h : verb.bound? r = some bound) : verb = .setCapacity bound ∧ r = .ok := by
  cases verb with
  | setCapacity new =>
      cases r with
      | ok => exact ⟨congrArg _ (Option.some.inj h), rfl⟩
      | _ => cases h
  | _ => cases h

namespace Calls

/-- The bound that operations leave. -/
def bound (start : Word) (calls : Calls α) : Word :=
  calls.foldl (fun bound (verb, r) => (verb.bound? r).getD bound) start

/-- Whether every value was added when there was space. -/
def Heeds (start : Word) (vs : List α) (calls : Calls α) : Prop :=
  ∀ before v after, calls = before ++ (.push v, .done) :: after →
    (bound start before).HasSpace (outcome vs before).length

/-- Whether no operation lowers the bound.  A queue without a bound has the highest one. -/
def NeverLowers (start : Word) (calls : Calls α) : Prop :=
  ∀ before new after, calls = before ++ (.setCapacity new, .ok) :: after →
    0 < (bound start before).val ∧ (bound start before).val ≤ new.val

variable {start : Word} {vs : List α} {calls calls' : Calls α}

@[simp] theorem bound_nil : bound start ([] : Calls α) = start := rfl

@[simp] theorem outcome_nil : outcome vs ([] : Calls α) = vs := rfl

@[simp] theorem bound_append :
    bound start (calls ++ calls') = bound (bound start calls) calls' := by
  simp [bound]

theorem bound_snoc (verb : Verb α) (r : Result α) :
    bound start (calls ++ [(verb, r)]) = (verb.bound? r).getD (bound start calls) := by
  rw [bound_append]
  rfl

theorem outcome_snoc (verb : Verb α) (r : Result α) :
    outcome vs (calls ++ [(verb, r)]) = verb.effect r (outcome vs calls) := by
  rw [outcome_append]
  rfl

/-- Two stretches of a history, the second of which begins where the first has led. -/
theorem heeds_append : Heeds start vs (calls ++ calls') ↔
    Heeds start vs calls ∧ Heeds (bound start calls) (outcome vs calls) calls' := by
  constructor
  · intro h
    refine ⟨fun before v after heq => h before v (after ++ calls') (by simp [heq]), ?_⟩
    intro before v after heq
    have hwhole := h (calls ++ before) v after (by simp [heq])
    rwa [bound_append, outcome_append] at hwhole
  · rintro ⟨h, h'⟩ before v after heq
    rcases List.append_eq_append_iff.1 heq with ⟨rest, rfl, hrest⟩ | ⟨rest, rfl, hrest⟩
    · rw [bound_append, outcome_append]
      exact h' rest v after hrest
    · cases rest with
      | nil =>
          simpa using h' [] v after hrest.symm
      | cons call rest =>
          obtain ⟨rfl, -⟩ := List.cons.inj hrest
          exact h before v rest rfl

theorem neverLowers_append (h : NeverLowers start (calls ++ calls')) : NeverLowers start calls :=
  fun before new after heq => h before new (after ++ calls') (by simp [heq])

/-- An operation that adds no value, if it is the only one. -/
theorem heeds_singleton {verb : Verb α} {r : Result α}
    (h : verb.added? r ≠ none → start.HasSpace vs.length) : Heeds start vs [(verb, r)] := by
  intro before v after heq
  cases before with
  | nil =>
      obtain ⟨⟨rfl, rfl⟩, -⟩ : (verb = .push v ∧ r = .done) ∧ _ := by simpa using heq
      exact h (by simp [Verb.added?])
  | cons => simp at heq

/-- **Without a new bound a queue grows no further than to its bound.** -/
theorem length_outcome_le (h : Heeds start vs calls) (positive : 0 < start.val)
    (hsame : ∀ bound, (.setCapacity bound, .ok) ∉ calls) :
    (outcome vs calls).length ≤ max start.val vs.length ∧ bound start calls = start := by
  induction calls using List.reverseRecOn with
  | nil => exact ⟨Nat.le_max_right _ _, rfl⟩
  | append_singleton calls call ih =>
      obtain ⟨verb, r⟩ := call
      obtain ⟨hbefore, hlast⟩ := heeds_append.1 h
      obtain ⟨hlength, hbound⟩ := ih hbefore fun bound hmem =>
        hsame bound (List.mem_append_left _ hmem)
      have hkeeps : verb.bound? r = none := by
        cases hset : verb.bound? r with
        | none => rfl
        | some bound =>
            obtain ⟨rfl, rfl⟩ := Verb.bound?_eq_some hset
            exact absurd (List.mem_append_right _ (by simp)) (hsame bound)
      rw [outcome_snoc, bound_snoc, hkeeps]
      refine ⟨?_, hbound⟩
      have hgrowth := verb.length_effect_le r (outcome vs calls)
      cases hadd : verb.added? r with
      | none =>
          rw [hadd] at hgrowth
          exact Nat.le_trans hgrowth hlength
      | some v =>
          obtain ⟨rfl, rfl, -⟩ := Verb.bound?_of_added hadd
          have hspace := hlast [] v [] rfl
          simp only [bound_nil, hbound] at hspace
          have hlt := hspace.resolve_left (by omega)
          rw [hadd] at hgrowth
          exact Nat.le_trans hgrowth (Nat.le_trans hlt (Nat.le_max_left _ _))

/-- **A queue that is within its bound stays there until the bound is lowered.** -/
theorem admits_outcome (h : Heeds start vs calls) (hstart : start.Admits vs.length)
    (hraise : NeverLowers start calls) : (bound start calls).Admits (outcome vs calls).length := by
  induction calls using List.reverseRecOn with
  | nil => exact hstart
  | append_singleton calls call ih =>
      obtain ⟨verb, r⟩ := call
      obtain ⟨hbefore, hlast⟩ := heeds_append.1 h
      have hwithin := ih hbefore (neverLowers_append hraise)
      rw [outcome_snoc, bound_snoc]
      have hgrowth := verb.length_effect_le r (outcome vs calls)
      cases hadd : verb.added? r with
      | some v =>
          obtain ⟨rfl, rfl, hkeeps⟩ := Verb.bound?_of_added hadd
          rw [hadd] at hgrowth
          rw [hkeeps]
          exact (hlast [] v [] rfl).imp id (Nat.le_trans hgrowth ·)
      | none =>
          rw [hadd] at hgrowth
          cases hset : verb.bound? r with
          | none => exact hwithin.imp id (Nat.le_trans hgrowth ·)
          | some bound =>
              obtain ⟨rfl, rfl⟩ := Verb.bound?_eq_some hset
              obtain ⟨hpositive, hle⟩ := hraise calls bound [] rfl
              have hlength := hwithin.resolve_left (by omega)
              exact .inr (Nat.le_trans hgrowth (Nat.le_trans hlength hle))

end Calls

namespace Setting

open Machine

variable {S : Setting α} {M M' : Machine α} {t : ThreadId} {q : QueueId} {i : Instr α}
  {code more : List (Instr α)} {step : Nat}

/-! ### The bound in force -/

/-- A queue and what is new in its history: the bound is the one that the history tells, and a
value was added when there was space. -/
structure Bounds (s s' : Queue α) (new : Calls α) : Prop where
  bound : s'.capacity = Calls.bound s.capacity new
  heeds : Calls.Heeds s.capacity s.values.toList new

theorem Bounds.silent (s : Queue α) : Bounds s s [] :=
  ⟨rfl, fun before v after heq => by simp at heq⟩

/-- An operation that neither adds a value nor sets a bound. -/
theorem Bounds.of_neither {s s' : Queue α} {verb : Verb α} {r : Result α}
    (hcapacity : s'.capacity = s.capacity) (hbound : verb.bound? r = none)
    (hadd : verb.added? r = none) : Bounds s s' [(verb, r)] :=
  ⟨by simp [Calls.bound, hbound, hcapacity], Calls.heeds_singleton fun h => absurd hadd h⟩

theorem hasSpace_of_not_full {s : Queue α} (h : s.isFull = false) :
    s.capacity.HasSpace s.values.toList.length := by
  rw [WaitList.length_toList, Word.HasSpace]
  simp only [Queue.isFull, Bool.and_eq_false_iff, decide_eq_false_iff_not] at h
  omega

/-- A queue takes a new bound in a transaction only. -/
theorem perform_setCapacity (hfits : M.Fits S) {path : Path} {op : Op α} {capacity : Word}
    (hfind : S.find? step path = some op)
    (hcall : S.call? step path = some (q, .setCapacity capacity)) :
    M.perform t path op ≠ (M', .yield path .ok) := by
  unfold call? at hcall
  rw [hfind] at hcall
  split at hcall
  · rename_i name verb hop
    obtain rfl := Option.some.inj hop
    split at hcall
    · rename_i q' ho
      obtain ⟨rfl, rfl⟩ := Prod.mk.inj (Option.some.inj hcall)
      cases hname : M.object? name with
      | none => simp [perform, hname, Next.yield]
      | some o =>
          obtain rfl := Option.some.inj ((hfits.named name o hname).symm.trans ho)
          have hverb : transaction? (.setCapacity capacity : Verb α) = some (.resize capacity) :=
            rfl
          rcases perform_of_transaction hname hverb with he | ⟨_, -, -, he⟩ <;> rw [he]
          · simp [Next.yield]
          · simp [Next.yield]
    · cases hcall
  · cases hcall

/-- An operation that begins and gets its answer at once. -/
theorem Begins.bounds {path : Path} {op : Op α} (hq : q < S.queues) (hfits : M.Fits S)
    (hfind : S.find? step path = some op) (he : M.perform t path op = (M', .goOn more))
    (h : S.Begins M t step path op M' (.goOn more)) :
    ∃ new, S.history q M'.log ++ S.history q (toReport t step (more ++ code)) =
      S.history q M.log ++ new ∧ Bounds (M.queue q) (M'.queue q) new := by
  have haway := h.isAway hq
  rw [haway.queue_eq fun _ he => he.1, history_log_of_changes haway]
  refine ⟨_, rfl, ?_⟩
  have silent : ∀ {new : Calls α}, new = [] → Bounds (M.queue q) (M.queue q) new := by
    rintro _ rfl
    exact .silent _
  cases h with
  | calm _ ho =>
      cases ho with
      | @answer r hr =>
          rw [List.cons_append, toReport_report]
          cases hcall : S.call? step path with
          | none => exact silent (history_report (.inl hcall))
          | some call =>
              obtain ⟨q', verb⟩ := call
              obtain ⟨rfl, -⟩ | ⟨hagrees, heffect⟩ := hr q' verb hcall
              · exact silent history_missed
              rw [history_finished hcall hagrees]
              split
              · refine .of_neither rfl ?_ ?_
                · cases hset : verb.bound? r with
                  | none => rfl
                  | some capacity =>
                      obtain ⟨rfl, rfl⟩ := Verb.bound?_eq_some hset
                      exact absurd he (perform_setCapacity hfits hfind hcall)
                · cases hadd : verb.added? r with
                  | none => rfl
                  | some v =>
                      obtain ⟨rfl, rfl, -⟩ := Verb.bound?_of_added hadd
                      simpa [Verb.effect] using heffect []
              · exact .silent _
      | _ => exact silent rfl
  | forget _ hcall | resumes _ _ hcall => exact silent (history_report (.inl hcall))
  | release _ _ hcall hn =>
      rcases hn with ⟨r, hn⟩ | ⟨message, hn⟩
      · obtain rfl := Next.goOn.inj hn
        exact silent (history_report (.inl hcall))
      · cases hn
  | wait | waitRaw => exact silent rfl

/-- A transaction other than `setCapacity` leaves the bound alone, and adds a value only when there
is space. -/
theorem Transacts.bounds {tr : Transaction α} {r : Result α} {verb : Verb α}
    (h : Transacts M q tr M' r) (hverb : transaction? verb = some tr)
    (hresize : ∀ capacity, tr ≠ .resize capacity) :
    Bounds (M.queue q) (M'.queue q) [(verb, r)] := by
  have woken : ∀ (N : Machine α) (p : Place), (N.wakeOne p).1.queue q = N.queue q := fun N p =>
    (wakeOne_wakes 0 N p).queue_eq (by rintro e rfl; simp)
  have set : ∀ s : Queue α, (M.setQueue q s).queue q = s := fun s => Table.get_set_self ..
  have hbound : verb.bound? r = none := by
    cases hset : verb.bound? r with
    | none => rfl
    | some capacity =>
        obtain ⟨rfl, -⟩ := Verb.bound?_eq_some hset
        exact absurd (Option.some.inj hverb).symm (hresize capacity)
  have hadd : (∀ v, tr ≠ .add v) → verb.added? r = none := by
    intro hne
    cases hadd : verb.added? r with
    | none => rfl
    | some v =>
        obtain ⟨rfl, -⟩ := Verb.bound?_of_added hadd
        exact absurd (Option.some.inj hverb).symm (hne v)
  cases h with
  | ask hside => exact .of_neither rfl hbound (hadd (by rintro v rfl; cases hside))
  | add space =>
      refine ⟨?_, Calls.heeds_singleton fun _ => hasSpace_of_not_full space⟩
      rw [woken, set]
      simp [Calls.bound, hbound]
  | take htr =>
      refine .of_neither (by rw [set]) hbound (hadd ?_)
      rintro v rfl
      simp at htr
  | takeWaking htr =>
      refine .of_neither (by rw [woken, set]) hbound (hadd ?_)
      rintro v rfl
      simp at htr
  | clear => exact .of_neither (by rw [woken, set]) hbound (hadd (by simp))
  | resize => exact absurd rfl (hresize _)

/-- A new bound is set, and that is what the operation answers. -/
theorem execute_resize (hfits : M.Fits S) (hq : q < S.queues) (path : Path) (capacity : Word) :
    ((M.execute t (.transact q path (.resize capacity))).1.queue q).capacity = capacity ∧
      (M.execute t (.transact q path (.resize capacity))).2 =
        .goOn [.unlock (S.mutex q), .report path .ok] := by
  rw [← hfits.mutex q hq]
  refine ⟨?_, rfl⟩
  have hkeep : ∀ N : Machine α, ∀ p count, (N.wakeMany p count).queue q = N.queue q :=
    fun N p count => (wakeTimes_wakes 0 p _ N).queue_eq (by rintro e rfl; simp)
  show ((M.resizeQueue q capacity).queue q).capacity = capacity
  rw [resizeQueue, hkeep]
  exact congrArg Queue.capacity (Table.get_set_self ..)

/-- What a transaction adds to the history of a queue. -/
theorem Stroke.bounds_of_transact {q' : QueueId} {path : Path} {tr : Transaction α}
    (hfits : M.Fits S) (hshape : S.Shape (M.thread t).step t (.transact q' path tr :: code))
    (he : M.execute t (.transact q' path tr) = (M', .goOn more))
    (h : S.Stroke M t (.transact q' path tr) M' (.goOn more)) :
    ∃ new, S.history q M'.log ++
        S.history q (toReport t (M.thread t).step (more ++ code)) = S.history q M.log ++ new ∧
      Bounds (M.queue q) (M'.queue q) new := by
  have hserves := hshape.of_transact.1
  cases h with
  | @wait _ _ _ side =>
      have hleave := leave_changes M (S.condition q' side) (S.mutex q') t
      rw [hleave.queue_eq (by rintro e (rfl | rfl | rfl) <;> simp), history_log_of_changes hleave]
      exact ⟨[], rfl, .silent _⟩
  | @transact _ _ _ _ r h =>
      obtain ⟨verb, hcall, hverb⟩ := hserves.called
      have hchanges := h.changes (t := t) hfits hserves.lt
      have hreport : toReport t (M.thread t).step
          ([.unlock (S.mutex q'), .report path r] ++ code) =
            [.finished t (M.thread t).step path r] := rfl
      rw [history_log_of_changes hchanges, hreport,
        history_finished hcall (h.agrees hverb).1]
      refine ⟨_, rfl, ?_⟩
      split
      · rename_i hqq
        subst hqq
        by_cases hresize : ∃ capacity, tr = .resize capacity
        · obtain ⟨capacity, rfl⟩ := hresize
          obtain rfl := List.mem_singleton.1 (mem_verbs hverb)
          obtain ⟨hcapacity, hnext⟩ := execute_resize (t := t) hfits hserves.lt path capacity
          rw [he] at hcapacity hnext
          have hlines := (List.cons.inj (List.cons.inj (Next.goOn.inj hnext)).2).1
          obtain ⟨-, rfl⟩ := Instr.report.inj hlines
          refine ⟨hcapacity, Calls.heeds_singleton fun hadd => absurd rfl hadd⟩
        · exact h.bounds hverb fun capacity heq => hresize ⟨capacity, heq⟩
      · rename_i hqq
        have hsame : M'.queue q = M.queue q := by
          refine hchanges.queue_eq ?_
          rintro e he rfl
          exact hqq he.symm
        rw [hsame]
        exact .silent _

/-- **What a tick adds to the history of a queue was done under the bound in force.** -/
theorem Sound.bounds (hq : q < S.queues) (hs : S.Sound M) :
    ∃ new, S.calls q M.tick = S.calls q M ++ new ∧
      Bounds (M.queue q) (M.tick.queue q) new := by
  rcases hs.quiet_or hq with
    ⟨hqueue, hcalls⟩ | ⟨t, i, code, N, more, hcode, hi, he, hstroke, hqueue, hcalls, hcalls'⟩
  · exact ⟨[], by rw [hcalls, List.append_nil], by rw [hqueue]; exact .silent _⟩
  · have hshape : S.Shape (M.thread t).step t (i :: code) := hcode ▸ (hs.shaped t).code
    rw [hqueue, hcalls, hcalls']
    cases i with
    | start path op =>
        cases hstroke with
        | start h => exact h.bounds hq hs.fits hshape.trails_of_start.1 he
    | transact q' path tr => exact hstroke.bounds_of_transact hs.fits hshape he
    | _ => cases hi

end Setting

/-! ### Where queues begin -/

namespace Machine

/-- What the queues of a machine were made of that another does not have yet. -/
def Opens (objects : List (String × Spec)) (M M' : Machine Json) : Prop :=
  ∀ q < M'.queues.size, (q < M.queues.size ∧ M'.queue q = M.queue q) ∨
    ∃ name source r config, (name, Spec.queue source) ∈ objects ∧ source.open = .ok (r, config) ∧
      (M'.queue q).capacity = r.capacity ∧ (M'.queue q).values.toList = r.values

variable {M M' M'' : Machine Json}

theorem Opens.of_queues {objects : List (String × Spec)} (h : M'.queues = M.queues) :
    Opens objects M M' := fun q hq =>
  .inl ⟨by rwa [h] at hq, by simp only [queue, h]⟩

theorem opens_addQueue (name : String) {source : QueueSource} {r : Record Json} {config : Config}
    (h : source.open = .ok (r, config)) (o : Object) :
    Opens [(name, .queue source)] M ((M.addQueue config r).1.bind name o) := by
  intro q hq
  have hsize : ((M.addQueue config r).1.bind name o).queues.size = M.queues.size + 1 :=
    Table.size_add ..
  rw [hsize] at hq
  rcases Nat.lt_succ_iff_lt_or_eq.1 hq with hlt | rfl
  · exact .inl ⟨hlt, Table.get_add_of_lt _ _ hlt⟩
  · have hqueue : ((M.addQueue config r).1.bind name o).queue M.queues.size =
        ⟨M.mutexes.size, M.conditions.size, M.conditions.size + 1,
          (WaitList.empty config).append r.values, r.capacity⟩ := by
      refine (Table.get_add_self _ _).trans ?_
      simp
    refine .inr ⟨name, source, r, config, List.mem_singleton_self _, h, ?_, ?_⟩
    · rw [hqueue]
    · rw [hqueue]
      simp

/-- One object at a time. -/
theorem opens_make {name : String} {spec : Spec} (h : M.make name spec = .ok M') :
    Opens [(name, spec)] M M' := by
  cases spec with
  | queue source =>
      cases hopen : source.open with
      | error e => simp [make, hopen, bind] at h
      | ok entry =>
          obtain ⟨r, config⟩ := entry
          simp only [make, hopen] at h
          obtain rfl := Except.ok.inj h
          exact opens_addQueue name hopen _
  | _ =>
      simp only [make] at h
      obtain rfl := Except.ok.inj h
      exact .of_queues rfl

theorem Opens.trans {objects objects' : List (String × Spec)} (h : Opens objects M M')
    (h' : Opens objects' M' M'') : Opens (objects ++ objects') M M'' := by
  intro q hq
  rcases h' q hq with ⟨hlt, heq⟩ | ⟨name, source, r, config, hmem, hrest⟩
  · rw [heq]
    refine (h q hlt).imp id ?_
    rintro ⟨name, source, r, config, hmem, hrest⟩
    exact ⟨name, source, r, config, List.mem_append_left _ hmem, hrest⟩
  · exact .inr ⟨name, source, r, config, List.mem_append_right _ hmem, hrest⟩

theorem opens_makeAll (M : Machine Json) (objects : List (String × Spec)) :
    Opens objects M (M.makeAll objects).1 := by
  induction objects generalizing M with
  | nil => exact .of_queues rfl
  | cons object objects ih =>
      obtain ⟨name, spec⟩ := object
      simp only [makeAll]
      split
      · rename_i N hmake
        exact (opens_make hmake).trans (ih N)
      · have hnone : Opens [(name, spec)] M M := .of_queues rfl
        exact hnone.trans (ih M)

end Machine

/-- Only a restored queue can begin with values. -/
theorem QueueSource.values_of_open {source : QueueSource} {r : Record Json} {config : Config}
    (h : source.open = .ok (r, config)) (hfresh : ∀ text, source ≠ .restored text) :
    r.values = [] := by
  unfold QueueSource.open at h
  split at h
  · exact absurd rfl (hfresh _)
  · cases h; rfl
  · cases h
  · cases h; rfl
  · cases h; rfl

/-! ### Throughout a scenario -/

namespace Scenario

open Machine Setting

variable {s : Scenario} {k : Nat} {past : List (Entry Json)} {M : Machine Json} {q : QueueId}

/-- The bound of a queue before the first step. -/
def initialBound (s : Scenario) (q : QueueId) : Word := (s.start.1.queue q).capacity

/-- Bound and values of every queue before the first step are those of the source that it was made
of. -/
theorem exists_source (hq : q < s.start.1.queues.size) :
    ∃ name source r config, (name, Spec.queue source) ∈ s.objects ∧
      source.open = .ok (r, config) ∧ s.initialBound q = r.capacity ∧ s.initial q = r.values := by
  rcases opens_makeAll (ofTasks s.tasks) s.objects q hq with ⟨hlt, -⟩ | h
  · simp [ofTasks, Table.size] at hlt
  · exact h

theorem Reaches.bounds (h : s.Reaches k past M) (hq : q < s.start.1.queues.size) :
    (M.queue q).capacity = Calls.bound (s.initialBound q)
        (s.setting.history q past ++ s.setting.calls q M) ∧
      Calls.Heeds (s.initialBound q) (s.initial q)
        (s.setting.history q past ++ s.setting.calls q M) := by
  induction h with
  | start =>
      have hfresh := s.start_new.fresh
      have hnone : s.setting.calls q s.start.1 = [] := by
        rw [calls, unreported_of_over hfresh.ready, hfresh.log]
        rfl
      rw [hnone]
      exact ⟨rfl, (Bounds.silent _).heeds⟩
  | @tick k past M h ih =>
      obtain ⟨hbound, hheeds⟩ := ih
      obtain ⟨new, hnew, hbounds⟩ := h.sound.bounds hq
      rw [hnew, ← List.append_assoc, Calls.bound_append, Calls.heeds_append, ← hbound,
        ← (h.records hq).2]
      exact ⟨hbounds.bound, hheeds, hbounds.heeds⟩
  | @order k past M name order t h still hstep ht idle ih =>
      rw [calls, unreported_of_over still, history_nil, List.append_nil, ← history_append] at ih
      rw [calls_of_begin still, List.append_nil]
      cases order.ops? <;> exact ih
  | refuse _ _ _ _ ih => exact ih

/-- **The bound of a queue is never exceeded by a push.**  In every state of every scenario the
operations on a queue that are over, in the order in which they took effect, tell its bound and its
values, and every value was added when there was no bound, or fewer values than the bound then in
force.

So, whatever has come `before`, what comes `after` it leaves a sized queue no longer than its bound,
or than it was, unless a bound is set; and a queue that was within its bound is within its bound
unless one was lowered.  That is so from the beginning for a queue that was not restored. -/
theorem pushes_heed_bound (h : s.Reaches k past M) (hq : q < s.start.1.queues.size) :
    let calls : Calls Json := s.setting.history q past ++ s.setting.calls q M
    (M.queue q).capacity = calls.bound (s.initialBound q) ∧
      (M.queue q).values.toList = calls.outcome (s.initial q) ∧
      (∀ (before : Calls Json) v after, calls = before ++ (.push v, .done) :: after →
        Word.HasSpace (before.bound (s.initialBound q)) (before.outcome (s.initial q)).length) ∧
      (∀ before after : Calls Json, calls = before ++ after → ∀ (bound : Word) (vs : List Json),
        bound = before.bound (s.initialBound q) → vs = before.outcome (s.initial q) →
          (0 < bound.val → (∀ new, (.setCapacity new, .ok) ∉ after) →
            (M.queue q).capacity = bound ∧
              (M.queue q).values.length ≤ max bound.val vs.length) ∧
          (bound.Admits vs.length → after.NeverLowers bound →
            (M.queue q).capacity.Admits (M.queue q).values.length)) ∧
      ∃ name source r config, (name, Spec.queue source) ∈ s.objects ∧
        source.open = .ok (r, config) ∧ s.initialBound q = r.capacity ∧ s.initial q = r.values ∧
        ((∀ text, source ≠ .restored text) → calls.NeverLowers r.capacity →
          (M.queue q).capacity.Admits (M.queue q).values.length) := by
  intro calls
  have hbound : (M.queue q).capacity = calls.bound (s.initialBound q) := (h.bounds hq).1
  have hheeds : calls.Heeds (s.initialBound q) (s.initial q) := (h.bounds hq).2
  have hvalues : (M.queue q).values.toList = calls.outcome (s.initial q) := (h.records hq).2
  have hlength : (M.queue q).values.length = (calls.outcome (s.initial q)).length := by
    rw [← hvalues, WaitList.length_toList]
  refine ⟨hbound, hvalues, hheeds, ?_, ?_⟩
  · rintro before after hsplit bound vs rfl rfl
    rw [hlength, hbound]
    rw [hsplit, Calls.bound_append, Calls.outcome_append]
    rw [hsplit, Calls.heeds_append] at hheeds
    refine ⟨fun positive hsame => ?_, fun hwithin hraise =>
      Calls.admits_outcome hheeds.2 hwithin hraise⟩
    exact (Calls.length_outcome_le hheeds.2 positive hsame).symm
  · obtain ⟨name, source, r, config, hmem, hopen, hstart, hinitial⟩ := exists_source hq
    refine ⟨name, source, r, config, hmem, hopen, hstart, hinitial, fun hfresh hraise => ?_⟩
    have hempty := QueueSource.values_of_open hopen hfresh
    rw [hlength, hbound, hstart]
    rw [hstart] at hheeds
    refine Calls.admits_outcome hheeds ?_ hraise
    rw [hinitial, hempty]
    exact .inr (Nat.zero_le _)

/-- A queue whose bound is lowered below its length while a producer waits. -/
def crowded : Scenario where
  tasks := ["producer", "consumer"]
  objects := [("q", .queue (.bounded (Word.wrap 2)))]
  steps := [("producer", .run [.onObject "q" (.push (.integer 1)),
      .onObject "q" (.push (.integer 2)), .onObject "q" (.push (.integer 3))]),
    ("consumer", .run [.onObject "q" (.setCapacity (Word.wrap 1))]),
    ("consumer", .run [.onObject "q" .pop, .onObject "q" .pop])]

theorem pushes_heed_bound_of_crowded : ∃ past, crowded.Reaches 3 past (crowded.after 3) ∧
    ((crowded.after 3).queue 0).capacity = Calls.bound (crowded.initialBound 0)
      (crowded.setting.history 0 past ++ crowded.setting.calls 0 (crowded.after 3)) ∧
    ((crowded.after 3).queue 0).values.length = 1 := by
  obtain ⟨past, h⟩ := crowded.reaches_after (k := 3) (by decide) (by decide)
  exact ⟨past, h, (pushes_heed_bound h (by decide)).1, by decide⟩

end Scenario

end BlockingSync
