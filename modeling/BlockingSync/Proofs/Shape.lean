/-
The shape of what a thread has left to do.

Only the front of the code of a thread can wait, or belong to a queue operation that has
begun; all behind it is still to begin, or gives something back and reports.  A thread
that suspends by itself at a place does so on its own handle, and goes on by acquiring a
lock.
-/
import BlockingSync.Proofs.Setting

namespace BlockingSync

variable {α : Type}

namespace Setting

variable (S : Setting α)

/-- Instructions that can stand behind others. -/
def IsTrailing (step : Nat) : Instr α → Prop
  | .start path op => S.find? step path = some op
  | .unlock m => S.IsPublicMutex m
  | .closeGuard m path => S.IsPublicMutex m ∧ S.call? step path = none
  | .report path r => S.call? step path = none ∨ ∃ message, r = .panicked message
  | _ => False

/-- Code all of which can stand behind other code. -/
def Trails (step : Nat) (code : List (Instr α)) : Prop := ∀ i ∈ code, S.IsTrailing step i

/-- What a thread can have left to do, in a list that was given in a step. -/
inductive Shape (step : Nat) (u : ThreadId) : List (Instr α) → Prop
  | trailing {code} (h : S.Trails step code) : Shape step u code
  | report {path r code} (h : S.Trails step code) : Shape step u (.report path r :: code)
  | lock {m code} (hm : S.IsPublicMutex m) (h : S.Trails step code) : Shape step u (.lock m :: code)
  | seize {r code} (h : S.Trails step code) : Shape step u (.seize r :: code)
  /-- The thread was told to suspend. -/
  | told {handle path name code} (hop : S.find? step path = some (.onTask name .suspend))
      (h : S.Trails step code) : Shape step u (.suspend handle none :: code)
  /-- The thread waits for a mutex. -/
  | locking {m code} (hm : S.IsPublicMutex m) (h : S.Trails step code) :
      Shape step u (.suspend u (some (.mutex m)) :: .lock m :: code)
  /-- The thread waits for a condition, and will acquire a mutex again. -/
  | waiting {c m code} (hc : S.IsPublicCondition c) (hm : S.IsPublicMutex m)
      (h : S.Trails step code) :
      Shape step u (.suspend u (some (.condition c)) :: .lock m :: code)
  /-- The thread waits for a condition, and will acquire a raw lock again. -/
  | waitingRaw {c r code} (hc : S.IsPublicCondition c) (h : S.Trails step code) :
      Shape step u (.suspend u (some (.condition c)) :: .seize r :: code)
  /-- A queue operation waits for its side of the queue. -/
  | queueing {q path tr side code} (hs : S.Serves step path q tr) (hside : tr.side? = some side)
      (h : S.Trails step code) :
      Shape step u (.suspend u (some (.condition (S.condition q side))) :: .lock (S.mutex q) ::
        .transact q path tr :: code)
  | entering {q path tr code} (hs : S.Serves step path q tr) (h : S.Trails step code) :
      Shape step u (.lock (S.mutex q) :: .transact q path tr :: code)
  | inside {q path tr code} (hs : S.Serves step path q tr) (h : S.Trails step code) :
      Shape step u (.transact q path tr :: code)
  | leaving {q path r code} (hq : q < S.queues) (h : S.Trails step code) :
      Shape step u (.unlock (S.mutex q) :: .report path r :: code)

/-- Whether a thread does what it was given. -/
structure Follows (u : ThreadId) (s : Thread α) : Prop where
  code : S.Shape s.step u s.code
  pending : ∀ i op, (i, op) ∈ s.pending → S.find? s.step [i] = some op

/-- Whether all threads do what they were given. -/
def Shaped (M : Machine α) : Prop := ∀ u, S.Follows u (M.thread u)

variable {S} {step : Nat} {u : ThreadId} {code : List (Instr α)}

@[simp] theorem trails_nil : S.Trails step [] := by
  simp [Trails]

@[simp] theorem trails_cons {i : Instr α} :
    S.Trails step (i :: code) ↔ S.IsTrailing step i ∧ S.Trails step code := by
  simp [Trails]

@[simp] theorem trails_append {code' : List (Instr α)} :
    S.Trails step (code ++ code') ↔ S.Trails step code ∧ S.Trails step code' := by
  simp [Trails, or_imp, forall_and]

/-- What must be given back when an operation is given up. -/
theorem Trails.cleanup (h : S.Trails step code) : S.Trails step (Machine.cleanup code) := by
  induction code with
  | nil => simp [Machine.cleanup]
  | cons i code ih =>
      rw [trails_cons] at h
      cases i with
      | unlock m => simpa [Machine.cleanup, IsTrailing] using ⟨h.1, ih h.2⟩
      | closeGuard m path => simpa [Machine.cleanup, IsTrailing] using ⟨h.1.1, ih h.2⟩
      | _ => exact ih h.2

/-- What is left of an operation that is given up. -/
theorem Trails.givenUp (h : S.Trails step code) (path : Path) (message : String) :
    S.Trails step (Machine.cleanup code ++ [.report path (.panicked message)]) :=
  trails_append.2 ⟨h.cleanup, trails_cons.2 ⟨.inr ⟨message, rfl⟩, trails_nil⟩⟩

/-- The operations of a body lead on from the path of the whole. -/
theorem trails_startBody {path : Path} {op : Op α} (h : S.find? step path = some op) :
    S.Trails step (Machine.startBody path op.body) := by
  intro i hi
  obtain ⟨k, hk, rfl⟩ := List.mem_mapIdx.1 hi
  show S.find? step (path ++ [k]) = some op.body[k]
  rw [find?, Op.find?_body h, List.getElem?_eq_getElem hk]

namespace Shape

theorem trails_of_start {path : Path} {op : Op α} (h : S.Shape step u (.start path op :: code)) :
    S.find? step path = some op ∧ S.Trails step code := by
  cases h with
  | trailing h => exact trails_cons.1 h

theorem of_closeGuard {m : MutexId} {path : Path}
    (h : S.Shape step u (.closeGuard m path :: code)) :
    S.IsPublicMutex m ∧ S.call? step path = none ∧ S.Trails step code := by
  cases h with
  | trailing h => exact ⟨(trails_cons.1 h).1.1, (trails_cons.1 h).1.2, (trails_cons.1 h).2⟩

theorem trails_of_report {path : Path} {r : Result α}
    (h : S.Shape step u (.report path r :: code)) : S.Trails step code := by
  cases h with
  | trailing h => exact (trails_cons.1 h).2
  | report h => exact h

theorem trails_of_seize {r : RawLockId} (h : S.Shape step u (.seize r :: code)) :
    S.Trails step code := by
  cases h with
  | trailing h => exact absurd (trails_cons.1 h).1 id
  | seize h => exact h

/-- A mutex that is about to be taken is public, or guards the queue of the next transaction. -/
theorem of_lock {m : MutexId} (h : S.Shape step u (.lock m :: code)) :
    S.IsPublicMutex m ∧ S.Trails step code ∨
      ∃ q path tr rest, m = S.mutex q ∧ code = .transact q path tr :: rest ∧
        S.Serves step path q tr ∧ S.Trails step rest := by
  cases h with
  | trailing h => exact absurd (trails_cons.1 h).1 id
  | lock hm h => exact .inl ⟨hm, h⟩
  | entering hs h => exact .inr ⟨_, _, _, _, rfl, rfl, hs, h⟩

theorem of_transact {q : QueueId} {path : Path} {tr : Transaction α}
    (h : S.Shape step u (.transact q path tr :: code)) :
    S.Serves step path q tr ∧ S.Trails step code := by
  cases h with
  | trailing h => exact absurd (trails_cons.1 h).1 id
  | inside hs h => exact ⟨hs, h⟩

/-- A mutex that is about to be given back is public, or a queue operation is over. -/
theorem of_unlock {m : MutexId} (h : S.Shape step u (.unlock m :: code)) :
    S.IsPublicMutex m ∧ S.Trails step code ∨
      ∃ q path r rest, q < S.queues ∧ m = S.mutex q ∧ code = .report path r :: rest ∧
        S.Trails step rest := by
  cases h with
  | trailing h => exact .inl (trails_cons.1 h)
  | leaving hq h => exact .inr ⟨_, _, _, _, hq, rfl, rfl, h⟩

/-- What follows a suspension can stand at the front. -/
theorem of_suspend {h : HandleId} {w : Option Place} (hs : S.Shape step u (.suspend h w :: code)) :
    S.Shape step u code := by
  cases hs with
  | trailing h => exact absurd (trails_cons.1 h).1 id
  | told _ h => exact .trailing h
  | locking hm h => exact .lock hm h
  | waiting _ hm h => exact .lock hm h
  | waitingRaw _ h => exact .seize h
  | queueing hs _ h => exact .entering hs h

/-- A thread that waits at a place waits on its own handle. -/
theorem handle_of_suspend {h : HandleId} {p : Place}
    (hs : S.Shape step u (.suspend h (some p) :: code)) : h = u := by
  cases hs with
  | trailing h => exact absurd (trails_cons.1 h).1 id
  | locking | waiting | waitingRaw | queueing => rfl

/-- Nobody suspends without a place unless told to. -/
theorem place_of_suspend (spares : S.SparesTokens) {h : HandleId} {w : Option Place}
    (hs : S.Shape step u (.suspend h w :: code)) : ∃ p, w = some p := by
  cases hs with
  | trailing h => exact absurd (trails_cons.1 h).1 id
  | told hop h => simpa [Op.sparesTokens] using Op.sparesTokens_of_find? (spares step) hop
  | locking | waiting | waitingRaw | queueing => exact ⟨_, rfl⟩

/-- A thread that waits for a side of a queue goes on with a transaction of that side. -/
theorem transact_of_suspend {h : HandleId} {c : ConditionId} {q : QueueId} {side : Side}
    (hq : q < S.queues) (hc : c = S.condition q side)
    (hs : S.Shape step u (.suspend h (some (.condition c)) :: code)) :
    ∃ path tr rest, tr.side? = some side ∧
      code = .lock (S.mutex q) :: .transact q path tr :: rest := by
  cases hs with
  | trailing h => exact absurd (trails_cons.1 h).1 id
  | waiting hpublic | waitingRaw hpublic => exact absurd hc.symm (hpublic q hq side)
  | queueing hs hside h =>
      obtain ⟨rfl, rfl⟩ := S.apart.condition_inj _ hs.lt q hq _ side hc
      exact ⟨_, _, _, hside, rfl⟩

/-- A thread on the list of a mutex goes on by taking it. -/
theorem lock_of_suspend {h : HandleId} {m : MutexId}
    (hs : S.Shape step u (.suspend h (some (.mutex m)) :: code)) :
    S.IsPublicMutex m ∧ ∃ rest, code = .lock m :: rest := by
  cases hs with
  | trailing h => exact absurd (trails_cons.1 h).1 id
  | locking hm h => exact ⟨hm, _, rfl⟩

end Shape

end Setting

end BlockingSync
