/-
Machines that behave alike.

Two machines are alike if they differ only in how the storage of lists and values is laid
out, and in the guise in which objects show mutexes: openly, wrapped, or wrapped and
unable to tell who owns them.  Whatever a machine does, a machine that is alike does too,
with the same results, and they stay alike.  There is one lemma for each function of the
machine; only where an operation or a wait sees the guise of a mutex is there a condition
(`Op.heeds`).

Tasks can see the storage of a plain list of tasks, for they may ask how many free cells it
keeps.  So these lists have to be stored the same, unless the answers to that question are
passed over (`Scrutiny`).
-/
import BlockingSync.Proofs.Deeds

namespace BlockingSync

variable {α : Type}

/-- How an object shows a mutex. -/
inductive Guise where
  | plain
  | wrapped
  | minimal
  deriving DecidableEq

/-- The object that shows a mutex in a guise. -/
def Guise.object : Guise → MutexId → Object
  | .plain, m => .mutex m
  | .wrapped, m => .wrapped m
  | .minimal, m => .minimal m

/-- An object with mutexes in other guises. -/
def Object.veil (g : MutexId → Guise) : Object → Object
  | .mutex m => (g m).object m
  | o => o

/-- The lock that shows a mutex in a guise. -/
def Guise.lock : Guise → MutexId → Lockable
  | .plain, m => .native m
  | .wrapped, m => .wrapped m
  | .minimal, m => .minimal m

/-- A lock with mutexes in other guises. -/
def Lockable.veil (g : MutexId → Guise) : Lockable → Lockable
  | .native m => (g m).lock m
  | l => l

/-- Whether an operation can be done through the interface of locks alone. -/
def Verb.isInterface : Verb α → Bool
  | .acquire | .release | .exclusiveRelease _ | .isHeldByOther => true
  | _ => false

/-! ### What is passed over -/

/-- Whether an operation asks how many free cells a list keeps. -/
def Op.countsCells : Op α → Bool
  | .onObject _ .pooled => true
  | _ => false

/-- A result without the number in it. -/
def Result.withoutCount : Result α → Result α
  | .count _ => .count 0
  | r => r

/-- How closely a run is looked at. -/
inductive Scrutiny (α : Type) where
  | full
  /-- The numbers of free cells are passed over.  Which results these are can be told from the
  lists that are given in the steps. -/
  | sparing (given : Nat → List (Op α))

namespace Scrutiny

/-- Whether the result of the operation at a path is a number that is passed over. -/
def passesOver : Scrutiny α → Nat → Path → Bool
  | .full, _, _ => false
  | .sparing given, step, path => (Op.find? (given step) path).any Op.countsCells

/-- A result as it is seen. -/
def seen (k : Scrutiny α) (step : Nat) (path : Path) (r : Result α) : Result α :=
  if k.passesOver step path then r.withoutCount else r

/-- Whether it is known which operation a path leads to. -/
def Knows : Scrutiny α → Nat → Path → Op α → Prop
  | .full, _, _, _ => True
  | .sparing given, step, path, op => Op.find? (given step) path = some op

end Scrutiny

/-- An instruction as it is seen, of a list given in a step. -/
def Instr.seen (k : Scrutiny α) (step : Nat) : Instr α → Instr α
  | .report path r => .report path (k.seen step path r)
  | i => i

/-- The same of whatever a thread goes on with. -/
def Next.seen (k : Scrutiny α) (step : Nat) : Next α → Next α
  | .goOn code => .goOn (code.map (Instr.seen k step))
  | next => next

/-- A thread as it is seen. -/
def Thread.seen (k : Scrutiny α) (s : Thread α) : Thread α :=
  { s with code := s.code.map (Instr.seen k s.step) }

/-- A line of the log as it is seen. -/
def Entry.seen (k : Scrutiny α) : Entry α → Entry α
  | .finished t step path r => .finished t step path (k.seen step path r)
  | e => e

section

variable {k : Scrutiny α} {step : Nat} {path : Path}

/-- A number of free cells is passed over, unless everything is looked at. -/
theorem Scrutiny.Knows.passesOver {op : Op α} (h : k.Knows step path op)
    (hop : op.countsCells = true) : k = .full ∨ k.passesOver step path = true := by
  cases k with
  | full => exact .inl rfl
  | sparing given =>
      have hfind : Op.find? (given step) path = some op := h
      exact .inr (by simp only [Scrutiny.passesOver, hfind, Option.any_some, hop])

theorem Scrutiny.seen_count (h : k.passesOver step path = true) (n n' : Nat) :
    k.seen step path (.count n') = k.seen step path (.count n) := by
  simp only [Scrutiny.seen, h, if_true, Result.withoutCount]

/-- Instructions that look the same are the same, but for what they report. -/
theorem Instr.eq_of_seen {i i' : Instr α} (h : i'.seen k step = i.seen k step) :
    i' = i ∨ ∃ path r r', i = .report path r ∧ i' = .report path r' ∧
      k.seen step path r' = k.seen step path r := by
  cases i with
  | report path r =>
      cases i' with
      | report path' r' =>
          obtain ⟨rfl, hr⟩ := Instr.report.inj h
          exact .inr ⟨path', r, r', rfl, rfl, hr⟩
      | _ => cases h
  | _ =>
      cases i' <;> cases h
      exact .inl rfl

/-- Threads that go on with what looks the same do so in the same way. -/
theorem Next.cases_of_seen {next next' : Next α} (h : next'.seen k step = next.seen k step) :
    (∃ more more', next = .goOn more ∧ next' = .goOn more' ∧
        more'.map (Instr.seen k step) = more.map (Instr.seen k step)) ∨
      next = .park ∧ next' = .park ∨
      ∃ message, next = .unwind message ∧ next' = .unwind message := by
  cases next with
  | goOn more =>
      cases next' with
      | goOn more' => exact .inl ⟨more, more', rfl, rfl, Next.goOn.inj h⟩
      | park | unwind => cases h
  | park =>
      cases next' <;> cases h
      exact .inr (.inl ⟨rfl, rfl⟩)
  | unwind message =>
      cases next' <;> cases h
      exact .inr (.inr ⟨message, rfl, rfl⟩)

theorem Entry.seen_eq (h : ∀ step path, k.passesOver step path = false) (e : Entry α) :
    e.seen k = e := by
  cases e with
  | finished t step path r =>
      simp only [Entry.seen, Scrutiny.seen, h, Bool.false_eq_true, if_false]
  | skipped | resized => rfl

end

/-- Whether two queues differ at most in how their values are stored. -/
structure Queue.Alike (s s' : Queue α) : Prop where
  mutex : s'.mutex = s.mutex
  valueAvailable : s'.valueAvailable = s.valueAvailable
  spaceAvailable : s'.spaceAvailable = s.spaceAvailable
  capacity : s'.capacity = s.capacity
  values : s'.values.toList = s.values.toList

namespace Queue.Alike

variable {s s' : Queue α}

theorem length (h : s.Alike s') : s'.values.length = s.values.length := by
  rw [← WaitList.length_toList, h.values, WaitList.length_toList]

theorem isFull (h : s.Alike s') : s'.isFull = s.isFull := by
  simp only [Queue.isFull, h.capacity, h.length]

theorem hasSpace (h : s.Alike s') : s'.hasSpace = s.hasSpace := by
  simp only [Queue.hasSpace, h.capacity, h.length]

theorem isEmpty (h : s.Alike s') : s'.values.isEmpty = s.values.isEmpty := by
  simp only [WaitList.isEmpty, h.length]

theorem withValues (h : s.Alike s') {l l' : WaitList α} (hl : l'.toList = l.toList) :
    ({ s with values := l } : Queue α).Alike { s' with values := l' } :=
  { h with values := hl }

theorem withCapacity (h : s.Alike s') (capacity : Word) :
    ({ s with capacity } : Queue α).Alike { s' with capacity } :=
  { h with capacity := rfl }

end Queue.Alike

namespace Machine

/-- Whether two machines differ at most in how lists and values are stored, in the guises of
mutexes, and in what is passed over. -/
structure Alike (g : MutexId → Guise) (M M' : Machine α) (k : Scrutiny α := .full) : Prop where
  handles : M'.handles = M.handles
  owner : ∀ m, (M'.mutex m).owner = (M.mutex m).owner
  waiting : ∀ m, (M'.mutex m).waiting.toList = (M.mutex m).waiting.toList
  conditions : ∀ c, (M'.conditions.get c).toList = (M.conditions.get c).toList
  queue : ∀ q, (M.queue q).Alike (M'.queue q)
  rawLocks : M'.rawLocks = M.rawLocks
  taskLists : ∀ l, (M'.taskLists.get l).toList = (M.taskLists.get l).toList
  storage : k = .full → M'.taskLists = M.taskLists
  threads : M'.threads.cells.map (Thread.seen k) = M.threads.cells.map (Thread.seen k)
  ready : M'.ready = M.ready
  log : M'.log.map (Entry.seen k) = M.log.map (Entry.seen k)
  names : M'.names = M.names.map fun entry => (entry.1, entry.2.map (Object.veil g))
  handleNames : M'.handleNames = M.handleNames

/-- Whether two results of one function are alike. -/
structure AlikeWith {β : Type} (g : MutexId → Guise) (r r' : Machine α × β)
    (k : Scrutiny α := .full) : Prop where
  state : Alike g r.1 r'.1 k
  result : r'.2 = r.2

/-- Whether an instruction of a thread does to a machine what it does to another, and the thread
goes on with what looks the same. -/
structure AlikeNext (g : MutexId → Guise) (k : Scrutiny α) (t : ThreadId)
    (r r' : Machine α × Next α) : Prop where
  state : Alike g r.1 r'.1 k
  next : r'.2.seen k (r.1.thread t).step = r.2.seen k (r.1.thread t).step

/-- Whether an action does the same to machines that are alike. -/
def IsFair (g : MutexId → Guise) (action : Action α) (k : Scrutiny α := .full) : Prop :=
  ∀ ⦃M M' : Machine α⦄, Alike g M M' k → AlikeWith g (action M) (action M') k

variable {g : MutexId → Guise} {k : Scrutiny α} {M M' : Machine α}

theorem AlikeWith.intro {β : Type} {b : β} (h : Alike g M M' k) : AlikeWith g (M, b) (M', b) k :=
  ⟨h, rfl⟩

/-- The two states and the one result. -/
theorem AlikeWith.parts {β : Type} {r r' : Machine α × β} (h : AlikeWith g r r' k) :
    ∃ N N' b, r = (N, b) ∧ r' = (N', b) ∧ Alike g N N' k :=
  ⟨r.1, r'.1, r.2, rfl, Prod.ext rfl h.result, h.state⟩

theorem AlikeWith.next {r r' : Machine α × Next α} (h : AlikeWith g r r' k) (t : ThreadId) :
    AlikeNext g k t r r' :=
  ⟨h.state, by rw [h.result]⟩

/-! ### Guises -/

theorem mutex?_lock (guise : Guise) (m : MutexId) : (guise.lock m).mutex? = some m := by
  cases guise <;> rfl

theorem lockable?_veil (g : MutexId → Guise) (o : Object) :
    lockable? (o.veil g) = (lockable? o).map (Lockable.veil g) := by
  cases o with
  | mutex m =>
      simp only [Object.veil, lockable?, Option.map_some, Lockable.veil]
      cases g m <;> rfl
  | _ => rfl

theorem acquire_veil (g : MutexId → Guise) (l : Lockable) :
    acquire (α := α) (l.veil g) = acquire l := by
  cases l with
  | native m => exact acquire_of_mutex? (mutex?_lock (g m) m)
  | _ => rfl

/-- A wait does not tell the guise of its lock, unless a minimal one is held by another task. -/
theorem depart_veil {M : Machine α} {g : MutexId → Guise} (c : ConditionId) {l : Lockable}
    {u : HandleId}
    (hown : ∀ m o, l = .native m → g m = .minimal → (M.mutex m).owner = some o → o = u) :
    M.depart c (l.veil g) u = M.depart c l u := by
  cases l with
  | native m =>
      have hveil : ((Lockable.native m).veil g).mutex? = some m := mutex?_lock (g m) m
      cases howner : (M.mutex m).owner with
      | none => rw [depart_of_free hveil howner, depart_of_free rfl howner]
      | some o =>
          by_cases hou : o = u
          · subst hou
            rw [depart_of_owned hveil howner, depart_of_owned rfl howner]
          · have hknows : (Lockable.native m).veil g ≠ .minimal m := by
              intro hmin
              refine hou (hown m o rfl ?_ howner)
              simp only [Lockable.veil] at hmin
              cases hg : g m <;> simp [hg, Guise.lock] at hmin ⊢
            rw [depart_of_other hveil howner hou hknows, depart_of_other rfl howner hou (by simp)]
  | _ => rfl

namespace Alike

/-! ### Questions -/

theorem handle (h : Alike g M M' k) (u : HandleId) : M'.handle u = M.handle u := by
  simp only [Machine.handle, h.handles]

theorem thread (h : Alike g M M' k) (t : ThreadId) :
    (M'.thread t).seen k = (M.thread t).seen k := by
  have hget : ∀ table : Table (Thread α),
      (table.get t).seen k = ((table.cells.map (Thread.seen k))[t]?).getD default := fun table => by
    rw [Table.get, List.getD_eq_getElem?_getD, List.getElem?_map]
    exact (Option.getD_map (Thread.seen k) _ _).symm
  simp only [Machine.thread, hget, h.threads]

theorem size_threads (h : Alike g M M' k) : M'.threads.size = M.threads.size := by
  simpa [Table.size] using congrArg List.length h.threads

theorem step (h : Alike g M M' k) (t : ThreadId) : (M'.thread t).step = (M.thread t).step :=
  (congrArg Thread.step (h.thread t) :)

theorem pending (h : Alike g M M' k) (t : ThreadId) :
    (M'.thread t).pending = (M.thread t).pending :=
  (congrArg Thread.pending (h.thread t) :)

theorem top (h : Alike g M M' k) (t : ThreadId) : (M'.thread t).top = (M.thread t).top :=
  (congrArg Thread.top (h.thread t) :)

theorem exited (h : Alike g M M' k) (t : ThreadId) :
    (M'.thread t).exited = (M.thread t).exited :=
  (congrArg Thread.exited (h.thread t) :)

theorem code (h : Alike g M M' k) (t : ThreadId) :
    (M'.thread t).code.map (Instr.seen k (M.thread t).step) =
      (M.thread t).code.map (Instr.seen k (M.thread t).step) := by
  have hcode := congrArg Thread.code (h.thread t)
  simpa only [Thread.seen, h.step] using hcode

theorem rawLock (h : Alike g M M' k) (r : RawLockId) : M'.rawLock r = M.rawLock r := by
  simp only [Machine.rawLock, h.rawLocks]

theorem waiters (h : Alike g M M' k) (p : Place) :
    (M'.waiters p).toList = (M.waiters p).toList := by
  cases p with
  | mutex m => exact h.waiting m
  | condition c => exact h.conditions c

theorem length_waiters (h : Alike g M M' k) (p : Place) :
    (M'.waiters p).length = (M.waiters p).length := by
  rw [← WaitList.length_toList, h.waiters, WaitList.length_toList]

theorem isResumable (h : Alike g M M' k) : M'.isResumable = M.isResumable := by
  funext u
  simp only [Machine.isResumable, h.handle]

theorem survivors (h : Alike g M M' k) {l l' : WaitList HandleId} (hl : l'.toList = l.toList) :
    M'.survivors l' = M.survivors l := by
  simp only [Machine.survivors, h.isResumable, hl]

theorem nameOf (h : Alike g M M' k) : M'.nameOf = M.nameOf := by
  funext u
  simp only [Machine.nameOf, h.handleNames]

theorem lookup_veil (names : List (String × Option Object)) (name : String) :
    ((names.map fun entry => (entry.1, entry.2.map (Object.veil g))).lookup name).join =
      ((names.lookup name).join).map (Object.veil g) := by
  induction names with
  | nil => rfl
  | cons entry names ih =>
      obtain ⟨key, o⟩ := entry
      simp only [List.map_cons, List.lookup_cons]
      split
      · rfl
      · exact ih

theorem object? (h : Alike g M M' k) (name : String) :
    M'.object? name = (M.object? name).map (Object.veil g) := by
  simp only [Machine.object?, h.names]
  exact lookup_veil M.names name

theorem thread? (h : Alike g M M' k) (name : String) : M'.thread? name = M.thread? name := by
  simp only [Machine.thread?, h.handleNames, h.size_threads]

theorem handle? (h : Alike g M M' k) (name : String) : M'.handle? name = M.handle? name := by
  unfold Machine.handle?
  rw [h.thread?, h.object?]
  cases M.thread? name with
  | some u => rfl
  | none =>
      cases M.object? name with
      | none => rfl
      | some o =>
          cases o with
          | mutex m =>
              simp only [Option.map_some, Object.veil]
              cases g m <;> rfl
          | _ => rfl

/-! ### Parts of the state -/

theorem setHandle (h : Alike g M M' k) (u : HandleId) (s : Handle) :
    Alike g (M.setHandle u s) (M'.setHandle u s) k :=
  { h with handles := by simp only [Machine.setHandle, h.handles] }

theorem setRawLock (h : Alike g M M' k) (r : RawLockId) (s : RawLock) :
    Alike g (M.setRawLock r s) (M'.setRawLock r s) k :=
  { h with rawLocks := by simp only [Machine.setRawLock, h.rawLocks] }

theorem setThread (h : Alike g M M' k) (t : ThreadId) {s s' : Thread α}
    (hs : s'.seen k = s.seen k) : Alike g (M.setThread t s) (M'.setThread t s') k := by
  refine { h with threads := ?_ }
  have hmap : ∀ (s : Thread α) cells, (Table.setCell s t cells).map (Thread.seen k) =
      Table.setCell (s.seen k) t (cells.map (Thread.seen k)) := fun s =>
    Table.map_setCell (f := Thread.seen k) rfl s t
  simp only [Machine.setThread, Table.set, hmap, hs, h.threads]

theorem setCode (h : Alike g M M' k) (t : ThreadId) {code code' : List (Instr α)}
    (hcode : code'.map (Instr.seen k (M.thread t).step) =
      code.map (Instr.seen k (M.thread t).step)) :
    Alike g (M.setCode t code) (M'.setCode t code') k := by
  refine h.setThread t ?_
  simp only [Thread.seen, h.step, h.pending, h.top, h.exited, hcode]

theorem makeReady (h : Alike g M M' k) (t : ThreadId) :
    Alike g (M.makeReady t) (M'.makeReady t) k :=
  { h with ready := by simp only [Machine.makeReady, h.ready] }

theorem note (h : Alike g M M' k) {e e' : Entry α} (he : e'.seen k = e.seen k) :
    Alike g (M.note e) (M'.note e') k :=
  { h with log := by simp only [Machine.note, List.map_append, List.map_cons, he, h.log] }

theorem length_tasks (h : Alike g M M' k) (l : TaskListId) :
    (M'.taskLists.get l).length = (M.taskLists.get l).length := by
  rw [← WaitList.length_toList, h.taskLists, WaitList.length_toList]

theorem setTasks (h : Alike g M M' k) (l : TaskListId) {tasks tasks' : WaitList HandleId}
    (htasks : tasks'.toList = tasks.toList) (hfull : k = .full → tasks' = tasks) :
    Alike g { M with taskLists := M.taskLists.set l tasks }
      { M' with taskLists := M'.taskLists.set l tasks' } k := by
  refine { h with taskLists := fun l' => ?_, storage := fun hk => ?_ }
  · simp only [Table.get_set]
    split
    · exact htasks
    · exact h.taskLists l'
  · simp only [h.storage hk, hfull hk]

theorem withReady (h : Alike g M M' k) (ready : List ThreadId) :
    Alike g { M with ready } { M' with ready } k :=
  { h with ready := rfl }

theorem withLog (h : Alike g M M' k) (log : List (Entry α)) :
    Alike g { M with log } { M' with log } k :=
  { h with log := rfl }

theorem setMutex (h : Alike g M M' k) (m : MutexId) {s s' : Mutex} (howner : s'.owner = s.owner)
    (hwaiting : s'.waiting.toList = s.waiting.toList) :
    Alike g (M.setMutex m s) (M'.setMutex m s') k := by
  refine { h with owner := fun m' => ?_, waiting := fun m' => ?_ }
  · rw [mutex_setMutex, mutex_setMutex]
    split
    · exact howner
    · exact h.owner m'
  · rw [mutex_setMutex, mutex_setMutex]
    split
    · exact hwaiting
    · exact h.waiting m'

theorem setOwner (h : Alike g M M' k) (m : MutexId) (o : Option HandleId) :
    Alike g (M.setOwner m o) (M'.setOwner m o) k :=
  h.setMutex m rfl (h.waiting m)

theorem setWaiters (h : Alike g M M' k) (p : Place) {l l' : WaitList HandleId}
    (hl : l'.toList = l.toList) : Alike g (M.setWaiters p l) (M'.setWaiters p l') k := by
  cases p with
  | mutex m => exact h.setMutex m (h.owner m) hl
  | condition c =>
      refine { h with conditions := fun c' => ?_ }
      show ((M'.conditions.set c l').get c').toList = ((M.conditions.set c l).get c').toList
      rw [Table.get_set, Table.get_set]
      split
      · exact hl
      · exact h.conditions c'

theorem enqueue (h : Alike g M M' k) (p : Place) (u : HandleId) :
    Alike g (M.enqueue p u) (M'.enqueue p u) k :=
  h.setWaiters p (by rw [WaitList.toList_push, WaitList.toList_push, h.waiters])

theorem setQueue (h : Alike g M M' k) (q : QueueId) {s s' : Queue α} (hs : s.Alike s') :
    Alike g (M.setQueue q s) (M'.setQueue q s') k := by
  refine { h with queue := fun q' => ?_ }
  rw [queue_setQueue, queue_setQueue]
  split
  · exact hs
  · exact h.queue q'

theorem forget (h : Alike g M M' k) (name : String) :
    Alike g (M.forget name) (M'.forget name) k := by
  refine { h with names := ?_ }
  simp only [Machine.forget, h.names, List.map_map]
  refine List.map_congr_left fun entry _ => ?_
  simp only [Function.comp_apply]
  split <;> rfl

/-! ### Waking -/

theorem roused (h : Alike g M M' k) (u : HandleId) : Alike g (M.roused u) (M'.roused u) k :=
  { h with
    handles := by simp only [Machine.roused, h.handle, h.handles]
    ready := by simp only [Machine.roused, h.handle, h.ready] }

theorem tryResume (h : Alike g M M' k) (u : HandleId) :
    AlikeWith g (M.tryResume u) (M'.tryResume u) k := by
  cases live : M.isResumable u with
  | true =>
      have live' : M'.isResumable u = true := by rw [h.isResumable, live]
      rw [tryResume_of_resumable live, tryResume_of_resumable live']
      exact .intro (h.roused u)
  | false =>
      have dead' : M'.isResumable u = false := by rw [h.isResumable, live]
      rw [tryResume_of_not_resumable live, tryResume_of_not_resumable dead']
      exact .intro (h.note rfl)

/-- Two lists with the same entries give the same entry away, and have the same entries then. -/
theorem shift? {β : Type} {l l' : WaitList β} (hl : l'.toList = l.toList) :
    (l.shift? = none ∧ l'.shift? = none) ∨
      ∃ v rest rest', l.shift? = some (v, rest) ∧ l'.shift? = some (v, rest') ∧
        rest'.toList = rest.toList := by
  cases hv : l.toList with
  | nil => exact .inl ⟨WaitList.shift?_eq_none hv, WaitList.shift?_eq_none (hl.trans hv)⟩
  | cons v vs =>
      obtain ⟨rest, hshift, hrest⟩ := WaitList.shift?_eq_some hv
      obtain ⟨rest', hshift', hrest'⟩ := WaitList.shift?_eq_some (hl.trans hv)
      exact .inr ⟨v, rest, rest', hshift, hshift', hrest'.trans hrest.symm⟩

theorem wakeOneOf (h : Alike g M M' k) (p : Place) (count : Nat) :
    AlikeWith g (M.wakeOneOf p count) (M'.wakeOneOf p count) k := by
  induction count generalizing M M' with
  | zero => exact .intro h
  | succ count ih =>
      unfold Machine.wakeOneOf
      rcases shift? (h.waiters p) with ⟨hnone, hnone'⟩ | ⟨u, rest, rest', hs, hs', hrest⟩
      · rw [hnone, hnone']
        exact .intro h
      · rw [hs, hs']
        obtain ⟨N, N', resumed, hN, hN', hstate⟩ := ((h.setWaiters p hrest).tryResume u).parts
        simp only [hN, hN']
        cases resumed with
        | true => exact .intro hstate
        | false => exact ih hstate

theorem wakeOne (h : Alike g M M' k) (p : Place) : AlikeWith g (M.wakeOne p) (M'.wakeOne p) k := by
  unfold Machine.wakeOne
  rw [h.length_waiters]
  exact h.wakeOneOf p _

theorem wakeTimes (h : Alike g M M' k) (p : Place) (count : Nat) :
    Alike g (M.wakeTimes p count) (M'.wakeTimes p count) k := by
  induction count generalizing M M' with
  | zero => exact h
  | succ count ih => exact ih (h.wakeOne p).state

theorem wakeMany (h : Alike g M M' k) (p : Place) (count : Nat) :
    Alike g (M.wakeMany p count) (M'.wakeMany p count) k := by
  unfold Machine.wakeMany
  rw [h.length_waiters]
  exact h.wakeTimes p _

theorem resumeAll (h : Alike g M M' k) (hs : List HandleId) :
    AlikeWith g (M.resumeAll hs) (M'.resumeAll hs) k := by
  induction hs generalizing M M' with
  | nil => exact .intro h
  | cons u hs ih =>
      have hu := h.tryResume u
      have hrest := ih hu.state
      refine ⟨hrest.state, ?_⟩
      simp only [Machine.resumeAll, hu.result, hrest.result]

theorem wakeAll (h : Alike g M M' k) (p : Place) : AlikeWith g (M.wakeAll p) (M'.wakeAll p) k := by
  have hrest : Alike g (M.setWaiters p (M.waiters p).drainAll.2)
      (M'.setWaiters p (M'.waiters p).drainAll.2) k := h.setWaiters p (by simp)
  have htaken : (M'.waiters p).drainAll.1 = (M.waiters p).drainAll.1 := by
    simp [h.waiters]
  have hresumed := hrest.resumeAll (M.waiters p).drainAll.1
  rw [← htaken] at hresumed
  simpa only [Machine.wakeAll, htaken] using hresumed

/-! ### Locks -/

theorem tryLock (h : Alike g M M' k) (m : MutexId) (u : HandleId) :
    AlikeWith g (M.tryLock m u) (M'.tryLock m u) k := by
  unfold Machine.tryLock
  rw [h.owner]
  cases (M.mutex m).owner with
  | none => exact .intro (h.setOwner m _)
  | some o => exact .intro h

theorem releaseWith (h : Alike g M M' k) (m : MutexId) {action : Action α} (ha : IsFair g action k)
    (runWhenFree : Bool) :
    AlikeWith g (M.releaseWith m action runWhenFree) (M'.releaseWith m action runWhenFree) k := by
  unfold Machine.releaseWith
  rw [h.owner]
  cases (M.mutex m).owner with
  | none =>
      cases runWhenFree with
      | true =>
          obtain ⟨hstate, hresult⟩ := ha h
          exact ⟨hstate, by simp only [if_true, hresult]⟩
      | false => exact .intro h
  | some o =>
      obtain ⟨hstate, hresult⟩ := ha (h.setOwner m none)
      exact ⟨(hstate.wakeOne _).state, by simp only [hresult]⟩

theorem unlock (h : Alike g M M' k) (m : MutexId) : AlikeWith g (M.unlock m) (M'.unlock m) k :=
  h.releaseWith m (fun _ _ h => .intro h) false

theorem trySeize (h : Alike g M M' k) (r : RawLockId) (u : HandleId) :
    AlikeWith g (M.trySeize r u) (M'.trySeize r u) k := by
  unfold Machine.trySeize
  rw [h.rawLock]
  dsimp only
  split
  · exact .intro h
  · exact .intro (h.setRawLock r _)

theorem unlockRaw (h : Alike g M M' k) (r : RawLockId) :
    Alike g (M.unlockRaw r) (M'.unlockRaw r) k := by
  unfold Machine.unlockRaw
  rw [h.rawLock]
  dsimp only
  split
  · exact h.setRawLock r _
  · exact (h.setRawLock r _).makeReady _

theorem releaseRaw (h : Alike g M M' k) (r : RawLockId) (u : HandleId) {action : Action α}
    (ha : IsFair g action k) :
    AlikeWith g (M.releaseRaw r u action) (M'.releaseRaw r u action) k := by
  unfold Machine.releaseRaw
  rw [h.rawLock]
  split
  · obtain ⟨N, N', panic, hN, hN', hstate⟩ := (ha h).parts
    rw [hN, hN']
    cases panic with
    | some message => exact .intro hstate
    | none =>
        refine .intro (Alike.unlockRaw ?_ r)
        dsimp only
        rw [hstate.rawLock]
        exact hstate.setRawLock r _
  · exact .intro h

theorem exclusiveRelease (h : Alike g M M' k) (l : Lockable) (u : HandleId) {action : Action α}
    (ha : IsFair g action k) :
    AlikeWith g (M.exclusiveRelease l u action) (M'.exclusiveRelease l u action) k := by
  cases l with
  | native m | wrapped m | minimal m => exact h.releaseWith m ha false
  | raw r => exact h.releaseRaw r u ha

theorem isHeldByOther (h : Alike g M M' k) (l : Lockable) (u : HandleId) :
    M'.isHeldByOther l u = M.isHeldByOther l u := by
  cases l with
  | native m | wrapped m => simp only [Machine.isHeldByOther, h.owner]
  | minimal m => rfl
  | raw r => simp only [Machine.isHeldByOther, h.rawLock]

/-! ### Waits -/

theorem departNative (h : Alike g M M' k) (c : ConditionId) (m : MutexId) (u : HandleId) :
    AlikeWith g (M.departNative c m u) (M'.departNative c m u) k := by
  unfold Machine.departNative
  rw [h.owner]
  cases (M.mutex m).owner with
  | none => exact .intro h
  | some o =>
      dsimp only
      split
      · exact .intro (((h.enqueue _ u).setOwner m none).wakeOne _).state
      · exact .intro h

theorem departThrough (h : Alike g M M' k) (c : ConditionId) (l : Lockable) (u : HandleId) :
    AlikeWith g (M.departThrough c l u) (M'.departThrough c l u) k := by
  unfold Machine.departThrough
  rw [h.isHeldByOther]
  split
  · exact .intro h
  · have hfair : IsFair g (Action.ofChange (α := α) (·.enqueue (.condition c) u)) k :=
      fun _ _ h => .intro (h.enqueue _ u)
    obtain ⟨N, N', r, hN, hN', hstate⟩ := (h.exclusiveRelease l u hfair).parts
    rw [hN, hN']
    cases r <;> exact .intro hstate

theorem departSame (h : Alike g M M' k) (c : ConditionId) (l : Lockable) (u : HandleId) :
    AlikeWith g (M.depart c l u) (M'.depart c l u) k := by
  cases l with
  | native m => exact h.departNative c m u
  | wrapped m | minimal m | raw m => exact h.departThrough c _ u

theorem depart (h : Alike g M M' k) (c : ConditionId) {l : Lockable} {u : HandleId}
    (hown : ∀ m o, l = .native m → g m = .minimal → (M.mutex m).owner = some o → o = u) :
    AlikeWith g (M.depart c l u) (M'.depart c (l.veil g) u) k := by
  rw [depart_veil c fun m o hl hg ho => hown m o hl hg (by rw [← h.owner, ho])]
  exact h.departSame c l u

/-! ### Transactions -/

theorem waitHeld (h : Alike g M M' k) (t : ThreadId) {s s' : Queue α} (hs : s.Alike s')
    (c : ConditionId) (again : Instr α) :
    AlikeWith g (M.waitHeld t s c again) (M'.waitHeld t s' c again) k := by
  unfold Machine.waitHeld
  rw [hs.mutex]
  obtain ⟨N, N', departure, hN, hN', hstate⟩ := (h.departNative c s.mutex t).parts
  rw [hN, hN']
  cases departure <;> exact .intro hstate

theorem queueWaiting (h : Alike g M M' k) (q : QueueId) : M'.queueWaiting q = M.queueWaiting q := by
  simp only [Machine.queueWaiting, (h.queue q).valueAvailable, (h.queue q).spaceAvailable,
    h.length_waiters]

theorem finishTransaction_eq {s s' : Queue α} (hs : s.Alike s') (path : Path) (r : Result α) :
    finishTransaction s' path r = finishTransaction s path r := by
  simp only [finishTransaction, hs.mutex]

/-- Two queues that name the same condition variable wake the same waiter. -/
theorem wakeOneOn (h : Alike g M M' k) {c c' : ConditionId} (hc : c' = c) :
    Alike g (M.wakeOne (.condition c)).1 (M'.wakeOne (.condition c')).1 k := by
  rw [hc]
  exact (h.wakeOne _).state

theorem addValue (h : Alike g M M' k) (t : ThreadId) (q : QueueId) (path : Path) (v : α) :
    AlikeWith g (M.addValue t q path v) (M'.addValue t q path v) k := by
  have hq := h.queue q
  have hpush : ((M'.queue q).values.push v).toList = ((M.queue q).values.push v).toList := by
    simp [hq.values]
  unfold Machine.addValue
  simp only [hq.isFull]
  split
  · rw [hq.spaceAvailable]
    exact h.waitHeld t hq _ _
  · exact ⟨(h.setQueue q (hq.withValues hpush)).wakeOneOn hq.valueAvailable,
      finishTransaction_eq hq path .done⟩

theorem takeValue (h : Alike g M M' k) (t : ThreadId) (q : QueueId) (path : Path) :
    AlikeWith g (M.takeValue t q path) (M'.takeValue t q path) k := by
  have hq := h.queue q
  unfold Machine.takeValue
  rcases shift? hq.values with ⟨hnone, hnone'⟩ | ⟨v, rest, rest', hs, hs', hrest⟩
  · simp only [hnone, hnone', hq.valueAvailable]
    exact h.waitHeld t hq _ _
  · have hq' := hq.withValues hrest
    have hset := h.setQueue q hq'
    simp only [hs, hs', hq'.hasSpace]
    refine ⟨?_, finishTransaction_eq hq' path (.taken v)⟩
    split
    · exact hset.wakeOneOn hq.spaceAvailable
    · exact hset

theorem resizeQueue (h : Alike g M M' k) (q : QueueId) (capacity : Word) :
    Alike g (M.resizeQueue q capacity) (M'.resizeQueue q capacity) k := by
  have hq := h.queue q
  have hadded : (M'.queue q).addedSlots capacity = (M.queue q).addedSlots capacity := by
    simp only [Queue.addedSlots, hq.capacity]
  have hset := (h.setQueue q (hq.withCapacity capacity)).note
    (e := .resized capacity ((M.queue q).addedSlots capacity)) rfl
  have hwake := hset.wakeMany (.condition (M.queue q).spaceAvailable)
    ((M.queue q).addedSlots capacity)
  rw [← hq.spaceAvailable] at hwake
  simpa only [Machine.resizeQueue, hadded, hq.spaceAvailable] using hwake

theorem clearQueue (h : Alike g M M' k) (q : QueueId) :
    Alike g (M.clearQueue q) (M'.clearQueue q) k := by
  have hq := h.queue q
  have hclear : (M'.queue q).values.clear.toList = (M.queue q).values.clear.toList := by simp
  exact (h.setQueue q (hq.withValues hclear)).wakeOneOn hq.spaceAvailable

theorem transact (h : Alike g M M' k) (t : ThreadId) (q : QueueId) (path : Path)
    (tr : Transaction α) : AlikeWith g (M.transact t q path tr) (M'.transact t q path tr) k := by
  have hq := h.queue q
  cases tr with
  | add v => exact h.addValue t q path v
  | take => exact h.takeValue t q path
  | tryTake =>
      simp only [Machine.transact, hq.isEmpty, finishTransaction_eq hq]
      split
      · exact .intro h
      · exact h.takeValue t q path
  | clear => exact ⟨h.clearQueue q, finishTransaction_eq hq _ _⟩
  | resize capacity => exact ⟨h.resizeQueue q capacity, finishTransaction_eq hq _ _⟩
  | isEmpty | length | numWaiting | capacity | values =>
      simp only [Machine.transact, hq.isEmpty, hq.length, h.queueWaiting, hq.capacity, hq.values,
        finishTransaction_eq hq]
      exact .intro h

end Alike

end Machine

end BlockingSync
