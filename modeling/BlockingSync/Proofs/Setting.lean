/-
What is fixed before a run.

A run starts from a machine, its `origin`, and in each step a thread may be given a list
of operations.  A path leads to one operation of the list; that is what ties a line of
the log to the operation it reports.

At the start the queues have parts of their own, which no name means (`Apart`).  What a
run can change is the content of a queue and the meaning of names, and a name can only
lose its meaning; so the parts stay apart (`Fits`).
-/
import BlockingSync.Proofs.Waking

namespace BlockingSync

variable {α : Type}

/-! ### Operations by their paths -/

/-- The operations inside an operation. -/
def Op.body : Op α → List (Op α)
  | .synchronize _ body | .guard _ body => body
  | _ => []

/-- The operation that a path leads to. -/
def Op.find? : List (Op α) → Path → Option (Op α)
  | _, [] => none
  | ops, [i] => ops[i]?
  | ops, i :: path => (ops[i]?).bind fun op => Op.find? op.body path

theorem Op.find?_body {ops : List (Op α)} {path : Path} {op : Op α}
    (h : Op.find? ops path = some op) (i : Nat) : Op.find? ops (path ++ [i]) = op.body[i]? := by
  induction path generalizing ops with
  | nil => simp [Op.find?] at h
  | cons j path ih =>
      cases path with
      | nil =>
          have hj : ops[j]? = some op := h
          simp [Op.find?, hj]
      | cons k path =>
          simp only [Op.find?, Option.bind_eq_some_iff] at h
          obtain ⟨outer, hj, hk⟩ := h
          have := ih hk
          simpa [Op.find?, hj] using this

mutual

/-- Whether an operation leaves the tokens of tasks to the primitives: nothing in it suspends
or resumes a task by itself. -/
def Op.sparesTokens : Op α → Bool
  | .onTask _ .suspend | .onTask _ .resume | .onObject _ (.drainResume _) => false
  | .synchronize _ body | .guard _ body => Op.allSpareTokens body
  | _ => true

/-- The same of all operations of a list. -/
def Op.allSpareTokens : List (Op α) → Bool
  | [] => true
  | op :: ops => op.sparesTokens && Op.allSpareTokens ops

end

theorem Op.sparesTokens_of_mem {ops : List (Op α)} (h : Op.allSpareTokens ops = true) {op : Op α}
    (hop : op ∈ ops) : op.sparesTokens = true := by
  induction ops with
  | nil => simp at hop
  | cons first ops ih =>
      simp only [Op.allSpareTokens, Bool.and_eq_true] at h
      rcases List.mem_cons.1 hop with rfl | hop
      · exact h.1
      · exact ih h.2 hop

theorem Op.allSpareTokens_body {op : Op α} (h : op.sparesTokens = true) :
    Op.allSpareTokens op.body = true := by
  cases op with
  | synchronize name body | guard name body => simpa [Op.sparesTokens, Op.body] using h
  | _ => rfl

theorem Op.sparesTokens_of_find? {ops : List (Op α)} (h : Op.allSpareTokens ops = true)
    {path : Path} {op : Op α} (hop : Op.find? ops path = some op) : op.sparesTokens = true := by
  induction path generalizing ops with
  | nil => simp [Op.find?] at hop
  | cons i path ih =>
      cases path with
      | nil => exact Op.sparesTokens_of_mem h (List.mem_of_getElem? hop)
      | cons j path =>
          simp only [Op.find?, Option.bind_eq_some_iff] at hop
          obtain ⟨outer, hi, hj⟩ := hop
          exact ih (Op.allSpareTokens_body (Op.sparesTokens_of_mem h (List.mem_of_getElem? hi))) hj

/-! ### The parts of queues -/

/-- The two sides on which tasks wait for a queue. -/
inductive Side where
  /-- Consumers wait for a value. -/
  | take
  /-- Producers wait for space. -/
  | add
  deriving DecidableEq

/-- The condition variable on which a side waits. -/
def Queue.condition (s : Queue α) : Side → ConditionId
  | .take => s.valueAvailable
  | .add => s.spaceAvailable

/-- The side on which a transaction may have to wait. -/
def Transaction.side? : Transaction α → Option Side
  | .take => some .take
  | .add _ => some .add
  | _ => none

/-- The mutex that an object shows or hides. -/
def Object.mutex? : Object → Option MutexId
  | .mutex m | .wrapped m | .minimal m => some m
  | _ => none

/-- Queues share no parts with one another, and no name means such a part. -/
structure Machine.Apart (M : Machine α) : Prop where
  mutex_inj : ∀ q < M.queues.size, ∀ q' < M.queues.size,
    (M.queue q).mutex = (M.queue q').mutex → q = q'
  condition_inj : ∀ q < M.queues.size, ∀ q' < M.queues.size, ∀ side side',
    (M.queue q).condition side = (M.queue q').condition side' → q = q' ∧ side = side'
  mutex_ne : ∀ name o m, M.object? name = some o → o.mutex? = some m →
    ∀ q < M.queues.size, (M.queue q).mutex ≠ m
  condition_ne : ∀ name c, M.object? name = some (.condition c) →
    ∀ q < M.queues.size, ∀ side, (M.queue q).condition side ≠ c
  queue_lt : ∀ name q, M.object? name = some (.queue q) → q < M.queues.size

/-- The machine at the start, and the list that is given in each step. -/
structure Setting (α : Type) where
  origin : Machine α
  given : Nat → List (Op α)
  apart : origin.Apart

namespace Setting

variable (S : Setting α)

/-- How many queues there are. -/
def queues : Nat := S.origin.queues.size

/-- The mutex that guards a queue. -/
def mutex (q : QueueId) : MutexId := (S.origin.queue q).mutex

/-- The condition variable on which a side of a queue waits. -/
def condition (q : QueueId) (side : Side) : ConditionId := (S.origin.queue q).condition side

/-- Whether a mutex guards no queue. -/
def IsPublicMutex (m : MutexId) : Prop := ∀ q < S.queues, S.mutex q ≠ m

/-- Whether a condition variable belongs to no queue. -/
def IsPublicCondition (c : ConditionId) : Prop := ∀ q < S.queues, ∀ side, S.condition q side ≠ c

/-- The operation at a path of the list given in a step. -/
def find? (step : Nat) (path : Path) : Option (Op α) := Op.find? (S.given step) path

/-- The queue and the verb at a path, if the operation there is one on a queue. -/
def call? (step : Nat) (path : Path) : Option (QueueId × Verb α) :=
  match S.find? step path with
  | some (.onObject name verb) =>
    match S.origin.object? name with
    | some (.queue q) => some (q, verb)
    | _ => none
  | _ => none

/-- Whether a transaction is the one behind the operation at a path.  A bound of zero is refused
before any transaction. -/
structure Serves (step : Nat) (path : Path) (q : QueueId) (tr : Transaction α) : Prop where
  called : ∃ verb, S.call? step path = some (q, verb) ∧ Machine.transaction? verb = some tr
  positive : ∀ capacity, tr = .resize capacity → 0 < capacity.val

/-- Whether all tokens are left to the primitives. -/
def SparesTokens : Prop := ∀ step, Op.allSpareTokens (S.given step) = true

variable {S}

theorem lt_of_call? {step : Nat} {path : Path} {q : QueueId} {verb : Verb α}
    (h : S.call? step path = some (q, verb)) : q < S.queues := by
  unfold call? at h
  split at h
  · split at h
    · rename_i hname
      simp only [Option.some.injEq, Prod.mk.injEq] at h
      obtain ⟨rfl, -⟩ := h
      exact S.apart.queue_lt _ _ hname
    · simp at h
  · simp at h

theorem Serves.lt {step : Nat} {path : Path} {q : QueueId} {tr : Transaction α}
    (h : S.Serves step path q tr) : q < S.queues := by
  obtain ⟨verb, hcall, -⟩ := h.called
  exact lt_of_call? hcall

/-- An operation on anything else is no operation on a queue. -/
theorem call?_of_object {step : Nat} {path : Path} {name : String} {verb : Verb α} {o : Object}
    (hop : S.find? step path = some (.onObject name verb))
    (ho : S.origin.object? name = some o) (hne : ∀ q, o ≠ .queue q) :
    S.call? step path = none := by
  cases o with
  | queue q => exact absurd rfl (hne q)
  | _ => simp [call?, hop, ho]

theorem call?_of_queue {step : Nat} {path : Path} {name : String} {verb : Verb α} {q : QueueId}
    (hop : S.find? step path = some (.onObject name verb))
    (ho : S.origin.object? name = some (.queue q)) : S.call? step path = some (q, verb) := by
  simp [call?, hop, ho]

theorem call?_of_op {step : Nat} {path : Path} {op : Op α} (hop : S.find? step path = some op)
    (hne : ∀ name verb, op ≠ .onObject name verb) : S.call? step path = none := by
  cases op with
  | onObject name verb => exact absurd rfl (hne name verb)
  | _ => simp [call?, hop]

theorem isPublicMutex_of_object {name : String} {o : Object} {m : MutexId}
    (ho : S.origin.object? name = some o) (hm : o.mutex? = some m) : S.IsPublicMutex m :=
  S.apart.mutex_ne name o m ho hm

theorem isPublicCondition_of_object {name : String} {c : ConditionId}
    (ho : S.origin.object? name = some (.condition c)) : S.IsPublicCondition c :=
  S.apart.condition_ne name c ho

end Setting

/-! ### What a run cannot change -/

/-- Whether a machine has the queues and the names of the setting, but for names forgotten. -/
structure Machine.Fits (S : Setting α) (M : Machine α) : Prop where
  queues : M.queues.size = S.queues
  mutex : ∀ q < S.queues, (M.queue q).mutex = S.mutex q
  condition : ∀ q < S.queues, ∀ side, (M.queue q).condition side = S.condition q side
  named : ∀ name o, M.object? name = some o → S.origin.object? name = some o

namespace Machine

variable {S : Setting α} {M M' : Machine α}

theorem Fits.origin (S : Setting α) : S.origin.Fits S :=
  ⟨rfl, fun _ _ => rfl, fun _ _ _ => rfl, fun _ _ h => h⟩

/-- A machine with the same queues and names fits as well. -/
theorem Fits.congr (h : M.Fits S) (hq : M'.queues = M.queues) (hn : M'.names = M.names) :
    M'.Fits S := by
  have hqueue : ∀ q, M'.queue q = M.queue q := fun q => by simp only [queue, hq]
  refine ⟨by rw [hq, h.queues], ?_, ?_, ?_⟩
  · intro q hlt; rw [hqueue, h.mutex q hlt]
  · intro q hlt side; rw [hqueue, h.condition q hlt]
  · intro name o ho
    exact h.named name o (by simpa only [object?, hn] using ho)

theorem Fits.change {t : ThreadId} {e : Effect} (h : M.Fits S) (hc : Change t M e M') :
    M'.Fits S := by
  refine ⟨?_, ?_, ?_, fun name o ho => h.named name o (hc.object? ho)⟩
  · rw [← h.queues]
    cases hc with
    | refill hq => exact Table.size_set _ hq
    | enter | relist | skip | rouse => simp [enqueue, Machine.note, roused]
    | _ => rfl
  · intro q hlt
    rw [← h.mutex q hlt]
    cases hc with
    | @refill q' s hq hm hv hs =>
        simp only [queue_setQueue]
        split
        · subst q'; exact hm
        · rfl
    | enter | relist | skip | rouse => simp [enqueue, Machine.note, roused, queue]
    | _ => rfl
  · intro q hlt side
    rw [← h.condition q hlt]
    cases hc with
    | @refill q' s hq hm hv hs =>
        simp only [queue_setQueue]
        split
        · subst q'; cases side with
          | take => exact hv
          | add => exact hs
        · rfl
    | enter | relist | skip | rouse => simp [enqueue, Machine.note, roused, queue]
    | _ => rfl

theorem Fits.changes {t : ThreadId} {allowed : Effect → Prop} (h : M.Fits S)
    (hc : Changes allowed t M M') : M'.Fits S :=
  hc.keeps (fun _ _ _ _ last hN => hN.change last) h

end Machine

end BlockingSync
