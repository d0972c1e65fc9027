/-
Performing operations.

An operation is taken apart by the kind of its object.  What can be answered at once is
reported at once; what may have to wait becomes a few instructions.
-/
import BlockingSync.Machine.Display

namespace BlockingSync.Machine

variable {α : Type}

/-- Reports the end of a release that counts the runs of its action. -/
def yieldRelease (path : Path) (result : Bool → Result α) : Release → Next α
  | .refused => .yield path (result false)
  | .released => .yield path (result true)
  | .panicked message => .unwind message

/-- Reports an audit. -/
def yieldAudit (path : Path) : Option Leak → Next α
  | none => .yield path .ok
  | some leak => .yield path (.leaked leak)

/-- An operation of the interface of locks; other operations are unknown to a mere lock. -/
def performLockable (M : Machine α) (t : ThreadId) (path : Path) (l : Lockable) :
    Verb α → Machine α × Next α
  | .acquire => (M, .goOn [acquire l, .report path .done])
  | .release =>
    let (M, r) := M.exclusiveRelease l t (.ofPanic none)
    (M, yieldRelease path .flag r)
  | .exclusiveRelease panic =>
    let (M, r) := M.exclusiveRelease l t (.ofPanic panic)
    (M, yieldRelease path (fun b => .released b b.toNat) r)
  | .isHeldByOther => (M, .yield path (.flag (M.isHeldByOther l t)))
  | .isNative => (M, .yield path (.flag (isNative l)))
  | _ => (M, .yield path .badOperation)

/-- An operation on a mutex. -/
def performMutex (M : Machine α) (t : ThreadId) (path : Path) (m : MutexId) (verb : Verb α) :
    Machine α × Next α :=
  match verb with
  | .lock => (M, .goOn [.lock m, .report path .done])
  | .tryLock =>
    let (M, locked) := M.tryLock m t
    (M, .yield path (.flag locked))
  | .unlock =>
    let (M, r) := M.unlock m
    (M, yieldRelease path .flag r)
  | .exclusiveUnlock panic =>
    let (M, r) := M.releaseWith m (.ofPanic panic) true
    (M, yieldRelease path (.unlocked · true) r)
  | .isLocked => (M, .yield path (.flag (M.mutex m).owner.isSome))
  | .isOwned => (M, .yield path (.flag ((M.mutex m).owner == some t)))
  | .owner => (M, .yield path (.task ((M.mutex m).owner.map M.nameOf)))
  | .numWaiting => (M, .yield path (.count (M.mutex m).waiting.length))
  | .audit => (M, yieldAudit path (M.auditMutex m))
  | .debug => (M, .yield path (.text (M.mutex m).debug))
  | .json => (M, .yield path (.text "null"))
  | verb => M.performLockable t path (.native m) verb

/-- An operation on an adapter. -/
def performAdapter (M : Machine α) (t : ThreadId) (path : Path) (r : RawLockId) (verb : Verb α) :
    Machine α × Next α :=
  match verb with
  | .isLocked => (M, .yield path (.flag (M.rawLock r).locked))
  | .isHeldByCurrent => (M, .yield path (.flag ((M.rawLock r).owner == some t)))
  | .tryAcquire =>
    let (M, seized) := M.trySeize r t
    (M, .yield path (.flag seized))
  | .debug => (M, .yield path (.text (M.rawLock r).debug))
  | verb => M.performLockable t path (.raw r) verb

/-- The lock that an object is. -/
def lockable? : Object → Option Lockable
  | .mutex m => some (.native m)
  | .wrapped m => some (.wrapped m)
  | .minimal m => some (.minimal m)
  | .adapter r => some (.raw r)
  | _ => none

/-- A wait on a condition variable. -/
def performWait (M : Machine α) (t : ThreadId) (path : Path) (c : ConditionId) (lock : String) :
    Machine α × Next α :=
  match M.object? lock with
  | none => (M, .yield path .noSuchObject)
  | some object =>
    match lockable? object with
    | none => (M, .yield path .badOperation)
    | some l =>
      match M.depart c l t with
      | (M, .departed) => (M, .goOn [.suspend t (some (.condition c)), acquire l, .report path .ok])
      | (M, .unowned) => (M, .yield path .ok)
      | (M, .notOwner) => (M, .yield path (.failed .ownership))

/-- An operation on a condition variable. -/
def performCondition (M : Machine α) (t : ThreadId) (path : Path) (c : ConditionId) :
    Verb α → Machine α × Next α
  | .wait lock => M.performWait t path c lock
  | .signal => ((M.wakeOne (.condition c)).1, .yield path .done)
  | .broadcast => ((M.wakeAll (.condition c)).1, .yield path .done)
  | .numWaiting => (M, .yield path (.count (M.waiters (.condition c)).length))
  | .audit => (M, yieldAudit path (M.auditCondition c))
  | .debug => (M, .yield path (.text (M.waiters (.condition c)).debugCondition))
  | .json => (M, .yield path (.text "null"))
  | _ => (M, .yield path .badOperation)

/-- The transaction behind an operation on a queue. -/
def transaction? : Verb α → Option (Transaction α)
  | .push v => some (.add v)
  | .pop | .shift => some .take
  | .popWith nonBlocking => some (if nonBlocking then .tryTake else .take)
  | .clear => some .clear
  | .isEmpty => some .isEmpty
  | .length | .size => some .length
  | .numWaiting => some .numWaiting
  | .capacity => some .capacity
  | .values => some .values
  | .setCapacity capacity => some (.resize capacity)
  | _ => none

/-- The refusal of a bound of zero. -/
def zeroCapacity : SyncError := .argument "value must be positive"

/-- An operation on a queue.  Most run as a transaction inside the mutex of the queue. -/
def performQueue (M : Machine α) (path : Path) (q : QueueId) (verb : Verb α) :
    Machine α × Next α :=
  match verb with
  | .audit => (M, yieldAudit path (M.auditQueue q))
  | .debug => (M, .yield path (.text (M.queue q).debug))
  | .snapshot => (M, .yield path (.record (M.queue q).toRecord))
  | verb =>
    match transaction? verb with
    | none => (M, .yield path .badOperation)
    | some (.resize ⟨0, _⟩) => (M, .yield path (.failed zeroCapacity))
    | some transaction =>
      (M, .goOn [.lock (M.queue q).mutex, .transact q path transaction])

/-- Resumes tasks in order and says of each whether that was possible. -/
def resumeEach (M : Machine α) : List HandleId → Machine α × List (String × Bool)
  | [] => (M, [])
  | h :: hs =>
    let (M', resumed) :=
      match M.resume? h with
      | some M => (M, true)
      | none => (M, false)
    let (M'', rest) := M'.resumeEach hs
    (M'', (M.nameOf h, resumed) :: rest)

/-- An operation on a plain list of tasks. -/
def performTasks (M : Machine α) (path : Path) (l : TaskListId) :
    Verb α → Machine α × Next α
  | .shift =>
    match (M.taskLists.get l).shift? with
    | none => (M, .yield path (.task none))
    | some (h, rest) =>
      ({ M with taskLists := M.taskLists.set l rest }, .yield path (.task (some (M.nameOf h))))
  | .clear =>
    ({ M with taskLists := M.taskLists.modify l WaitList.clear }, .yield path .done)
  | .length => (M, .yield path (.count (M.taskLists.get l).length))
  | .pooled => (M, .yield path (.count (M.taskLists.get l).pooled))
  | .survivors => (M, .yield path (.count (M.survivors (M.taskLists.get l))))
  | .drainResume limit =>
    let tasks := M.taskLists.get l
    let (hs, rest) := tasks.drain (limit.getD tasks.length)
    let (M, resumed) := { M with taskLists := M.taskLists.set l rest }.resumeEach hs
    (M, .yield path (.resumed resumed))
  | _ => (M, .yield path .badOperation)

/-- An operation on an object. -/
def performObject (M : Machine α) (t : ThreadId) (path : Path) (object : Object) (verb : Verb α) :
    Machine α × Next α :=
  match object with
  | .mutex m => M.performMutex t path m verb
  | .condition c => M.performCondition t path c verb
  | .queue q => M.performQueue path q verb
  | .adapter r => M.performAdapter t path r verb
  | .wrapped m => M.performLockable t path (.wrapped m) verb
  | .minimal m => M.performLockable t path (.minimal m) verb
  | .task _ => (M, .yield path .badOperation)
  | .tasks l => M.performTasks path l verb

/-- An operation on a task handle. -/
def performTask (M : Machine α) (t : ThreadId) (path : Path) (h : HandleId) :
    TaskVerb → Machine α × Next α
  | .suspend => (M, .goOn [.suspend h none, .report path .done])
  | .resume =>
    match M.resume? h with
    | some M => (M, .yield path .ok)
    | none => (M, .yield path (.terminated ⟨taskNumber h⟩))
  | .terminate =>
    (M.setHandle h { M.handle h with terminated := true }, .yield path .done)
  | .isResumable => (M, .yield path (.flag (M.isResumable h)))
  | .id => (M, .yield path (.count (taskNumber h)))
  | .isCurrent => (M, .yield path (.flag (h == t)))
  | .isSame other =>
    match M.handle? other with
    | some h' => (M, .yield path (.flag (h == h')))
    | none => (M, .yield path .noSuchObject)
  | .debug => (M, .yield path (.text (M.debugTask h)))
  | .pushTo list times =>
    match M.object? list with
    | some (.tasks l) =>
      let append := fun tasks => WaitList.append tasks (List.replicate times h)
      ({ M with taskLists := M.taskLists.modify l append }, .yield path .done)
    | _ => (M, .yield path .noSuchObject)
  | .unknown => (M, .yield path .badOperation)

/-- Takes the meaning from a name. -/
def forget (M : Machine α) (name : String) : Machine α :=
  { M with
    names := M.names.map fun (key, object) => (key, if key = name then none else object) }

/-- The instructions for the operations of a body. -/
def startBody (path : Path) (body : List (Op α)) : List (Instr α) :=
  body.mapIdx fun i op => .start (path ++ [i]) op

/-- Begins an operation. -/
def perform (M : Machine α) (t : ThreadId) (path : Path) : Op α → Machine α × Next α
  | .panic message => (M, .unwind message)
  | .drop name =>
    match M.object? name with
    | none => (M, .yield path .noSuchObject)
    | some object => (M.forget name, .yield path (.dropped (M.auditObject object)))
  | .onTask handle verb =>
    match M.handle? handle with
    | none => (M, .yield path .noSuchObject)
    | some h => M.performTask t path h verb
  | .onObject name verb =>
    match M.object? name with
    | none => (M, .yield path .noSuchObject)
    | some object => M.performObject t path object verb
  | .synchronize name body =>
    match M.object? name with
    | none => (M, .yield path .noSuchObject)
    | some (.mutex m) =>
      (M, .goOn (.lock m :: startBody path body ++
        [.unlock m, .report path (.count body.length)]))
    | some _ => (M, .yield path .badOperation)
  | .guard name body =>
    match M.object? name with
    | none => (M, .yield path .noSuchObject)
    | some (.mutex m) => (M, .goOn (.lock m :: startBody path body ++ [.closeGuard m path]))
    | some _ => (M, .yield path .badOperation)

end BlockingSync.Machine
