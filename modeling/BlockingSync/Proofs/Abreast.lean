/-
Two machines side by side.

Objects that may stand for one another are made in both machines, and the same lists are
given in both.  Then the machines are alike after each tick, as long as what the first still
has to do heeds the guises of mutexes; so they see the same in every step, but for what is
passed over.
-/
import BlockingSync.Proofs.Disguise
import BlockingSync.Proofs.Agenda

namespace BlockingSync

variable {α : Type}

/-- Whether a list is the one that is known to be given in a step. -/
def Scrutiny.Gives : Scrutiny α → Nat → List (Op α) → Prop
  | .full, _, _ => True
  | .sparing given, step, ops => given step = ops

/-- A report as it is seen. -/
def Report.seen (k : Scrutiny Json) : Report → Report
  | .ran log tasks objects => .ran (log.map (Entry.seen k)) tasks objects
  | report => report

/-- Where nothing is passed over, a report is seen as it is. -/
theorem Report.seen_eq {k : Scrutiny Json} (h : ∀ step path, k.passesOver step path = false)
    (report : Report) : report.seen k = report := by
  have hentry : Entry.seen k = id := funext (Entry.seen_eq h)
  cases report with
  | skipped obstacle => rfl
  | ran log tasks objects => simp only [Report.seen, hentry, List.map_id]

/-- A mutex to be made, in a guise. -/
def Guise.spec (config : Config) : Guise → Spec
  | .plain => .mutex config
  | .wrapped => .wrapped
  | .minimal => .minimal

/-- Whether an object to be made differs from another at most in its storage and in the guise of a
mutex, which must be one of those shown. -/
inductive Spec.Alike (k : Scrutiny Json) (shown : Guise → Prop) : Spec → Spec → Prop
  | mutex (config config' guise) (h : shown guise) :
      Alike k shown (.mutex config) (guise.spec config')
  | condition (config config') : Alike k shown (.condition config) (.condition config')
  | queue {source source' : QueueSource}
      (h : source'.open.map Prod.fst = source.open.map Prod.fst) :
      Alike k shown (.queue source) (.queue source')
  | adapter : Alike k shown .adapter .adapter
  | wrapped : Alike k shown .wrapped .wrapped
  | minimal : Alike k shown .minimal .minimal
  | task : Alike k shown .task .task
  | tasks {config config' : Config} (h : k = .full → config' = config) :
      Alike k shown (.tasks config) (.tasks config')

theorem Spec.Alike.refl {k : Scrutiny Json} {shown : Guise → Prop} (hplain : shown .plain)
    (spec : Spec) : Spec.Alike k shown spec spec := by
  cases spec with
  | mutex config => exact .mutex config config .plain hplain
  | condition config => exact .condition config config
  | queue source => exact .queue rfl
  | tasks config => exact .tasks fun _ => rfl
  | adapter => exact .adapter
  | wrapped => exact .wrapped
  | minimal => exact .minimal
  | task => exact .task

namespace Machine

/-- Whether the thread that runs is about to wait with a minimal mutex that another task holds. -/
def intrudes (guise : String → Guise) (M : Machine α) : Bool :=
  match M.ready with
  | [] => false
  | t :: _ =>
    match (M.thread t).code with
    | .start _ op :: _ => M.isIntrusion guise t op
    | _ => false

/-- Whether a property holds before each tick until no thread is ready, for at most `fuel` ticks. -/
def holdsUntilStill (p : Machine α → Bool) : Nat → Machine α → Bool
  | 0, _ => true
  | fuel + 1, M => M.ready.isEmpty || p M && holdsUntilStill p fuel M.tick

end Machine

/-- Whether a property holds before every tick of the given steps, the first of which has the
given index. -/
def Scenario.alwaysFrom (p : Machine Json → Bool) (M : Machine Json) (index : Nat) :
    List (String × Order) → Bool
  | [] => true
  | (task, order) :: orders =>
    (match M.thread? task with
      | none => true
      | some t =>
        match M.status t with
        | .blocked | .exited => true
        | .idle =>
          let M := M.begin t index order.ops?
          M.holdsUntilStill p M.effort) &&
      alwaysFrom p (step M index task order).1 (index + 1) orders

/-! ### Ticks -/

namespace Machine

section

variable {g : MutexId → Guise} {k : Scrutiny α} {M M' : Machine α}

theorem instrWork_seen (k : Scrutiny α) (step : Nat) (i : Instr α) :
    instrWork (i.seen k step) = instrWork i := by
  cases i <;> rfl

theorem threadWork_seen (k : Scrutiny α) (s : Thread α) : threadWork (s.seen k) = threadWork s := by
  simp only [threadWork, Thread.seen, List.foldr_map, instrWork_seen]

theorem cleanup_seen (k : Scrutiny α) (step : Nat) (code : List (Instr α)) :
    cleanup (code.map (Instr.seen k step)) = cleanup code := by
  induction code with
  | nil => rfl
  | cons i code ih => cases i <;> simp only [List.map_cons, Instr.seen, cleanup, ih]

namespace Alike

theorem tick (h : Alike g M M' k)
    (hstart : ∀ t others path op code, M.ready = t :: others →
      (M.thread t).code = .start path op :: code →
      op.heeds (M.guiseOf g) = true ∧ M.isIntrusion (M.guiseOf g) t op = false ∧
        k.Knows (M.thread t).step path op) :
    Alike g M.tick M'.tick k := by
  unfold Machine.tick
  rw [h.ready]
  split
  · exact h
  · rename_i t others hready
    have hcode := h.code t
    simp only [h.pending]
    split
    · rename_i hnil hpending
      rw [hnil, List.map_nil, List.map_eq_nil_iff] at hcode
      simp only [hcode, hpending]
      exact h.withReady others
    · rename_i i op pending hnil hpending
      rw [hnil, List.map_nil, List.map_eq_nil_iff] at hcode
      simp only [hcode, hpending]
      refine h.setThread t ?_
      simp only [Thread.seen, h.step, h.exited]
    · rename_i i code hcons
      rw [hcons, List.map_cons, List.map_eq_cons_iff] at hcode
      obtain ⟨i', code', hcons', hi, hrest⟩ := hcode
      have hexecute := h.execute t hi fun path op hi =>
        hstart t others path op code hready (hi ▸ hcons)
      obtain ⟨hstate, hnext⟩ := hexecute
      -- The thread still belongs to the same step, which tells what is passed over.
      have hstep : ((M.execute t i).1.thread t).step = (M.thread t).step :=
        congrArg Thread.step (thread_congr (threads_execute M t i) t)
      simp only [hcons', h.top]
      rcases Next.cases_of_seen hnext with
        ⟨more, more', hmore, hmore', hsame⟩ | ⟨hpark, hpark'⟩ | ⟨message, hunwind, hunwind'⟩
      · rw [show M.execute t i = ((M.execute t i).1, .goOn more) from Prod.ext rfl hmore,
          show M'.execute t i' = ((M'.execute t i').1, .goOn more') from Prod.ext rfl hmore']
        refine hstate.setCode t ?_
        rw [List.map_append, List.map_append, hsame, hstep, hrest]
      · rw [show M.execute t i = ((M.execute t i).1, .park) from Prod.ext rfl hpark,
          show M'.execute t i' = ((M'.execute t i').1, .park) from Prod.ext rfl hpark']
        simp only [hstate.ready]
        exact hstate.withReady _
      · rw [show M.execute t i = ((M.execute t i).1, .unwind message) from Prod.ext rfl hunwind,
          show M'.execute t i' = ((M'.execute t i').1, .unwind message) from
            Prod.ext rfl hunwind']
        refine hstate.setCode t ?_
        have hcleanup := congrArg cleanup hrest
        rw [cleanup_seen, cleanup_seen] at hcleanup
        rw [hcleanup]

theorem effort (h : Alike g M M' k) : M'.effort = M.effort := by
  have hwork : ∀ N : Machine α,
      N.work = (N.threads.cells.map (Thread.seen k)).foldr (threadWork · + ·) 0 := fun N => by
    simp only [work, List.foldr_map, threadWork_seen]
  simp only [Machine.effort, hwork, h.threads, h.size_threads]

theorem status (h : Alike g M M' k) (t : ThreadId) : M'.status t = M.status t := by
  have hempty : (M'.thread t).code.isEmpty = (M.thread t).code.isEmpty := by
    simpa only [List.isEmpty_map] using congrArg List.isEmpty (h.code t)
  simp only [Machine.status, h.exited, h.pending, hempty]

theorem begin (h : Alike g M M' k) (t : ThreadId) (step : Nat) (ops? : Option (List (Op α))) :
    Alike g (M.begin t step ops?) (M'.begin t step ops?) k := by
  cases ops? with
  | none =>
      simp only [Machine.begin, Machine.exit, h.handle]
      refine ((h.setThread t ?_).setHandle t _).withLog []
      simp only [Thread.seen, h.step, h.code, h.pending, h.top]
  | some ops =>
      have hlog := h.withLog []
      simp only [Machine.begin, Machine.give]
      refine (hlog.setThread t ?_).makeReady t
      simp only [Thread.seen, hlog.top, hlog.exited]

end Alike

/-- Two machines side by side, the second with mutexes in the guises `g`; the first still has to
do only what was given, and what heeds the guises that names have. -/
structure Abreast (guise : String → Guise) (g : MutexId → Guise) (M M' : Machine α)
    (k : Scrutiny α := .full) : Prop where
  alike : Alike g M M' k
  planned : Planned (fun step path op => op.all (Op.heeds guise) = true ∧ k.Knows step path op) M
  known : ∀ name m, M.object? name = some (.mutex m) → guise name = g m

variable {guise : String → Guise}

theorem heeds_of_known (hknown : ∀ name m, M.object? name = some (.mutex m) → guise name = g m)
    {op : Op α} (h : op.heeds guise = true) : op.heeds (M.guiseOf g) = true := by
  have hcases : ∀ name, M.guiseOf g name = .plain ∨ M.guiseOf g name = guise name := by
    intro name
    unfold guiseOf
    split
    · rename_i m ho
      exact .inr (hknown name m ho).symm
    · exact .inl rfl
  cases op with
  | onObject name verb =>
      rcases hcases name with hplain | hsame
      · simp only [Op.heeds, hplain, Guise.allows]
      · simpa only [Op.heeds, hsame] using h
  | synchronize name body | guard name body =>
      rcases hcases name with hplain | hsame
      · simp only [Op.heeds, hplain, beq_self_eq_true]
      · simpa only [Op.heeds, hsame] using h
  | _ => rfl

theorem isIntrusion_of_known
    (hknown : ∀ name m, M.object? name = some (.mutex m) → guise name = g m) (t : ThreadId)
    (op : Op α) : M.isIntrusion (M.guiseOf g) t op = M.isIntrusion guise t op := by
  cases op with
  | onObject name verb =>
      cases verb with
      | wait lock =>
          simp only [isIntrusion]
          split
          · rename_i c m hc hm
            rw [Alike.guiseOf_of_mutex hm, hknown lock m hm]
          · rfl
      | _ => rfl
  | _ => rfl

/-- What heeds guises and is known passes both on to the operations in its body. -/
theorem inherits_heeds (guise : String → Guise) (k : Scrutiny α) (step : Nat) :
    Op.Inherits fun path op => op.all (Op.heeds guise) = true ∧ k.Knows step path op := by
  rintro path op ⟨heeds, hknows⟩ i inner hinner
  refine ⟨Op.all_of_mem (Op.of_all heeds).2 (List.mem_of_getElem? hinner), ?_⟩
  cases k with
  | full => trivial
  | sparing given => exact (Op.find?_body hknows i).trans hinner

namespace Abreast

theorem tick (h : Abreast guise g M M' k) (hown : M.intrudes guise = false) :
    Abreast guise g M.tick M'.tick k := by
  obtain ⟨hplanned, hnamed⟩ := h.planned.tick (inherits_heeds guise k)
  refine ⟨h.alike.tick ?_, hplanned, fun name m ho => h.known name m (hnamed name _ ho)⟩
  intro t others path op code hready hcode
  have hfirst := (h.planned t).code (.start path op) (by rw [hcode]; exact List.mem_cons_self)
  obtain ⟨heeds, hknows⟩ := hfirst path op rfl
  refine ⟨heeds_of_known h.known (Op.of_all heeds).1, ?_, hknows⟩
  rw [isIntrusion_of_known h.known]
  simpa only [intrudes, hready, hcode] using hown

theorem settle {fuel : Nat} (h : Abreast guise g M M' k)
    (hown : M.holdsUntilStill (fun M => !M.intrudes guise) fuel = true) :
    Abreast guise g (M.settle fuel) (M'.settle fuel) k := by
  induction fuel generalizing M M' with
  | zero => exact h
  | succ fuel ih =>
      unfold Machine.settle
      rw [h.alike.ready]
      split
      · exact h
      · rename_i hready
        simp only [holdsUntilStill, Bool.or_eq_true, Bool.and_eq_true, Bool.not_eq_true',
          hready, Bool.false_eq_true, false_or] at hown
        exact ih (h.tick hown.1) hown.2

theorem begin (h : Abreast guise g M M' k) (t : ThreadId) {step : Nat}
    {ops? : Option (List (Op α))}
    (hops : ∀ ops, ops? = some ops → Op.allIn (Op.heeds guise) ops = true ∧ k.Gives step ops) :
    Abreast guise g (M.begin t step ops?) (M'.begin t step ops?) k := by
  refine ⟨h.alike.begin t step ops?, h.planned.begin fun ops hsome i op hop => ?_,
    fun name m ho => h.known name m (named_begin M t step ops? name _ ho)⟩
  obtain ⟨heeds, hgives⟩ := hops ops hsome
  refine ⟨Op.all_of_mem heeds (List.mem_of_getElem? hop), ?_⟩
  cases k with
  | full => trivial
  | sparing given =>
      obtain rfl : given step = ops := hgives
      exact hop

end Abreast

end

end Machine

/-! ### Steps -/

section

variable {guise : String → Guise} {g : MutexId → Guise} {k : Scrutiny Json} {M M' : Machine Json}

theorem Machine.Alike.report (h : Machine.Alike g M M' k) :
    M'.report.seen k = M.report.seen k := by
  have hstatus : M'.status = M.status := funext h.status
  simp only [Machine.report, Report.seen, h.log, h.handleNames, h.size_threads, hstatus, h.views]

/-- Machines side by side see the same in a step, but for what is passed over. -/
theorem Scenario.step_seen (h : Machine.Abreast guise g M M' k) {index : Nat} (task : String)
    {order : Order}
    (hops : ∀ ops, order.ops? = some ops →
      Op.allIn (Op.heeds guise) ops = true ∧ k.Gives index ops)
    (hown : ∀ t, M.thread? task = some t → M.status t = .idle →
      (M.begin t index order.ops?).holdsUntilStill (fun M => !M.intrudes guise)
        (M.begin t index order.ops?).effort = true) :
    Machine.Abreast guise g (step M index task order).1 (step M' index task order).1 k ∧
      (step M' index task order).2.seen k = (step M index task order).2.seen k := by
  unfold step
  rw [h.alike.thread?]
  cases ht : M.thread? task with
  | none => exact ⟨h, rfl⟩
  | some t =>
      simp only [h.alike.status]
      cases hs : M.status t with
      | blocked | exited => exact ⟨h, rfl⟩
      | idle =>
          have hbegin := h.begin t hops
          have hrun := hbegin.settle (hown t ht hs)
          simp only [Machine.obey, Machine.run, hbegin.alike.effort]
          exact ⟨hrun, hrun.alike.report⟩

/-- **Machines side by side see the same in every step, but for what is passed over.** -/
theorem Scenario.performFrom_seen (h : Machine.Abreast guise g M M' k) {index : Nat}
    {steps : List (String × Order)}
    (heeds : (steps.all fun (_, order) =>
      (order.ops?.map (Op.allIn (Op.heeds guise))).getD true) = true)
    (hgives : ∀ i task ops, steps[i]? = some (task, .run ops) → k.Gives (index + i) ops)
    (hown : alwaysFrom (fun M => !M.intrudes guise) M index steps = true) :
    (performFrom M' index steps).map (Report.seen k) =
      (performFrom M index steps).map (Report.seen k) := by
  induction steps generalizing M M' index with
  | nil => rfl
  | cons entry steps ih =>
      obtain ⟨task, order⟩ := entry
      simp only [List.all_cons, Bool.and_eq_true] at heeds
      simp only [alwaysFrom, Bool.and_eq_true] at hown
      have hops : ∀ ops, order.ops? = some ops →
          Op.allIn (Op.heeds guise) ops = true ∧ k.Gives index ops := by
        intro ops hops
        cases order with
        | exit => cases hops
        | run given =>
            obtain rfl := Option.some.inj hops
            exact ⟨heeds.1, hgives 0 task given rfl⟩
      have hstep := step_seen h task hops fun t ht hs => by simpa only [ht, hs] using hown.1
      have hlater : ∀ i task ops, steps[i]? = some (task, .run ops) →
          k.Gives (index + 1 + i) ops := fun i task ops hi => by
        rw [Nat.add_right_comm]
        exact hgives (i + 1) task ops hi
      simp only [performFrom, List.map_cons, hstep.2, ih hstep.1 heeds.2 hlater hown.2]

/-- At the start no thread has anything to do. -/
theorem Scenario.planned_start (s : Scenario) {P : Nat → Path → Op Json → Prop} :
    Machine.Planned P s.start.1 := by
  intro t
  obtain ⟨hcode, hpending⟩ := s.start_new.fresh.idle t
  exact ⟨by simp [hcode], by simp [hpending]⟩

theorem Machine.holdsUntilStill_of_forall {p : Machine Json → Bool} (h : ∀ M, p M = true)
    (fuel : Nat) (M : Machine Json) : M.holdsUntilStill p fuel = true := by
  induction fuel generalizing M with
  | zero => rfl
  | succ fuel ih => simp only [holdsUntilStill, h, ih, Bool.and_self, Bool.or_true]

theorem Scenario.alwaysFrom_of_forall {p : Machine Json → Bool} (h : ∀ M, p M = true)
    (index : Nat) (steps : List (String × Order)) : alwaysFrom p M index steps = true := by
  induction steps generalizing M index with
  | nil => rfl
  | cons entry steps ih =>
      obtain ⟨task, order⟩ := entry
      simp only [alwaysFrom, ih, Bool.and_true]
      split
      · rfl
      · split
        · rfl
        · rfl
        · exact Machine.holdsUntilStill_of_forall h _ _

/-- A wait intrudes only if its lock is in the minimal guise. -/
theorem Machine.intrudes_of_never (h : ∀ name, guise name ≠ .minimal) :
    M.intrudes guise = false := by
  have hop : ∀ t op, M.isIntrusion guise t op = false := by
    intro t op
    unfold isIntrusion
    split
    · rename_i name lock
      split
      · simp [h lock]
      · rfl
    · rfl
  unfold intrudes
  split
  · rfl
  · split
    · exact hop _ _
    · rfl

end

/-! ### Objects -/

namespace Machine

/-- Two machines that are alike and on which objects are still being made. -/
structure Twins (g : MutexId → Guise) (M M' : Machine α) (k : Scrutiny α := .full) :
    Prop where
  alike : Alike g M M' k
  mutexes : M'.mutexes.size = M.mutexes.size
  conditions : M'.conditions.size = M.conditions.size
  queues : M'.queues.size = M.queues.size
  taskLists : M'.taskLists.size = M.taskLists.size
  named : ∀ entry ∈ M.names, ∀ o m, entry.2 = some o → o.mutex? = some m → m < M.mutexes.size

section

variable {g g' : MutexId → Guise} {k : Scrutiny α} {M M' : Machine α}

theorem veil_congr {o : Object} (h : ∀ m, o.mutex? = some m → g' m = g m) :
    o.veil g' = o.veil g := by
  cases o with
  | mutex m => simp only [Object.veil, h m rfl]
  | _ => rfl

/-- The guises of mutexes without names do not matter. -/
theorem Twins.congr (h : Twins g M M' k) (hg : ∀ m < M.mutexes.size, g' m = g m) :
    Twins g' M M' k := by
  refine { h with alike := { h.alike with names := h.alike.names.trans ?_ } }
  refine List.map_congr_left fun entry hentry => Prod.ext rfl ?_
  cases ho : entry.2 with
  | none => rfl
  | some o =>
      simp only [Option.map_some]
      exact congrArg some (veil_congr fun m hm => (hg m (h.named entry hentry o m ho hm)).symm)

theorem Twins.bind (h : Twins g M M' k) (name : String) {o o' : Object} (ho : o' = o.veil g)
    (hnamed : ∀ m, o.mutex? = some m → m < M.mutexes.size) :
    Twins g (M.bind name o) (M'.bind name o') k := by
  refine { h with alike := { h.alike with names := ?_ }, named := ?_ }
  · simp only [Machine.bind, h.alike.names, List.map_append, ho]
    rfl
  · intro entry hentry o₁ m ho₁ hm
    rcases List.mem_append.1 hentry with hold | hnew
    · exact h.named entry hold o₁ m ho₁ hm
    · obtain rfl := List.mem_singleton.1 hnew
      obtain rfl := Option.some.inj ho₁
      exact hnamed m hm

theorem Twins.addMutex (h : Twins g M M' k) (config config' : Config) :
    Twins g (M.addMutex config).1 (M'.addMutex config').1 k := by
  have hget : ∀ m, (M.addMutex config).1.mutex m =
      if m = M.mutexes.size then ⟨none, .empty config⟩ else M.mutex m := Table.get_add _ _
  have hget' : ∀ m, (M'.addMutex config').1.mutex m =
      if m = M.mutexes.size then ⟨none, .empty config'⟩ else M'.mutex m := by
    rw [← h.mutexes]
    exact Table.get_add _ _
  refine { h with
    alike := { h.alike with owner := fun m => ?_, waiting := fun m => ?_ }
    mutexes := ?_
    named := fun entry hentry o m ho hm => ?_ }
  · rw [hget, hget']
    split
    · rfl
    · exact h.alike.owner m
  · rw [hget, hget']
    split
    · rfl
    · exact h.alike.waiting m
  · simp only [Machine.addMutex, Table.size_add, h.mutexes]
  · have hlt := h.named entry hentry o m ho hm
    exact Nat.lt_of_lt_of_eq (Nat.lt_succ_of_lt hlt) (Table.size_add ..).symm

theorem Twins.addCondition (h : Twins g M M' k) (config config' : Config) :
    Twins g (M.addCondition config).1 (M'.addCondition config').1 k := by
  refine { h with alike := { h.alike with conditions := fun c => ?_ }, conditions := ?_ }
  · simp only [Machine.addCondition, Table.get_add, h.conditions]
    split
    · rfl
    · exact h.alike.conditions c
  · simp only [Machine.addCondition, Table.size_add, h.conditions]

theorem Twins.addQueue (h : Twins g M M' k) (config config' : Config) (r : Record α) :
    Twins g (M.addQueue config r).1 (M'.addQueue config' r).1 k := by
  have hparts :=
    ((h.addMutex config config').addCondition config config').addCondition config config'
  refine { hparts with alike := { hparts.alike with queue := fun q => ?_ }, queues := ?_ }
  · simp only [Machine.addQueue, Machine.queue, Machine.addMutex, Machine.addCondition,
      Table.get_add, Table.size_add, h.queues, h.mutexes, h.conditions]
    split
    · exact ⟨rfl, rfl, rfl, rfl, by simp only [WaitList.toList_append, WaitList.toList_empty]⟩
    · exact h.alike.queue q
  · simp only [Machine.addQueue, Machine.addMutex, Machine.addCondition, Table.size_add, h.queues]

theorem Twins.addRawLock (h : Twins g M M' k) : Twins g M.addRawLock.1 M'.addRawLock.1 k :=
  { h with
    alike := { h.alike with
      rawLocks := by simp only [Machine.addRawLock, h.alike.rawLocks] } }

theorem Twins.addHandle (h : Twins g M M' k) (name : String) :
    Twins g (M.addHandle name).1 (M'.addHandle name).1 k :=
  { h with
    alike := { h.alike with
      handles := by simp only [Machine.addHandle, h.alike.handles]
      handleNames := by simp only [Machine.addHandle, h.alike.handleNames] } }

theorem Twins.addTaskList (h : Twins g M M' k) {config config' : Config}
    (hfull : k = .full → config' = config) :
    Twins g (M.addTaskList config).1 (M'.addTaskList config').1 k := by
  refine { h with
    alike := { h.alike with taskLists := fun l => ?_, storage := fun hk => ?_ }
    taskLists := ?_ }
  · simp only [Machine.addTaskList, Table.get_add, h.taskLists]
    split
    · rfl
    · exact h.alike.taskLists l
  · simp only [Machine.addTaskList, h.alike.storage hk, hfull hk]
  · simp only [Machine.addTaskList, Table.size_add, h.taskLists]

theorem Twins.ofTasks (names : List String) :
    Twins g (Machine.ofTasks names : Machine α) (Machine.ofTasks names) k :=
  ⟨⟨rfl, fun _ => rfl, fun _ => rfl, fun _ => rfl, fun _ => ⟨rfl, rfl, rfl, rfl, rfl⟩, rfl,
    fun _ => rfl, fun _ => rfl, rfl, rfl, rfl, rfl, rfl⟩, rfl, rfl, rfl, rfl,
    by simp [Machine.ofTasks]⟩

/-- A new mutex gets a number that nobody has, so it may be in any guise. -/
theorem Twins.bind_mutex (h : Twins g M M' k) (name : String) (config config' : Config)
    (guise : Guise) :
    Twins (fun m => if m = M.mutexes.size then guise else g m)
      ((M.addMutex config).1.bind name (.mutex M.mutexes.size))
      ((M'.addMutex config').1.bind name (guise.object M'.mutexes.size)) k := by
  rw [h.mutexes]
  have hold : Twins (fun m => if m = M.mutexes.size then guise else g m) M M' k :=
    h.congr fun m hm => if_neg (Nat.ne_of_lt hm)
  refine (hold.addMutex config config').bind name (by simp [Object.veil]) ?_
  rintro m ⟨⟩
  exact Nat.lt_of_lt_of_eq (Nat.lt_succ_self _) (Table.size_add ..).symm

/-- A new mutex that does not show itself. -/
theorem Twins.bind_hidden (h : Twins g M M' k) (name : String) (config : Config)
    (object : MutexId → Object) (hveil : ∀ m, (object m).veil g = object m)
    (hmutex : ∀ m, (object m).mutex? = some m) :
    Twins g ((M.addMutex config).1.bind name (object M.mutexes.size))
      ((M'.addMutex config).1.bind name (object M'.mutexes.size)) k := by
  rw [h.mutexes]
  refine (h.addMutex config config).bind name (hveil _).symm ?_
  intro m hm
  obtain rfl := Option.some.inj ((hmutex _).symm.trans hm)
  exact Nat.lt_of_lt_of_eq (Nat.lt_succ_self _) (Table.size_add ..).symm

end

section

variable {g : MutexId → Guise} {k : Scrutiny Json} {shown : Guise → Prop} {M M' : Machine Json}

/-- Sources of the same bound and values open alike. -/
theorem open_cases {source source' : QueueSource}
    (h : source'.open.map Prod.fst = source.open.map Prod.fst) :
    (∃ e, source.open = .error e ∧ source'.open = .error e) ∨
      ∃ r config config', source.open = .ok (r, config) ∧ source'.open = .ok (r, config') := by
  cases hs : source.open with
  | error e =>
      cases hs' : source'.open with
      | error e' =>
          simp only [hs, hs', Except.map, Except.error.injEq] at h
          exact .inl ⟨e, rfl, by rw [h]⟩
      | ok start' => simp [hs, hs', Except.map] at h
  | ok start =>
      cases hs' : source'.open with
      | error e' => simp [hs, hs', Except.map] at h
      | ok start' =>
          simp only [hs, hs', Except.map, Except.ok.injEq] at h
          exact .inr ⟨start.1, start.2, start'.2, rfl, by rw [← h]⟩

/-- Objects that may stand for one another are made in both machines, or cannot be made in
either. -/
theorem Twins.make (h : Twins g M M' k) (hg : ∀ m, shown (g m)) (name : String) {spec spec' : Spec}
    (hspec : Spec.Alike k shown spec spec') :
    (∃ e, M.make name spec = .error e ∧ M'.make name spec' = .error e) ∨
      ∃ N N' g', M.make name spec = .ok N ∧ M'.make name spec' = .ok N' ∧
        (∀ m, shown (g' m)) ∧ Twins g' N N' k := by
  cases hspec with
  | mutex config config' guise hguise =>
      have hshown : ∀ m, shown (if m = M.mutexes.size then guise else g m) := fun m => by
        split
        · exact hguise
        · exact hg m
      cases guise with
      | plain => exact .inr ⟨_, _, _, rfl, rfl, hshown, h.bind_mutex name config config' .plain⟩
      | wrapped => exact .inr ⟨_, _, _, rfl, rfl, hshown, h.bind_mutex name config {} .wrapped⟩
      | minimal => exact .inr ⟨_, _, _, rfl, rfl, hshown, h.bind_mutex name config {} .minimal⟩
  | wrapped =>
      exact .inr ⟨_, _, g, rfl, rfl, hg,
        h.bind_hidden name {} .wrapped (fun _ => rfl) (fun _ => rfl)⟩
  | minimal =>
      exact .inr ⟨_, _, g, rfl, rfl, hg,
        h.bind_hidden name {} .minimal (fun _ => rfl) (fun _ => rfl)⟩
  | condition config config' =>
      refine .inr ⟨_, _, g, rfl, rfl, hg, (h.addCondition config config').bind name ?_ ?_⟩
      · show Object.condition M'.conditions.size = .condition M.conditions.size
        rw [h.conditions]
      · simp [Object.mutex?]
  | adapter =>
      refine .inr ⟨_, _, g, rfl, rfl, hg, h.addRawLock.bind name ?_ (by simp [Object.mutex?])⟩
      show Object.adapter M'.rawLocks.size = .adapter M.rawLocks.size
      rw [h.alike.rawLocks]
  | task =>
      refine .inr ⟨_, _, g, rfl, rfl, hg, (h.addHandle name).bind name ?_ (by simp [Object.mutex?])⟩
      show Object.task M'.handles.size = .task M.handles.size
      rw [h.alike.handles]
  | tasks hfull =>
      refine .inr ⟨_, _, g, rfl, rfl, hg, (h.addTaskList hfull).bind name ?_ ?_⟩
      · show Object.tasks M'.taskLists.size = .tasks M.taskLists.size
        rw [h.taskLists]
      · simp [Object.mutex?]
  | queue hopen =>
      simp only [Machine.make]
      rcases open_cases hopen with ⟨e, hs, hs'⟩ | ⟨r, config, config', hs, hs'⟩
      · rw [hs, hs']
        exact .inl ⟨e, rfl, rfl⟩
      · rw [hs, hs']
        refine .inr ⟨_, _, g, rfl, rfl, hg,
          (h.addQueue config config' r).bind name ?_ (by simp [Object.mutex?])⟩
        show Object.queue M'.queues.size = .queue M.queues.size
        rw [h.queues]

/-- **All objects are made alike.** -/
theorem Twins.makeAlike (h : Twins g M M' k) (hg : ∀ m, shown (g m)) (specs : List (String × Spec))
    {f : Nat → Spec → Spec} (hf : ∀ i spec, Spec.Alike k shown spec (f i spec)) :
    ∃ g', (∀ m, shown (g' m)) ∧
      Twins g' (M.makeAll specs).1
        (M'.makeAll (specs.mapIdx fun i entry => (entry.1, f i entry.2))).1 k ∧
      (M'.makeAll (specs.mapIdx fun i entry => (entry.1, f i entry.2))).2 =
        (M.makeAll specs).2 := by
  induction specs generalizing M M' g f with
  | nil => exact ⟨g, hg, h, rfl⟩
  | cons entry specs ih =>
      obtain ⟨name, spec⟩ := entry
      have hlater : ∀ i spec, Spec.Alike k shown spec (f (i + 1) spec) := fun i => hf (i + 1)
      simp only [List.mapIdx_cons, Machine.makeAll]
      rcases h.make hg name (hf 0 spec) with ⟨e, he, he'⟩ | ⟨N, N', g', hN, hN', hg', h'⟩
      · obtain ⟨g', hg', hall, hfailures⟩ := ih h hg hlater
        simp only [he, he']
        exact ⟨g', hg', hall, by rw [hfailures]⟩
      · simp only [hN, hN']
        exact ih h' hg' hlater

end

end Machine

end BlockingSync
