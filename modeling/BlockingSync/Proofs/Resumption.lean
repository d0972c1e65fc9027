/-
A restored queue resumes where the other left off.

When a step is over nobody is inside a queue, so its mutex is free (`Sound.owner_of_still`).
If nobody is on one of its lists either, then all there is to it is its bound and its values,
in order, and these are its record.  So with a restored queue in its place the machine is alike,
whatever the storage was like that the values stood in; and machines that are alike do the same
ever after (`Alike.obey`).  What is left is that the record comes back from its text or bytes.
-/
import BlockingSync.Proofs.Abreast
import BlockingSync.Proofs.Ending
import BlockingSync.Proofs.Document

namespace BlockingSync

variable {α : Type}

/-! ### What is seen of a machine -/

/-- Orders, each with the task that is offered it: a list of operations, or none to exit. -/
abbrev Orders (α : Type) := List (String × Option (List (Op α)))

/-- What an observer sees of a machine when a step is over. -/
structure Sight (α : Type) where
  log : List (Entry α)
  tasks : List (String × Status)
  objects : List (String × View α)

namespace Machine

/-- What an observer sees when no thread is ready. -/
def sight (M : Machine α) : Sight α :=
  ⟨M.log, (M.handleNames.take M.threads.size).mapIdx fun t name => (name, M.status t), M.views⟩

/-- Offers a task an order, which it takes if it is idle. -/
def offer (M : Machine α) (index : Nat) (task : String) (ops? : Option (List (Op α))) :
    Machine α :=
  match M.thread? task with
  | none => M
  | some t =>
    match M.status t with
    | .idle => M.obey t index ops?
    | .blocked | .exited => M

/-- The machine when tasks were offered orders, the first of which has the given index. -/
def follow (M : Machine α) (index : Nat) : Orders α → Machine α
  | [] => M
  | (task, ops?) :: orders => (M.offer index task ops?).follow (index + 1) orders

/-- What an observer sees after each of these orders. -/
def sights (M : Machine α) (index : Nat) : Orders α → List (Sight α)
  | [] => []
  | (task, ops?) :: orders =>
    let M := M.offer index task ops?
    M.sight :: M.sights (index + 1) orders

/-! ### Machines that are alike -/

variable {M M' : Machine α}

/-- Whether two machines differ at most in how lists and values are stored. -/
abbrev Same (M M' : Machine α) : Prop := Alike (fun _ => .plain) M M'

theorem veil_plain (o : Object) : o.veil (fun _ => .plain) = o := by
  cases o <;> rfl

theorem guiseOf_plain (M : Machine α) (name : String) :
    M.guiseOf (fun _ => .plain) name = .plain := by
  unfold guiseOf
  split <;> rfl

theorem heeds_plain (M : Machine α) (op : Op α) : op.heeds (M.guiseOf fun _ => .plain) = true := by
  have hguise : M.guiseOf (fun _ => .plain) = fun _ => .plain := funext M.guiseOf_plain
  rw [hguise]
  cases op <;> rfl

theorem isIntrusion_plain (M : Machine α) (t : ThreadId) (op : Op α) :
    M.isIntrusion (M.guiseOf fun _ => .plain) t op = false := by
  unfold isIntrusion
  split
  · split
    · simp [guiseOf_plain]
    · rfl
  · rfl

namespace Alike

theorem tick_plain (h : Same M M') : Same M.tick M'.tick :=
  h.tick fun t _ _ op _ _ _ => ⟨M.heeds_plain op, M.isIntrusion_plain t op, trivial⟩

theorem settle_plain (h : Same M M') (fuel : Nat) : Same (M.settle fuel) (M'.settle fuel) := by
  induction fuel generalizing M M' with
  | zero => exact h
  | succ fuel ih =>
      unfold settle
      rw [h.ready]
      split
      · exact h
      · exact ih h.tick_plain

/-- **Machines that are alike carry out an order alike.** -/
theorem obey (h : Same M M') (t : ThreadId) (step : Nat) (ops? : Option (List (Op α))) :
    Same (M.obey t step ops?) (M'.obey t step ops?) := by
  have hbegin := h.begin t step ops?
  unfold Machine.obey Machine.run
  rw [hbegin.effort]
  exact hbegin.settle_plain _

theorem sight (h : Same M M') : M'.sight = M.sight := by
  have hlog : M'.log = M.log := by
    have hseen : Entry.seen (α := α) .full = id := funext (Entry.seen_eq fun _ _ => rfl)
    simpa only [hseen, List.map_id] using h.log
  have hstatus : M'.status = M.status := funext h.status
  simp only [Machine.sight, hlog, h.handleNames, h.size_threads, hstatus, h.views]

theorem offer (h : Same M M') (index : Nat) (task : String) (ops? : Option (List (Op α))) :
    Same (M.offer index task ops?) (M'.offer index task ops?) := by
  unfold Machine.offer
  rw [h.thread?]
  cases M.thread? task with
  | none => exact h
  | some t =>
      simp only [h.status]
      cases M.status t with
      | idle => exact h.obey t index ops?
      | blocked | exited => exact h

/-- **Machines that are alike show the same after every order.** -/
theorem sights (h : Same M M') (index : Nat) (orders : Orders α) :
    M'.sights index orders = M.sights index orders := by
  induction orders generalizing M M' index with
  | nil => rfl
  | cons entry orders ih =>
      obtain ⟨task, ops?⟩ := entry
      have hoffer := h.offer index task ops?
      simp only [Machine.sights, hoffer.sight, ih hoffer]

end Alike

/-! ### Replacing a queue -/

/-- Whether a queue is as it is built from a record, with nothing left of what was stored before. -/
structure BuiltFrom (M : Machine α) (q : QueueId) (config : Config) (r : Record α) : Prop where
  capacity : (M.queue q).capacity = r.capacity
  values : (M.queue q).values = (WaitList.empty config).append r.values
  mutex : M.mutex (M.queue q).mutex = ⟨none, .empty config⟩
  condition : ∀ side, M.waiters (.condition ((M.queue q).condition side)) = .empty config

theorem replaceQueue_builtFrom (M : Machine α) (q : QueueId) (config : Config) (r : Record α) :
    (M.replaceQueue q config r).BuiltFrom q config r := by
  have hqueue : (M.replaceQueue q config r).queue q =
      { M.queue q with
        values := (WaitList.empty config).append r.values
        capacity := r.capacity } := Table.get_set_self ..
  refine ⟨by rw [hqueue], by rw [hqueue], ?_, fun side => ?_⟩
  · rw [hqueue]
    exact Table.get_set_self ..
  · rw [hqueue]
    cases side with
    | take =>
        show ((M.conditions.set _ _).set _ _).get _ = _
        rw [Table.get_set]
        split
        · rfl
        · exact Table.get_set_self ..
    | add => exact Table.get_set_self ..

/-- Whether no task is on a list of a queue. -/
structure Unawaited (M : Machine α) (q : QueueId) : Prop where
  mutex : (M.waiters (.mutex (M.queue q).mutex)).toList = []
  condition : ∀ side, (M.waiters (.condition ((M.queue q).condition side))).toList = []

/-- **A queue that is free and not awaited may be replaced by one with the same record.** -/
theorem replaceQueue_same {q : QueueId} (hfree : (M.mutex (M.queue q).mutex).owner = none)
    (h : M.Unawaited q) (config : Config) :
    Same M (M.replaceQueue q config (M.queue q).toRecord) := by
  have hvalue : (M.conditions.get (M.queue q).valueAvailable).toList = [] := h.condition .take
  have hspace : (M.conditions.get (M.queue q).spaceAvailable).toList = [] := h.condition .add
  refine ⟨rfl, fun m => ?_, fun m => ?_, fun c => ?_, fun q' => ?_, rfl, fun _ => rfl, fun _ => rfl,
    rfl, rfl, rfl, ?_, rfl⟩
  · show ((M.mutexes.set _ _).get m).owner = _
    rw [Table.get_set]
    split
    · subst m
      exact hfree.symm
    · rfl
  · show ((M.mutexes.set _ _).get m).waiting.toList = _
    rw [Table.get_set]
    split
    · subst m
      exact h.mutex.symm
    · rfl
  · show (((M.conditions.set _ _).set _ _).get c).toList = _
    rw [Table.get_set, Table.get_set]
    split
    · subst c
      exact hspace.symm
    · split
      · subst c
        exact hvalue.symm
      · rfl
  · show (M.queue q').Alike ((M.queues.set q _).get q')
    rw [Table.get_set]
    split
    · subst q'
      exact ⟨rfl, rfl, rfl, rfl, by simp [Queue.toRecord]⟩
    · exact ⟨rfl, rfl, rfl, rfl, rfl⟩
  · have hveil : (Object.veil fun _ => .plain) = id := funext veil_plain
    show M.names = _
    simp [hveil]

/-- A queue of JSON values comes back from its text unless a value is nested too deep. -/
theorem rereadQueue_eq_ok_iff {M N : Machine Json} {q : QueueId} {config : Config}
    (hplain : ∀ v ∈ (M.queue q).values.toList, v.IsPlain) :
    M.rereadQueue q config = .ok N ↔
      (∀ v ∈ (M.queue q).values.toList, v.depth + 1 < Json.depthLimit) ∧
        N = M.replaceQueue q config (M.queue q).toRecord := by
  have hdepth : ∀ v : Json, v.depth ≤ 126 ↔ v.depth + 1 < Json.depthLimit := fun v => by
    unfold Json.depthLimit
    omega
  have hread : ∀ r, Record.ofJsonText (Json.reader (Json.depthLimit - 1))
      (M.queue q).toRecord.toJson.compact = .ok r ↔
        (∀ v ∈ (M.queue q).values.toList, v.depth ≤ 126) ∧ r = (M.queue q).toRecord :=
    Record.ofJsonText_eq_ok_iff hplain
  unfold rereadQueue
  constructor
  · intro h
    obtain ⟨r, hr, hN⟩ := eq_ok_of_bind h
    obtain ⟨hvalues, rfl⟩ := (hread r).1 hr
    exact ⟨fun v hv => (hdepth v).1 (hvalues v hv), (Except.ok.inj hN).symm⟩
  · rintro ⟨hvalues, rfl⟩
    have hr := (hread _).2 ⟨fun v hv => (hdepth v).2 (hvalues v hv), rfl⟩
    simp only [hr]
    rfl

/-- A queue of any other values comes back from its bytes if it can be stored. -/
theorem reloadQueue_eq_ok_iff {s : Shape} {M N : Machine s.Value} {q : QueueId} {config : Config}
    (hfits : (Shape.queue s).Fits (M.queue q).toRecord) :
    M.reloadQueue q config = .ok N ↔
      ¬ (Shape.queue s).Refuses (M.queue q).toRecord ∧
        N = M.replaceQueue q config (M.queue q).toRecord := by
  have hread : ∀ {bytes}, M.storeQueue q = .ok bytes →
      Record.ofBinary s bytes = .ok (M.queue q).toRecord := fun {bytes} hbytes => by
    have := Record.ofBinary_append hfits hbytes []
    rwa [List.append_nil] at this
  rw [← Record.exists_binary_iff]
  unfold reloadQueue
  constructor
  · intro h
    obtain ⟨bytes, hbytes, h⟩ := eq_ok_of_bind h
    rw [hread hbytes] at h
    exact ⟨⟨bytes, hbytes⟩, (Except.ok.inj h).symm⟩
  · rintro ⟨⟨bytes, hbytes⟩, rfl⟩
    change M.storeQueue q = _ at hbytes
    rw [hbytes]
    show (do return M.replaceQueue q config (← Record.ofBinary s bytes)) = _
    rw [hread hbytes]
    rfl

end Machine

namespace Setting

variable {S : Setting α} {M : Machine α}

/-- When a step is over nobody is inside a queue. -/
theorem Sound.owner_of_still (h : S.Sound M) (still : M.ready = []) {q : QueueId}
    (hq : q < M.queues.size) : (M.mutex (M.queue q).mutex).owner = none := by
  have hlt : q < S.queues := by
    rw [← h.fits.queues]
    exact hq
  rw [h.fits.mutex q hlt, h.guarded.owner q hlt]
  simp [holder, still]

/-- A run keeps the machine sound. -/
theorem Sound.settle (h : S.Sound M) (fuel : Nat) : S.Sound (M.settle fuel) := by
  induction fuel generalizing M with
  | zero => exact h
  | succ fuel ih =>
      unfold Machine.settle
      split
      · exact h
      · exact ih h.tick

/-- An order that is given in its step is carried out to its end. -/
theorem Sound.obey (h : S.Sound M) (still : M.ready = []) {t : ThreadId}
    (idle : M.status t = .idle) (step : Nat) {ops? : Option (List (Op α))}
    (hgiven : ∀ ops, ops? = some ops → S.given step = ops) :
    S.Sound (M.obey t step ops?) ∧ (M.obey t step ops?).ready = [] := by
  have hbegin : S.Sound (M.begin t step ops?) := by
    cases ops? with
    | none => exact (h.exit still t).clearLog
    | some ops =>
        rw [← hgiven ops rfl]
        exact h.clearLog.give still (Machine.isIdle_of_status idle) step
  obtain ⟨_, _, _, hend⟩ := hbegin.ends
  exact ⟨hbegin.settle _, hend⟩

/-- A machine that is offered orders stays sound, and no thread is ready behind them. -/
theorem Sound.follow (h : S.Sound M) (still : M.ready = []) (index : Nat)
    (orders : Orders α)
    (hgiven : ∀ i task ops, orders[i]? = some (task, some ops) → S.given (index + i) = ops) :
    S.Sound (M.follow index orders) ∧ (M.follow index orders).ready = [] := by
  induction orders generalizing M index with
  | nil => exact ⟨h, still⟩
  | cons entry orders ih =>
      obtain ⟨task, ops?⟩ := entry
      have hoffer : S.Sound (M.offer index task ops?) ∧ (M.offer index task ops?).ready = [] := by
        unfold Machine.offer
        cases M.thread? task with
        | none => exact ⟨h, still⟩
        | some t =>
            dsimp only
            cases hs : M.status t with
            | idle =>
                refine h.obey still hs index fun ops hops => ?_
                subst hops
                exact hgiven 0 task ops rfl
            | blocked | exited => exact ⟨h, still⟩
      refine ih hoffer.1 hoffer.2 (index + 1) fun i task' ops hi => ?_
      rw [Nat.add_assoc, Nat.add_comm 1 i]
      exact hgiven (i + 1) task' ops hi

/-- When a step is over a queue that nobody awaits may be replaced. -/
theorem Sound.replaceQueue_same (h : S.Sound M) (still : M.ready = []) {q : QueueId}
    (hq : q < M.queues.size) (hunawaited : M.Unawaited q) (config : Config) :
    Machine.Same M (M.replaceQueue q config (M.queue q).toRecord) :=
  Machine.replaceQueue_same (h.owner_of_still still hq) hunawaited config

end Setting

/-- A new machine that is offered orders is sound when they are carried out. -/
theorem Machine.New.sound_follow {O : Machine α} (h : O.New) (orders : Orders α) :
    ∃ S : Setting α, S.Sound (O.follow 0 orders) ∧ (O.follow 0 orders).ready = [] := by
  let S : Setting α := ⟨O, fun i => ((orders[i]?).bind (·.2)).getD [], h.apart⟩
  have horigin : S.Sound O := .origin (S := S) h.fresh
  refine ⟨S, horigin.follow h.fresh.ready 0 orders fun i task ops hi => ?_⟩
  simp [S, hi]

/-! ### Scenarios -/

namespace Scenario

open Machine

variable {M M' : Machine Json}

/-- A step offers its task the order. -/
theorem step_offer (M : Machine Json) (index : Nat) (task : String) (order : Order) :
    (step M index task order).1 = M.offer index task order.ops? := by
  unfold step Machine.offer
  cases M.thread? task with
  | none => rfl
  | some t =>
      dsimp only
      cases M.status t <;> rfl

theorem step_same (h : Same M M') (index : Nat) (task : String) (order : Order) :
    Same (step M index task order).1 (step M' index task order).1 ∧
      (step M' index task order).2 = (step M index task order).2 := by
  constructor
  · rw [step_offer, step_offer]
    exact h.offer index task order.ops?
  · unfold step
    rw [h.thread?]
    cases M.thread? task with
    | none => rfl
    | some t =>
        simp only [h.status]
        cases M.status t with
        | idle =>
            have hsight := (h.obey t index order.ops?).sight
            simp only [Machine.sight, Sight.mk.injEq] at hsight
            simp only [Machine.report, hsight]
        | blocked | exited => rfl

/-- **Machines that are alike see the same in every step.** -/
theorem performFrom_same (h : Same M M') (index : Nat) (steps : List (String × Order)) :
    performFrom M' index steps = performFrom M index steps := by
  induction steps generalizing M M' index with
  | nil => rfl
  | cons entry steps ih =>
      obtain ⟨task, order⟩ := entry
      obtain ⟨hstate, hreport⟩ := step_same h index task order
      simp only [performFrom, hreport, ih hstate]

/-- The machine after any number of steps is sound. -/
theorem sound_after (s : Scenario) (k : Nat) : s.setting.Sound (s.after k) := by
  induction k with
  | zero => exact .origin s.start_new.fresh
  | succ k ih =>
      cases hstep : s.steps[k]? with
      | none =>
          unfold after
          rw [hstep]
          exact ih
      | some entry =>
          have hk : k < s.steps.length := (List.getElem?_eq_some_iff.1 hstep).1
          obtain ⟨past, h⟩ := (s.ready_after (k + 1)).2 hk
          exact h.sound

end Scenario

open Machine in
/-- **A restored queue resumes where the other left off.**  Let steps be over in a scenario, and
nobody be on a list of a queue.  The queue comes back from its text unless a value in it is nested
deeper than any text is read, and with the queue that comes back in its place, which is built anew,
every later step is reported as with the one that was there.  So it is with a queue of values of any
shape that can be stored, and its bytes. -/
theorem restored_resumes :
    (∀ (s : Scenario) (k : Nat) (q : QueueId) (config : Config),
      q < (s.after k).queues.size → (s.after k).Unawaited q →
      (∀ v ∈ ((s.after k).queue q).values.toList, v.IsPlain) →
      ((∃ N, (s.after k).rereadQueue q config = .ok N) ↔
        ∀ v ∈ ((s.after k).queue q).values.toList, v.depth + 1 < Json.depthLimit) ∧
      ∀ N, (s.after k).rereadQueue q config = .ok N →
        N.BuiltFrom q config ((s.after k).queue q).toRecord ∧ ∀ index steps,
          Scenario.performFrom N index steps = Scenario.performFrom (s.after k) index steps) ∧
    ∀ (shape : Shape) (O M : Machine shape.Value) (orders : Orders shape.Value) (q : QueueId)
      (config : Config), O.New → M = O.follow 0 orders →
      q < M.queues.size → M.Unawaited q → (Shape.queue shape).Fits (M.queue q).toRecord →
      ((∃ N, M.reloadQueue q config = .ok N) ↔
        ¬ (Shape.queue shape).Refuses (M.queue q).toRecord) ∧
      ∀ N, M.reloadQueue q config = .ok N → N.BuiltFrom q config (M.queue q).toRecord ∧
        ∀ index later, N.sights index later = M.sights index later := by
  refine ⟨fun s k q config hq hunawaited hplain => ?_,
    fun shape O M orders q config hnew horders hq hunawaited hfits => ?_⟩
  · have hsame := (s.sound_after k).replaceQueue_same (s.ready_after k).1 hq hunawaited config
    simp only [rereadQueue_eq_ok_iff hplain]
    refine ⟨by simp, fun N hN => ?_⟩
    rw [hN.2]
    exact ⟨replaceQueue_builtFrom .., Scenario.performFrom_same hsame⟩
  · obtain ⟨S, hsound, still⟩ := hnew.sound_follow orders
    rw [← horders] at hsound still
    have hsame := hsound.replaceQueue_same still hq hunawaited config
    simp only [reloadQueue_eq_ok_iff hfits]
    refine ⟨by simp, fun N hN => ?_⟩
    rw [hN.2]
    exact ⟨replaceQueue_builtFrom .., hsame.sights⟩

/-- A task waits for a queue to have a value; it gets one of three, and the other two are more than
the bound that the queue has by then. -/
def relay : Scenario where
  tasks := ["a", "b"]
  objects := [("q", .queue (.bounded (Word.wrap 3)))]
  steps := [("b", .run [.onObject "q" .pop]),
    ("a", .run [.onObject "q" (.push (.integer 5)), .onObject "q" (.push (.integer 6)),
      .onObject "q" (.push (.integer 7)), .onObject "q" (.setCapacity (Word.wrap 1))])]

/-- A task takes a text from a queue that holds another one, and has no bound. -/
def shelf : Machine Shape.text.Value :=
  ((Machine.ofTasks ["a"]).addQueue {} ⟨Word.wrap 0, ["é", "\""]⟩).1.bind "q" (.queue 0)

theorem Machine.new_shelf : shelf.New :=
  ((New.ofTasks _).addQueue _ _).bind "q" (by simp [Object.mutex?]) (by simp) fun q hq => by
    obtain rfl := Object.queue.inj hq
    decide

open Machine in
theorem restored_resumes_relay :
    (∃ N, (relay.after 2).rereadQueue 0 {} = .ok N ∧ ∀ steps,
      Scenario.performFrom N 2 steps = Scenario.performFrom (relay.after 2) 2 steps) ∧
    ∃ N, (shelf.follow 0 [("a", some [.onObject "q" .pop])]).reloadQueue 0 {} = .ok N ∧
      ∀ later, N.sights 1 later =
        (shelf.follow 0 [("a", some [.onObject "q" .pop])]).sights 1 later := by
  obtain ⟨hscenario, hshape⟩ := restored_resumes
  constructor
  · have hvalues : ((relay.after 2).queue 0).values.toList = [.integer 6, .integer 7] := rfl
    obtain ⟨hback, hresumes⟩ := hscenario relay 2 0 {} (by decide)
      ⟨by decide, fun side => by cases side <;> decide⟩
      (by simp [hvalues, Json.IsPlain, Json.IsWord])
    obtain ⟨N, hN⟩ := hback.2 (by simp [hvalues, Json.depth, Json.depthLimit])
    exact ⟨N, hN, (hresumes N hN).2 2⟩
  · have hrecord : ((shelf.follow 0 [("a", some [.onObject "q" .pop])]).queue 0).toRecord =
        ⟨Word.wrap 0, ["\""]⟩ := rfl
    have hfits : (Shape.queue .text).Fits ⟨Word.wrap 0, ["\""]⟩ :=
      ⟨by decide, List.forall_mem_singleton.2 (show _ < _ by decide)⟩
    have hwritten : ¬ (Shape.queue .text).Refuses ⟨Word.wrap 0, ["\""]⟩ := fun ⟨_, _, h⟩ => h
    obtain ⟨hback, hresumes⟩ := hshape .text shelf _ [("a", some [.onObject "q" .pop])] 0 {}
      new_shelf rfl (by decide) ⟨by decide, fun side => by cases side <;> decide⟩ (hrecord ▸ hfits)
    obtain ⟨N, hN⟩ := hback.2 (hrecord ▸ hwritten)
    exact ⟨N, hN, (hresumes N hN).2 1⟩

end BlockingSync
