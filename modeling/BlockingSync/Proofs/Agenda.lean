/-
What threads still have to do comes from the lists that they were given.

An instruction puts nothing before the rest of the code that begins an operation, unless
the operations of its own body.  So what an operation at a path hands down to the
operations of its body, and all operations of the lists have, all operations have that are
still to begin, whatever the state.  Names meanwhile only lose their meaning.  No step need
be over for any of this.
-/
import BlockingSync.Proofs.Usage
import BlockingSync.Proofs.Deeds

namespace BlockingSync

variable {α : Type}

/-- Whether a property of the operations at paths passes on to the operations of bodies. -/
def Op.Inherits (P : Path → Op α → Prop) : Prop :=
  ∀ ⦃path : Path⦄ ⦃op : Op α⦄, P path op →
    ∀ ⦃i : Nat⦄ ⦃inner : Op α⦄, op.body[i]? = some inner → P (path ++ [i]) inner

/-- Whether the operation that an instruction begins, if it does, has a property. -/
def Instr.Meets (P : Path → Op α → Prop) (i : Instr α) : Prop :=
  ∀ path op, i = .start path op → P path op

/-- The same of whatever a thread goes on with. -/
def Next.Meets (P : Path → Op α → Prop) : Next α → Prop
  | .goOn code => ∀ i ∈ code, i.Meets P
  | .park | .unwind _ => True

theorem Instr.meets_start {P : Path → Op α → Prop} {path : Path} {op : Op α} (h : P path op) :
    (Instr.start path op).Meets P := by
  rintro _ _ ⟨⟩
  exact h

/-- What begins no operation meets everything. -/
theorem Instr.meets_of_ne {P : Path → Op α → Prop} {i : Instr α}
    (h : ∀ path op, i ≠ .start path op) : i.Meets P :=
  fun path op hi => absurd hi (h path op)

namespace Machine

/-- Whether all operations that a thread has still to begin have a property; which one depends on
the step in which they were given. -/
structure Plans (P : Nat → Path → Op α → Prop) (s : Thread α) : Prop where
  code : ∀ i ∈ s.code, i.Meets (P s.step)
  pending : ∀ entry ∈ s.pending, P s.step [entry.1] entry.2

/-- Whether names mean in a machine at most what they meant in another. -/
def Named (M₀ M : Machine α) : Prop :=
  ∀ name o, M.object? name = some o → M₀.object? name = some o

/-- What an instruction leaves alone, and what the thread goes on with. -/
structure Proceeds (P : Path → Op α → Prop) (M : Machine α) (r : Machine α × Next α) : Prop where
  threads : r.1.threads = M.threads
  named : Named M r.1
  next : r.2.Meets P

variable {P : Path → Op α → Prop} {M M' : Machine α} {t : ThreadId}

theorem Named.of_names (h : M'.names = M.names) : Named M M' := by
  intro name o ho
  simpa only [object?, h] using ho

theorem Named.trans {M'' : Machine α} (h : Named M M') (h' : Named M' M'') : Named M M'' :=
  fun name o ho => h name o (h' name o ho)

/-- What an instruction does to the parts of which this is about. -/
theorem Proceeds.intro {next : Next α} (hthreads : M'.threads = M.threads)
    (hnames : M'.names = M.names) (hnext : next.Meets P) : Proceeds P M (M', next) :=
  ⟨hthreads, .of_names hnames, hnext⟩

/-! ### Operations -/

theorem Changes.named {allowed : Effect → Prop} (h : Changes allowed t M M') : Named M M' :=
  fun name o ho => h.keeps (I := fun N => N.object? name = some o → M.object? name = some o)
    (fun _ _ _ _ hc ih ho => ih (hc.object? ho)) id ho

theorem meets_startBody (hP : Op.Inherits P) {path : Path} {op : Op α} (h : P path op) :
    ∀ i ∈ startBody path op.body, i.Meets P := by
  intro i hi
  obtain ⟨j, hj, rfl⟩ := List.mem_mapIdx.1 hi
  exact Instr.meets_start (hP h (List.getElem?_eq_getElem hj))

/-- An operation goes on with the operations of its body at most. -/
theorem Does.meets (hP : Op.Inherits P) {path : Path} {op : Op α} {next : Next α}
    (h : M.Does t path op M' next) (hop : P path op) : next.Meets P := by
  cases h with
  | aside _ hn => cases hn <;> simp [Next.Meets, Next.yield, Instr.Meets]
  | give _ _ _ _ _ hn =>
      rcases hn with ⟨r, rfl⟩ | ⟨message, rfl⟩ <;> simp [Next.Meets, Next.yield, Instr.Meets]
  | @wait _ _ _ _ l => cases l <;> simp [Next.Meets, acquire, Instr.Meets]
  | @synchronize _ _ _ hsync | @guard _ _ _ hsync =>
      subst hsync
      have hbody : ∀ i ∈ startBody path _, i.Meets P := meets_startBody hP hop
      refine List.forall_mem_append.2 ⟨List.forall_mem_cons.2 ⟨?_, hbody⟩, ?_⟩
      · exact Instr.meets_of_ne (by simp)
      · simp [Instr.Meets]
  | _ => simp [Next.Meets, Next.yield, Instr.Meets]

/-! ### Other instructions -/

theorem Proceeds.of_changes {allowed : Effect → Prop} {N : Machine α} {next : Next α}
    (h : Changes allowed t N M') (hthreads : N.threads = M.threads) (hnames : N.names = M.names)
    (hnext : next.Meets P) : Proceeds P M (M', next) :=
  ⟨h.threads.trans hthreads, (Named.of_names hnames).trans h.named, hnext⟩

theorem waitHeld_proceeds (s : Queue α) (c : ConditionId) {again : Instr α}
    (hagain : again.Meets P) : Proceeds P M (M.waitHeld t s c again) := by
  unfold waitHeld departNative
  cases (M.mutex s.mutex).owner with
  | none => exact .intro rfl rfl (by simpa [Next.Meets, Instr.Meets] using hagain)
  | some u =>
      by_cases hu : u = t
      · simp only [hu, if_true]
        exact .of_changes (leave_changes M c s.mutex t) rfl rfl
          (by simpa [Next.Meets, Instr.Meets] using hagain)
      · simp only [hu, if_false]
        exact .intro rfl rfl (by simpa [Next.Meets, Instr.Meets] using hagain)

theorem finishTransaction_meets (s : Queue α) (path : Path) (r : Result α) :
    (finishTransaction s path r).Meets P := by
  simp [finishTransaction, Next.Meets, Instr.Meets]

theorem takeValue_proceeds (q : QueueId) (path : Path) : Proceeds P M (M.takeValue t q path) := by
  unfold takeValue
  simp only
  split
  · exact waitHeld_proceeds _ _ (Instr.meets_of_ne (by simp))
  · split
    · exact .of_changes (wakeOne_wakes t _ _) rfl rfl (finishTransaction_meets _ _ _)
    · exact .intro rfl rfl (finishTransaction_meets _ _ _)

theorem transact_proceeds (q : QueueId) (path : Path) (tr : Transaction α) :
    Proceeds P M (M.transact t q path tr) := by
  cases tr with
  | add v =>
      unfold transact addValue
      simp only
      split
      · exact waitHeld_proceeds _ _ (Instr.meets_of_ne (by simp))
      · exact .of_changes (wakeOne_wakes t _ _) rfl rfl (finishTransaction_meets _ _ _)
  | take => exact takeValue_proceeds q path
  | tryTake =>
      unfold transact
      simp only
      split
      · exact .intro rfl rfl (finishTransaction_meets _ _ _)
      · exact takeValue_proceeds q path
  | clear => exact .of_changes (wakeOne_wakes t _ _) rfl rfl (finishTransaction_meets _ _ _)
  | resize capacity =>
      exact .of_changes (wakeTimes_wakes t _ _ _) rfl rfl (finishTransaction_meets _ _ _)
  | _ => exact .intro rfl rfl (finishTransaction_meets _ _ _)

theorem execute_proceeds (hP : Op.Inherits P) {i : Instr α} (hi : i.Meets P) :
    Proceeds P M (M.execute t i) := by
  cases i with
  | start path op =>
      have hdoes := perform_does M t path op
      exact ⟨hdoes.changes.threads, hdoes.changes.named, hdoes.meets hP (hi path op rfl)⟩
  | lock m =>
      simp only [execute, tryLock]
      cases (M.mutex m).owner with
      | none => exact .intro rfl rfl (by simp [Next.Meets])
      | some u =>
          have henter : Changes (fun _ => True) t M (M.enqueue (.mutex m) t) :=
            .single trivial (.enter (.mutex m))
          exact .of_changes henter rfl rfl (by simp [Next.Meets, Instr.Meets])
  | unlock m =>
      cases howner : (M.mutex m).owner with
      | none =>
          simp only [execute, unlock, releaseWith_of_free howner]
          exact .intro rfl rfl (by simp [Next.Meets])
      | some u =>
          simp only [execute, unlock, releaseWith_of_owned howner]
          exact .of_changes (free_changes t M m) rfl rfl (by simp [Next.Meets])
  | closeGuard m path => exact .intro rfl rfl (by simp [Next.Meets, Instr.Meets])
  | seize r =>
      unfold execute trySeize
      simp only
      split <;> rename_i N heq <;> split at heq <;> obtain ⟨rfl, -⟩ := Prod.mk.inj heq <;>
        exact .intro rfl rfl (by simp [Next.Meets])
  | suspend u place =>
      unfold execute
      simp only
      split <;> exact .intro rfl rfl (by simp [Next.Meets])
  | transact q path tr => exact transact_proceeds q path tr
  | report path r => exact .intro rfl rfl (by simp [Next.Meets])

theorem threads_execute (M : Machine α) (t : ThreadId) (i : Instr α) :
    (M.execute t i).1.threads = M.threads := by
  have hproceeds : Proceeds (fun _ _ => True) M (M.execute t i) :=
    execute_proceeds (fun _ _ _ _ _ _ => trivial) fun _ _ _ => trivial
  exact hproceeds.threads

/-! ### Ticks and orders -/

section

variable {P : Nat → Path → Op α → Prop}

/-- Whether all operations that any thread has still to begin have a property. -/
def Planned (P : Nat → Path → Op α → Prop) (M : Machine α) : Prop :=
  ∀ t, Plans P (M.thread t)

theorem Planned.setThread (h : Planned P M) {s : Thread α} (hs : Plans P s) :
    Planned P (M.setThread t s) := by
  intro u
  rw [thread_setThread]
  split
  · exact hs
  · exact h u

theorem Planned.congr (h : Planned P M) (hthreads : M'.threads = M.threads) : Planned P M' := by
  intro u
  rw [thread_congr hthreads]
  exact h u

theorem Planned.setCode (h : Planned P M) {code : List (Instr α)}
    (hcode : ∀ i ∈ code, i.Meets (P (M.thread t).step)) : Planned P (M.setCode t code) :=
  h.setThread ⟨hcode, (h t).pending⟩

theorem meets_cleanup {P : Path → Op α → Prop} (code : List (Instr α)) :
    ∀ i ∈ cleanup code, i.Meets P := by
  induction code with
  | nil => simp [cleanup]
  | cons i code ih =>
      cases i with
      | unlock | closeGuard =>
          exact List.forall_mem_cons.2 ⟨Instr.meets_of_ne (by simp), ih⟩
      | _ => exact ih

/-- **A tick begins no operation that was not planned, and gives no name a new meaning.** -/
theorem Planned.tick (hP : ∀ step, Op.Inherits (P step)) (h : Planned P M) :
    Planned P M.tick ∧ Named M M.tick := by
  unfold Machine.tick
  split
  · exact ⟨h, .of_names rfl⟩
  · rename_i t others hready
    simp only
    split
    · exact ⟨h.congr rfl, .of_names rfl⟩
    · rename_i i op pending hcode hpending
      have hplans := (h t).pending
      rw [hpending, List.forall_mem_cons] at hplans
      refine ⟨h.setThread ⟨?_, hplans.2⟩, .of_names rfl⟩
      exact List.forall_mem_singleton.2 (Instr.meets_start hplans.1)
    · rename_i i code hcode
      have hplans := (h t).code
      rw [hcode, List.forall_mem_cons] at hplans
      have hproceeds := execute_proceeds (M := M) (t := t) (hP (M.thread t).step) hplans.1
      have hkept := h.congr hproceeds.threads
      have hsame := thread_congr hproceeds.threads t
      split <;> rename_i N he <;> rw [he] at hproceeds hkept hsame
      · refine ⟨hkept.setCode ?_, hproceeds.named⟩
        rw [hsame]
        exact List.forall_mem_append.2 ⟨hproceeds.next, hplans.2⟩
      · exact ⟨hkept.congr rfl, hproceeds.named⟩
      · refine ⟨hkept.setCode (List.forall_mem_append.2 ⟨meets_cleanup code, ?_⟩),
          hproceeds.named⟩
        simp [Instr.Meets]

theorem Planned.begin (h : Planned P M) {step : Nat} {ops? : Option (List (Op α))}
    (hops : ∀ ops, ops? = some ops → ∀ i op, ops[i]? = some op → P step [i] op) :
    Planned P (M.begin t step ops?) := by
  cases ops? with
  | none =>
      refine Planned.congr (M := M.setThread t _) (h.setThread ?_) rfl
      exact ⟨(h t).code, (h t).pending⟩
  | some ops =>
      refine Planned.congr (M := M.setThread t _) (h.setThread ?_) rfl
      refine ⟨by simp, fun entry hentry => ?_⟩
      obtain ⟨⟨op, i⟩, hmem, rfl⟩ := List.mem_map.1 hentry
      exact hops ops rfl i op (List.mem_zipIdx_iff_getElem?.1 hmem)

theorem named_begin (M : Machine α) (t : ThreadId) (step : Nat) (ops? : Option (List (Op α))) :
    Named M (M.begin t step ops?) := by
  cases ops? <;> exact .of_names rfl

end

end Machine

end BlockingSync
