/-
Keeping away from a mutex.

An operation gets at a mutex only through a name, and a mutex has one name at most.  So an
operation that speaks of that name nowhere, and any instruction that comes of it, leaves
the mutex as it is (`Sound.tick_avoids`); what the thread goes on with avoids the mutex
again, also when the operation is given up.

Lines about waiters that were passed over are counted here too: whoever is on one list at
most has a line added only when its entry there goes (`Tolls`).
-/
import BlockingSync.Proofs.Custody
import BlockingSync.Proofs.Procession
import BlockingSync.Proofs.Usage

namespace BlockingSync

variable {α : Type}

/-! ### Operations and instructions -/

/-- The names of the objects that an operation speaks of, but for those in its body. -/
def Op.names : Op α → List String
  | .drop name | .synchronize name _ | .guard name _ => [name]
  | .onObject name (.wait lock) => [name, lock]
  | .onObject name _ => [name]
  | .panic _ | .onTask _ _ => []

/-- Whether an operation speaks of a name nowhere. -/
def Op.avoids (name : String) (op : Op α) : Bool :=
  op.all fun op => !op.names.contains name

theorem Op.ne_of_avoids {name name' : String} {op : Op α} (h : op.avoids name = true)
    (hname : name' ∈ op.names) : name' ≠ name := by
  rintro rfl
  have hnot := (Op.of_all h).1
  simp [hname] at hnot

theorem Op.avoids_body {name : String} {op : Op α} (h : op.avoids name = true) {inner : Op α}
    (hinner : inner ∈ op.body) : inner.avoids name = true :=
  Op.all_of_mem (Op.of_all h).2 hinner

/-- Whether an instruction has nothing to do with a mutex of a name. -/
def Instr.Avoids (name : String) (m : MutexId) : Instr α → Prop
  | .start _ op => op.avoids name = true
  | .lock m' | .unlock m' | .closeGuard m' _ => m' ≠ m
  | .suspend _ place => place ≠ some (.mutex m)
  | .seize _ | .transact .. | .report .. => True

/-- Whether all that a thread has left to do has nothing to do with a mutex of a name. -/
structure Thread.Avoids (name : String) (m : MutexId) (s : Thread α) : Prop where
  code : ∀ i ∈ s.code, i.Avoids name m
  pending : ∀ entry ∈ s.pending, entry.2.avoids name = true

namespace Machine

variable {M M' M'' : Machine α} {t u : ThreadId} {p : Place} {name : String} {m : MutexId}

theorem avoids_startBody {body : List (Op α)} (h : ∀ op ∈ body, op.avoids name = true)
    (path : Path) : ∀ i ∈ startBody path body, i.Avoids name m := by
  intro i hi
  obtain ⟨j, hj, rfl⟩ := List.mem_mapIdx.1 hi
  exact h _ (List.getElem_mem hj)

theorem avoids_cleanup {code : List (Instr α)} (h : ∀ i ∈ code, i.Avoids name m) :
    ∀ i ∈ cleanup code, i.Avoids name m := by
  induction code with
  | nil => exact h
  | cons i code ih =>
      rw [List.forall_mem_cons] at h
      cases i with
      | unlock | closeGuard => exact List.forall_mem_cons.2 ⟨h.1, ih h.2⟩
      | _ => exact ih h.2

theorem cleanup_append (code code' : List (Instr α)) :
    cleanup (code ++ code') = cleanup code ++ cleanup code' := by
  induction code with
  | nil => rfl
  | cons i code ih =>
      cases i with
      | unlock | closeGuard => exact congrArg (_ :: ·) ih
      | _ => exact ih

/-- What a thread goes on with after an instruction that avoids a mutex. -/
inductive GoesOn (name : String) (m : MutexId) (i : Instr α) (code : List (Instr α)) :
    List (Instr α) → Prop
  | stays : GoesOn name m i code (i :: code)
  | more {more} (h : ∀ i ∈ more, i.Avoids name m) : GoesOn name m i code (more ++ code)
  /-- The operation is given up. -/
  | givenUp {path r} : GoesOn name m i code (cleanup code ++ [.report path r])

theorem GoesOn.avoids {i : Instr α} {code code' : List (Instr α)} (h : GoesOn name m i code code')
    (hcode : ∀ j ∈ i :: code, j.Avoids name m) : ∀ j ∈ code', j.Avoids name m := by
  have hrest := (List.forall_mem_cons.1 hcode).2
  cases h with
  | stays => exact hcode
  | more hmore => exact List.forall_mem_append.2 ⟨hmore, hrest⟩
  | givenUp =>
      refine List.forall_mem_append.2 ⟨avoids_cleanup hrest, ?_⟩
      simp [Instr.Avoids]

/-- A thread begins its next operation. -/
theorem tick_next {others : List ThreadId} {entry : Nat × Op α} {pending : List (Nat × Op α)}
    (hready : M.ready = t :: others) (hcode : (M.thread t).code = [])
    (hpending : (M.thread t).pending = entry :: pending) :
    M.tick = M.setThread t
      { M.thread t with code := [.start [entry.1] entry.2], pending, top := entry.1 } := by
  simp only [tick, hready, hcode, hpending]

end Machine

namespace Setting

open Machine

variable {S : Setting α} {M M' : Machine α} {t u : ThreadId} {name : String} {m : MutexId}
  {i : Instr α} {code : List (Instr α)} {others : List ThreadId}

/-- Whether a mutex belongs to no queue and has no other name. -/
structure KnownAs (S : Setting α) (name : String) (m : MutexId) : Prop where
  isPublic : S.IsPublicMutex m
  only : ∀ name' o, S.origin.object? name' = some o → o.mutex? = some m → name' = name

/-- What another name means is another mutex. -/
theorem KnownAs.ne (hk : S.KnownAs name m) (hfits : M.Fits S) {name' : String} {o : Object}
    {m' : MutexId} (ho : M.object? name' = some o) (hm : o.mutex? = some m')
    (hname : name' ≠ name) : m' ≠ m := by
  rintro rfl
  exact hname (hk.only _ _ (hfits.named _ _ ho) hm)

/-! ### What avoids a mutex leaves it alone -/

/-- What an instruction does that avoids a mutex. -/
structure Avoids (name : String) (m : MutexId) (M M' : Machine α) (next : Next α) : Prop where
  mutex : M'.mutex m = M.mutex m
  next : ∀ more, next = .goOn more → ∀ i ∈ more, i.Avoids name m

theorem avoids_yield (h : M'.mutex m = M.mutex m) (path : Path) (r : Result α) :
    Avoids name m M M' (.yield path r) := by
  refine ⟨h, ?_⟩
  rintro more ⟨⟩ i hi
  obtain rfl := List.mem_singleton.1 hi
  trivial

/-- An instruction behind which nothing more is to be done. -/
theorem avoids_done (h : M'.mutex m = M.mutex m) {next : Next α}
    (hnext : next = .goOn [] ∨ next = .park) : Avoids name m M M' next := by
  refine ⟨h, ?_⟩
  rintro more rfl
  rcases hnext with hnext | hnext <;> cases hnext
  simp

theorem avoids_of_does (hk : S.KnownAs name m) (hfits : M.Fits S) {path : Path} {op : Op α}
    {next : Next α} (hop : op.avoids name = true) (h : M.Does t path op M' next) :
    Avoids name m M M' next := by
  have other : ∀ {name' o m'}, name' ∈ op.names → M.object? name' = some o →
      o.mutex? = some m' → m' ≠ m := fun hmem ho hm =>
    hk.ne hfits ho hm (Op.ne_of_avoids hop hmem)
  have wakes : ∀ {c : ConditionId} {N : Machine α}, Wakes (.condition c) t M N →
      N.mutex m = M.mutex m := fun hw => hw.mutex_eq (by rintro e rfl; simp [Effect.Spares])
  cases h with
  | aside h hn =>
      refine ⟨h.mutex_eq ?_, ?_⟩
      · intro e he
        cases e with
        | own | enter | wake => exact absurd he id
        | _ => simp [Effect.Spares]
      · rintro more rfl
        cases hn with
        | @enter name' q tr ho =>
            have hq : q < S.queues := S.apart.queue_lt name' q (hfits.named _ _ ho)
            have hne : (M.queue q).mutex ≠ m := by
              rw [hfits.mutex q hq]
              exact hk.isPublic q hq
            simpa [Instr.Avoids] using hne
        | answer | seize | told => simp [Instr.Avoids]
  | claim hop' ho =>
      subst hop'
      have hne := other (by simp [Op.names]) ho rfl
      exact avoids_yield (by rw [mutex_setOwner, if_neg hne]) _ _
  | @give name' verb o m' u next hop' hv ho hm owned hn =>
      have hmem : name' ∈ op.names := by
        subst hop'
        cases verb <;> simp [Op.names]
      have hsame := free_mutex_ne (M := M) (other hmem ho hm)
      rcases hn with ⟨r, rfl⟩ | ⟨message, rfl⟩
      · exact avoids_yield hsame _ _
      · exact ⟨hsame, by rintro more ⟨⟩⟩
  | @take name' verb o m' hop' hv ho hm =>
      have hmem : name' ∈ op.names := by
        subst hop'
        cases verb <;> simp [Op.names]
      refine ⟨rfl, ?_⟩
      rintro more ⟨⟩
      simpa [Instr.Avoids] using other hmem ho hm
  | @synchronize name' body m' hop' ho | @guard name' body m' hop' ho =>
      subst hop'
      have hne : m' ≠ m := other (by simp [Op.names]) ho rfl
      have hbody := avoids_startBody (m := m) (fun inner => Op.avoids_body hop) path
      refine ⟨rfl, ?_⟩
      rintro more ⟨⟩
      refine List.forall_mem_append.2 ⟨List.forall_mem_cons.2 ⟨hne, hbody⟩, ?_⟩
      simp [Instr.Avoids, hne]
  | @wait name' lock c o l hop' hc ho hl hd =>
      subst hop'
      have hlock : ∀ m', l.mutex? = some m' → m' ≠ m := fun m' hm =>
        other (by simp [Op.names]) ho ((mutex?_of_lockable? hl).trans hm)
      refine ⟨?_, ?_⟩
      · rcases depart_of_departed hd with ⟨m', hm, -, heq⟩ | ⟨r, -, hraw⟩
        · rw [heq, leave_mutex_ne (hlock m' hm)]
        · have henter : Changes (· = .enter (.condition c)) t M (M.enqueue (.condition c) t) :=
            .single rfl (.enter _)
          rw [hraw.mutex_eq (by rintro e rfl; simp [Effect.Spares]),
            henter.mutex_eq (by rintro e rfl; simp [Effect.Spares])]
      · rintro more ⟨⟩
        have hacquire : (acquire l : Instr α).Avoids name m := by
          cases l with
          | raw r => trivial
          | native m' | wrapped m' | minimal m' => exact hlock m' rfl
        refine List.forall_mem_cons.2 ⟨by simp [Instr.Avoids], ?_⟩
        refine List.forall_mem_cons.2 ⟨hacquire, ?_⟩
        simp [Instr.Avoids]
  | signal => exact avoids_yield (wakes (wakeOne_wakes t M _)) _ _
  | broadcast => exact avoids_yield (wakes (wakeAll_wakes t M _)) _ _

theorem avoids_of_stroke (hk : S.KnownAs name m) (hfits : M.Fits S) {step : Nat} {next : Next α}
    (hshape : S.Shape step t (i :: code)) (hstart : ∀ path op, i ≠ .start path op)
    (hi : i.Avoids name m) (h : S.Stroke M t i M' next) : Avoids name m M M' next := by
  cases h with
  | start => exact absurd rfl (hstart _ _)
  | claim => exact avoids_done (by rw [mutex_setOwner, if_neg hi]) (.inl rfl)
  | @queueUp m' =>
      refine ⟨?_, ?_⟩
      · simp [enqueue, setWaiters, mutex_setMutex, show m' ≠ m from hi]
      · rintro more ⟨⟩
        simpa [Instr.Avoids] using hi
  | unlock => exact avoids_done (free_mutex_ne hi) (.inl rfl)
  | unlockFree | pass | report => exact avoids_done (by rfl) (.inl rfl)
  | closeGuard =>
      refine ⟨rfl, ?_⟩
      rintro more ⟨⟩
      simpa [Instr.Avoids] using hi
  | seize h =>
      refine avoids_done (h.mutex_eq ?_) (.inl rfl)
      rintro e rfl
      simp [Effect.Spares]
  | parkRaw | park => exact avoids_done (by rfl) (.inr rfl)
  | @wait q path tr side =>
      have hne : S.mutex q ≠ m := hk.isPublic q hshape.of_transact.1.lt
      refine ⟨leave_mutex_ne hne, ?_⟩
      rintro more ⟨⟩
      simpa [Instr.Avoids] using hne
  | @transact q path tr N r htr =>
      have hq : q < S.queues := hshape.of_transact.1.lt
      have hne : S.mutex q ≠ m := hk.isPublic q hq
      refine ⟨(htr.changes (t := t) hfits hq).mutex_eq ?_, ?_⟩
      · rintro e he
        cases e with
        | wake p =>
            cases p with
            | condition c => simp [Effect.Spares]
            | mutex m => exact absurd he id
        | own | enter => exact absurd he id
        | _ => simp [Effect.Spares]
      · rintro more ⟨⟩
        simpa [Instr.Avoids] using hne

/-- **An instruction that avoids a mutex leaves it as it is**, and the thread goes on with what
avoids it too. -/
theorem Sound.tick_avoids (h : S.Sound M) (hk : S.KnownAs name m) (hready : M.ready = t :: others)
    (hcode : (M.thread t).code = i :: code) (hi : i.Avoids name m) :
    M.tick.mutex m = M.mutex m ∧ (M.tick.thread t).pending = (M.thread t).pending ∧
      GoesOn name m i code (M.tick.thread t).code := by
  have hdeed := execute_deed h hready hcode
  have hthreads := hdeed.threads h hcode
  have havoids : Avoids name m M (M.execute t i).1 (M.execute t i).2 := by
    cases hdeed with
    | start _ hdoes => exact avoids_of_does hk h.fits hi hdoes
    | stroke hstart hstroke =>
        exact avoids_of_stroke hk h.fits (hcode ▸ (h.shaped t).code) hstart hi hstroke
  unfold Machine.tick
  simp only [hready, hcode]
  split <;> rename_i N he <;> rw [he] at hthreads havoids
  · refine ⟨havoids.mutex, ?_, ?_⟩ <;> rw [thread_setCode, if_pos rfl]
    · rw [thread_congr hthreads]
    · exact .more (havoids.next _ rfl)
  · refine ⟨havoids.mutex, congrArg Thread.pending (thread_congr hthreads t), ?_⟩
    have hsame : (N.thread t).code = i :: code := by rw [thread_congr hthreads, hcode]
    rw [show ({ N with ready := N.ready.tail } : Machine α).thread t = N.thread t from rfl, hsame]
    exact .stays
  · refine ⟨havoids.mutex, ?_, ?_⟩ <;> rw [thread_setCode, if_pos rfl]
    · rw [thread_congr hthreads]
    · exact .givenUp

/-- **A thread that avoids a mutex goes on doing so**, and leaves the mutex as it is. -/
theorem Sound.tick_avoiding (h : S.Sound M) (hk : S.KnownAs name m) (hready : M.ready = t :: others)
    (hs : (M.thread t).Avoids name m) :
    M.tick.mutex m = M.mutex m ∧ (M.tick.thread t).Avoids name m := by
  cases hcode : (M.thread t).code with
  | cons i code =>
      have hall := hs.code
      rw [hcode] at hall
      obtain ⟨hsame, hpending, hon⟩ := h.tick_avoids hk hready hcode (hall i (by simp))
      refine ⟨hsame, hon.avoids hall, ?_⟩
      rw [hpending]
      exact hs.pending
  | nil =>
      cases hpending : (M.thread t).pending with
      | nil =>
          rw [tick_finish hready ⟨hcode, hpending⟩]
          exact ⟨rfl, hs⟩
      | cons entry pending =>
          have hnext := hs.pending
          rw [hpending, List.forall_mem_cons] at hnext
          rw [tick_next hready hcode hpending, thread_setThread, if_pos rfl]
          exact ⟨rfl, List.forall_mem_singleton.2 hnext.1, hnext.2⟩

end Setting

/-! ### Lines about those who were passed over -/

/-- Whether a line of the log says that a task was passed over. -/
def Entry.isSkip (u : HandleId) : Entry α → Bool
  | .skipped h => h == u
  | _ => false

namespace Machine

variable {M M' M'' : Machine α} {t u : ThreadId} {p : Place}

/-- How many lines of the log say that a task was passed over. -/
def skipsOf (M : Machine α) (u : HandleId) : Nat :=
  M.log.countP (Entry.isSkip u)

/-- Every line that says that a task was passed over is about an entry of its that is gone.  The
task is on one list at most. -/
structure Tolls (u : HandleId) (p : Place) (M M' : Machine α) : Prop where
  grows : M.skipsOf u ≤ M'.skipsOf u
  bound : M'.skipsOf u + M'.entries p u ≤ M.skipsOf u + M.entries p u
  elsewhere : ∀ p', p' ≠ p → M'.entries p' u = 0

theorem Tolls.trans (h : Tolls u p M M') (h' : Tolls u p M' M'') : Tolls u p M M'' :=
  ⟨Nat.le_trans h.grows h'.grows, Nat.le_trans h'.bound h.bound, h'.elsewhere⟩

theorem skipsOf_note (e : Entry α) :
    (M.note e).skipsOf u = M.skipsOf u + if e.isSkip u then 1 else 0 := by
  simp [skipsOf, Machine.note, List.countP_cons]

/-- Nothing that counts has changed. -/
theorem Tolls.congr (helsewhere : ∀ p', p' ≠ p → M.entries p' u = 0)
    (hlog : M'.skipsOf u = M.skipsOf u) (hwaiters : ∀ p', M'.waiters p' = M.waiters p') :
    Tolls u p M M' := by
  have hentries : ∀ p', M'.entries p' u = M.entries p' u := fun p' => by
    rw [entries, entries, hwaiters]
  exact ⟨Nat.le_of_eq hlog.symm, Nat.le_of_eq (by rw [hlog, hentries]),
    fun p' hp => by rw [hentries, helsewhere p' hp]⟩

/-- The earliest entry of a place is taken out; a line is added only if it is the task's. -/
theorem Tolls.rest {v : HandleId} {p' : Place} {rest : WaitList HandleId}
    (helsewhere : ∀ p', p' ≠ p → M.entries p' u = 0) (hs : (M.waiters p').toList = v :: rest.toList)
    (hwaiters : ∀ p'', M'.waiters p'' = (M.setWaiters p' rest).waiters p'')
    (hlog : M'.skipsOf u = M.skipsOf u ∨ M'.skipsOf u = M.skipsOf u + if v = u then 1 else 0) :
    Tolls u p M M' := by
  have hentries : ∀ p'', M'.entries p'' u = if p' = p'' then rest.toList.count u
      else M.entries p'' u := fun p'' => by
    rw [entries, hwaiters]
    exact Setting.entries_setWaiters p' p'' rest u
  have hfirst : M.entries p' u = rest.toList.count u + if v = u then 1 else 0 := by
    rw [entries, hs, List.count_cons]
    simp
  have hmine : v = u → p' = p := by
    rintro rfl
    by_contra hne
    have := helsewhere p' hne
    rw [hfirst, if_pos rfl] at this
    omega
  refine ⟨by omega, ?_, fun p'' hp => ?_⟩
  · rw [hentries]
    split
    · subst p'
      omega
    · rename_i hne
      have : v ≠ u := fun hv => hne (hmine hv)
      simp only [this, if_false] at hlog
      omega
  · rw [hentries]
    split
    · subst p'
      have := helsewhere p'' hp
      omega
    · exact helsewhere p'' hp

theorem Change.tolls {e : Effect} (h : Change t M e M') (hnote : e ≠ .note) (hut : u ≠ t)
    (helsewhere : ∀ p', p' ≠ p → M.entries p' u = 0) : Tolls u p M M' := by
  cases h with
  | enter p' =>
      have hentries : ∀ p'', (M.enqueue p' t).entries p'' u = M.entries p'' u := fun p'' => by
        rw [enqueue, Setting.entries_setWaiters, WaitList.toList_push, List.count_append]
        split
        · subst p'
          simp [Ne.symm hut, entries]
        · rfl
      have hlog : (M.enqueue p' t).skipsOf u = M.skipsOf u := by simp [skipsOf, enqueue]
      exact ⟨Nat.le_of_eq hlog.symm, Nat.le_of_eq (by rw [hlog, hentries]),
        fun p'' hp => by rw [hentries, helsewhere p'' hp]⟩
  | @relist p' l hs =>
      have hentries : ∀ p'', (M.setWaiters p' l).entries p'' u = M.entries p'' u := fun p'' => by
        rw [Setting.entries_setWaiters]
        split
        · subst p'; rw [← hs]; rfl
        · rfl
      have hlog : (M.setWaiters p' l).skipsOf u = M.skipsOf u := by simp [skipsOf]
      exact ⟨Nat.le_of_eq hlog.symm, Nat.le_of_eq (by rw [hlog, hentries]),
        fun p'' hp => by rw [hentries, helsewhere p'' hp]⟩
  | @skip p' v rest hs dead =>
      refine .rest helsewhere hs (fun p'' => waiters_note ..) (.inr ?_)
      rw [skipsOf_note]
      simp [Entry.isSkip, skipsOf]
  | @rouse p' v rest hs live =>
      refine .rest helsewhere hs (fun p'' => waiters_roused ..) (.inl ?_)
      simp [skipsOf, roused]
  | own => exact .congr helsewhere rfl fun p' => waiters_setOwner ..
  | resume => exact .congr helsewhere rfl fun p' => waiters_roused ..
  | note => exact absurd rfl hnote
  | _ => exact .congr helsewhere rfl fun p' => by cases p' <;> rfl

theorem Changes.tolls {allowed : Effect → Prop} (h : Changes allowed t M M')
    (hs : ∀ e, allowed e → e ≠ .note) (hut : u ≠ t)
    (helsewhere : ∀ p', p' ≠ p → M.entries p' u = 0) : Tolls u p M M' :=
  h.keeps (I := fun N => Tolls u p M N)
    (fun _ _ _ he hc hN => hN.trans (hc.tolls (hs _ he) hut hN.elsewhere))
    (.congr helsewhere rfl fun _ => rfl)

end Machine

namespace Setting

open Machine

variable {S : Setting α} {M M' : Machine α} {t u : ThreadId} {p : Place} {i : Instr α}
  {code : List (Instr α)} {others : List ThreadId}

/-- A transaction adds lines about those only whom it passes over. -/
theorem Transacts.tolls {q : QueueId} {tr : Transaction α} {r : Result α}
    (h : Transacts M q tr M' r) (hut : u ≠ t)
    (helsewhere : ∀ p', p' ≠ p → M.entries p' u = 0) : Tolls u p M M' := by
  have woken : ∀ {N : Machine α} (p' : Place), Tolls u p M N → Tolls u p M (N.wakeOne p').1 :=
    fun p' hN => hN.trans ((wakeOne_wakes t _ p').tolls (by rintro e rfl; simp) hut hN.elsewhere)
  have refilled : ∀ s : Queue α, Tolls u p M (M.setQueue q s) := fun s =>
    .congr helsewhere rfl fun p' => by cases p' <;> rfl
  cases h with
  | ask => exact .congr helsewhere rfl fun _ => rfl
  | add | takeWaking | clear => exact woken _ (refilled _)
  | take => exact refilled _
  | @resize capacity =>
      have hnoted : Tolls u p M ((M.setQueue q { M.queue q with capacity }).note
          (.resized capacity ((M.queue q).addedSlots capacity))) := by
        refine .congr helsewhere ?_ fun p' => by cases p' <;> rfl
        rw [skipsOf_note]
        rfl
      exact hnoted.trans ((wakeTimes_wakes t _ _ _).tolls (by rintro e rfl; simp) hut
        hnoted.elsewhere)

theorem Stroke.tolls {next : Next α} {step : Nat} (hshape : S.Shape step t (i :: code))
    (h : S.Stroke M t i M' next) (hut : u ≠ t)
    (helsewhere : ∀ p', p' ≠ p → M.entries p' u = 0) : Tolls u p M M' := by
  have freed : ∀ m, Tolls u p M (M.free m) := fun m =>
    (free_changes t M m).tolls (by rintro e (rfl | rfl) <;> simp) hut helsewhere
  have left : ∀ c m, Tolls u p M (M.leave c m t) := fun c m =>
    (leave_changes M c m t).tolls (by rintro e (rfl | rfl | rfl) <;> simp) hut helsewhere
  have same : ∀ {N : Machine α}, (∀ p', N.waiters p' = M.waiters p') →
      N.skipsOf u = M.skipsOf u → Tolls u p M N := fun hw hl => .congr helsewhere hl hw
  cases h with
  | start h =>
      cases h with
      | calm h =>
          refine h.tolls ?_ hut helsewhere
          rintro e he rfl
          exact he
      | unwind => exact same (fun _ => rfl) rfl
      | forget => exact Change.tolls (.forget _) (by simp) hut helsewhere
      | resumes _ h => exact h.tolls (by rintro e (rfl | ⟨v, rfl⟩) <;> simp) hut helsewhere
      | release => exact freed _
      | wait => exact left _ _
      | @waitRaw c _ _ _ _ h =>
          have hentered : Tolls u p M (M.enqueue (.condition c) t) :=
            Change.tolls (.enter _) (by simp) hut helsewhere
          exact hentered.trans (h.tolls (by rintro e rfl; simp) hut hentered.elsewhere)
  | claim => exact same (fun _ => waiters_setOwner ..) rfl
  | queueUp => exact Change.tolls (.enter _) (by simp) hut helsewhere
  | unlock => exact freed _
  | unlockFree | closeGuard => exact same (fun _ => rfl) rfl
  | seize h => exact h.tolls (by rintro e rfl; simp) hut helsewhere
  | parkRaw | pass | park => exact same (fun p' => by cases p' <;> rfl) rfl
  | report =>
      refine same (fun p' => waiters_note ..) ?_
      rw [skipsOf_note]
      rfl
  | wait => exact left _ _
  | transact h => exact h.tolls hut helsewhere

/-- **Whoever does not run has a line about it added only when its entry goes.** -/
theorem Sound.tolls (h : S.Sound M) (hready : M.ready = t :: others) (hut : u ≠ t)
    (helsewhere : ∀ p', p' ≠ p → M.entries p' u = 0) : Tolls u p M M.tick := by
  have same : ∀ {t' others'}, M.ready = t' :: others' → t = t' := fun hr =>
    (List.cons.inj (hready.symm.trans hr)).1
  have hturn := h.turn
  generalize M.tick = M' at hturn ⊢
  cases hturn with
  | still hr => simp [hready] at hr
  | finish | next => exact .congr helsewhere rfl fun p' => by cases p' <;> rfl
  | goOn hr hcode hstroke | unwind hr hcode hstroke =>
      obtain rfl := same hr
      have htolls := hstroke.tolls (hcode ▸ (h.shaped t).code) hut helsewhere
      exact htolls.trans (.congr htolls.elsewhere rfl fun p' => waiters_setCode ..)
  | park hr hcode hstroke =>
      obtain rfl := same hr
      have hhalts := hstroke.halts hr hcode
      exact .congr helsewhere (congrArg (List.countP _) hhalts.log) hhalts.waiters

end Setting

end BlockingSync
