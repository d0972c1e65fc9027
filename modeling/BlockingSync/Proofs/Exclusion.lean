/-
A mutex excludes all but the thread inside its body.

A release never asks who owns the mutex, so that nobody else releases it rests on every
thread: as long as a mutex is used only through bodies around which it is held, each
release in the code of a thread ends a body that the thread is inside.  A wait inside a
body gives the mutex up and takes it again before it goes on.  So a thread stands to a
mutex in one of three ways (`Standing`), and it owns the mutex exactly if it is inside.
Giving an operation up keeps the ends of all bodies around it (`gives_cleanup`), which is
why a panic does not change how its thread stands.
-/
import BlockingSync.Proofs.Nesting
import BlockingSync.Proofs.Usage

namespace BlockingSync

variable {α : Type}

/-- Whether an operation takes a lock or gives one back. -/
def Verb.movesLock : Verb α → Bool
  | .tryLock => true
  | verb => verb.isTaking || verb.isGiving

theorem movesLock_of_isTaking {verb : Verb α} (h : verb.isTaking = true) :
    verb.movesLock = true := by
  cases verb <;> simp_all [Verb.isTaking, Verb.movesLock]

theorem movesLock_of_isGiving {verb : Verb α} (h : verb.isGiving = true) :
    verb.movesLock = true := by
  cases verb <;> simp_all [Verb.isGiving, Verb.movesLock]

/-! ### Bodies -/

/-- The mutexes that code gives back at the ends of bodies, innermost first. -/
def gives : List (Instr α) → List MutexId
  | [] => []
  | .unlock m :: code | .closeGuard m _ :: code => m :: gives code
  | _ :: code => gives code

/-- What a thread goes on with once it was woken. -/
def awake : List (Instr α) → List (Instr α)
  | .suspend _ _ :: code => code
  | code => code

/-- Whether code behind the taking of a mutex is a body and its end.  Otherwise the mutex is taken
for an operation as a whole, or again by a wait. -/
def isBody : List (Instr α) → Bool
  | .start .. :: _ | .unlock _ :: _ | .closeGuard .. :: _ => true
  | _ => false

/-- The mutexes in whose bodies a thread is.  It is not yet inside a body whose mutex it is about
to take. -/
def bodies (code : List (Instr α)) : List MutexId :=
  match awake code with
  | .lock m :: code => if isBody code then (gives code).erase m else gives code
  | code => gives code

/-- Whether a thread has given a mutex up in a wait and has yet to take it again. -/
def reacquires (m : MutexId) (code : List (Instr α)) : Bool :=
  match awake code with
  | .lock m' :: code => m' == m && !isBody code
  | _ => false

/-- Whether a thread is inside a body of a mutex, and not in a wait that gave the mutex up. -/
def Machine.isInside (M : Machine α) (m : MutexId) (t : ThreadId) : Bool :=
  (bodies (M.thread t).code).contains m && !reacquires m (M.thread t).code

@[simp] theorem gives_append (code code' : List (Instr α)) :
    gives (code ++ code') = gives code ++ gives code' := by
  induction code with
  | nil => rfl
  | cons i code ih => cases i <;> simp [gives, ih]

@[simp] theorem gives_startBody (path : Path) (body : List (Op α)) :
    gives (Machine.startBody path body) = [] := by
  have hnone : ∀ code : List (Instr α), (∀ i ∈ code, ∃ path op, i = .start path op) →
      gives code = [] := by
    intro code hcode
    induction code with
    | nil => rfl
    | cons i code ih =>
        obtain ⟨path, op, rfl⟩ := hcode i (by simp)
        exact ih fun j hj => hcode j (by simp [hj])
  apply hnone
  intro i hi
  obtain ⟨k, hk, rfl⟩ := List.mem_mapIdx.1 hi
  exact ⟨_, _, rfl⟩

/-- Giving an operation up gives back the mutexes of all bodies around it. -/
theorem cleanup_eq_map (code : List (Instr α)) :
    Machine.cleanup code = (gives code).map .unlock := by
  induction code with
  | nil => rfl
  | cons i code ih => cases i <;> simp [Machine.cleanup, gives, ih]

@[simp] theorem gives_cleanup (code : List (Instr α)) :
    gives (Machine.cleanup code) = gives code := by
  rw [cleanup_eq_map]
  induction gives code with
  | nil => rfl
  | cons m ms ih => simp [gives, ih]

theorem isBody_startBody (path : Path) (body : List (Op α)) {code : List (Instr α)}
    (h : isBody code = true) : isBody (Machine.startBody path body ++ code) = true := by
  cases body with
  | nil => exact h
  | cons op body => simp [Machine.startBody, isBody]

/-- How a thread stands to a mutex. -/
inductive Standing where
  | outside
  | inside
  /-- In a wait inside a body, before the mutex is taken again. -/
  | away
  deriving DecidableEq

/-- How many bodies of the mutex a thread is inside. -/
def Standing.depth : Standing → Nat
  | .outside => 0
  | .inside | .away => 1

/-- How code stands to a mutex. -/
structure Stands (m : MutexId) (w : Standing) (code : List (Instr α)) : Prop where
  depth : (bodies code).count m = w.depth
  away : reacquires m code = decide (w = .away)
  /-- A body that is about to be entered has its end. -/
  entering : ∀ code', awake code = .lock m :: code' → isBody code' = true → m ∈ gives code'

variable {m : MutexId} {w : Standing} {code : List (Instr α)}

theorem Stands.isInside (h : Stands m w code) :
    ((bodies code).contains m && !reacquires m code) = true ↔ w = .inside := by
  have hmem : (bodies code).contains m = true ↔ 0 < w.depth := by
    rw [List.contains_iff_mem, ← List.count_pos_iff, h.depth]
  rw [Bool.and_eq_true, hmem, h.away]
  cases w <;> simp [Standing.depth]

/-- Suspending does not change how a thread stands. -/
theorem Stands.of_awake {code' : List (Instr α)} (h : Stands m w code)
    (heq : awake code' = awake code) : Stands m w code' := by
  obtain ⟨hdepth, haway, hentering⟩ := h
  refine ⟨?_, ?_, ?_⟩
  · unfold bodies at hdepth ⊢
    rw [heq]
    exact hdepth
  · unfold reacquires at haway ⊢
    rw [heq]
    exact haway
  · rw [heq]
    exact hentering

/-- Code at whose front no mutex is taken. -/
theorem stands_of_plain (hplain : ∀ m' code', awake code ≠ .lock m' :: code')
    (hdepth : (gives (awake code)).count m = w.depth) (hw : w ≠ .away) : Stands m w code := by
  refine ⟨?_, ?_, fun code' h => absurd h (hplain m code')⟩
  · unfold bodies
    split
    · rename_i m' code' h
      exact absurd h (hplain m' code')
    · exact hdepth
  · have hfalse : reacquires m code = false := by
      unfold reacquires
      split
      · rename_i m' code' h
        exact absurd h (hplain m' code')
      · rfl
    rw [hfalse, decide_eq_false hw]

/-- Code at whose front another mutex is taken. -/
theorem stands_of_lock_ne {m' : MutexId} (hne : m' ≠ m) (hdepth : (gives code).count m = w.depth)
    (hw : w ≠ .away) : Stands m w (.lock m' :: code) := by
  refine ⟨?_, ?_, ?_⟩
  · show (if isBody code then (gives code).erase m' else gives code).count m = w.depth
    split
    · rw [List.count_erase_of_ne (Ne.symm hne), hdepth]
    · exact hdepth
  · show (m' == m && !isBody code) = decide (w = .away)
    simp [hne, hw]
  · intro code' h
    exact absurd (Instr.lock.inj (List.cons.inj h).1) hne

theorem Stands.depth_of_lock_ne {m' : MutexId} (hne : m' ≠ m) (h : Stands m w (.lock m' :: code)) :
    (gives code).count m = w.depth ∧ w ≠ .away := by
  have hdepth : (if isBody code then (gives code).erase m' else gives code).count m = w.depth :=
    h.depth
  have haway : (m' == m && !isBody code) = decide (w = .away) := h.away
  constructor
  · split at hdepth
    · rwa [List.count_erase_of_ne (Ne.symm hne)] at hdepth
    · exact hdepth
  · rintro rfl
    simp [hne] at haway

/-- How a thread stands at whose front no mutex is taken. -/
theorem Stands.of_plain {i : Instr α} (h : Stands m w (i :: code)) (hs : ∀ v p, i ≠ .suspend v p)
    (hl : ∀ m', i ≠ .lock m') : (gives (i :: code)).count m = w.depth ∧ w ≠ .away := by
  obtain ⟨hdepth, haway, -⟩ := h
  cases i with
  | suspend v p => exact absurd rfl (hs v p)
  | lock m' => exact absurd rfl (hl m')
  | _ => exact ⟨hdepth, fun hw => by simp [reacquires, awake, hw] at haway⟩

theorem Stands.of_start {path : Path} {op : Op α} (h : Stands m w (.start path op :: code)) :
    (gives code).count m = w.depth ∧ w ≠ .away :=
  h.of_plain (by simp) (by simp)

/-- How a thread stands to a mutex around whose body it is about to take it. -/
theorem stands_of_body {m' : MutexId} {path : Path} {body : List (Op α)}
    {last rest : List (Instr α)}
    (hbody : isBody last = true) (hgives : gives last = [m'])
    (hdepth : (gives rest).count m = w.depth) (hw : w ≠ .away) :
    Stands m w (.lock m' :: Machine.startBody path body ++ last ++ rest) := by
  have hlast : isBody (Machine.startBody path body ++ (last ++ rest)) = true := by
    apply isBody_startBody
    cases last with
    | nil => simp [gives] at hgives
    | cons i last => cases i <;> simp_all [isBody]
  have hall : gives (Machine.startBody path body ++ (last ++ rest)) = m' :: gives rest := by
    simp [hgives]
  have hcode : Instr.lock m' :: Machine.startBody path body ++ last ++ rest =
      .lock m' :: (Machine.startBody path body ++ (last ++ rest)) := by
    simp
  rw [hcode]
  refine ⟨?_, ?_, ?_⟩
  · show (if _ then _ else _ : List MutexId).count m = _
    rw [if_pos hlast, hall, List.erase_cons_head, hdepth]
  · show (m' == m && !isBody _) = decide (w = .away)
    rw [hlast, decide_eq_false hw]
    simp
  · intro code' heq _
    obtain ⟨hm, rfl⟩ := List.cons.inj heq
    obtain rfl := Instr.lock.inj hm
    rw [hall]
    simp

namespace Setting

open Machine

variable {S : Setting α} {M M' : Machine α} {t : ThreadId} {i : Instr α} {more : List (Instr α)}

/-- Whether a mutex is used only through bodies around which it is held, through waits, and by
asking about it. -/
structure Encloses (S : Setting α) (m : MutexId) : Prop where
  isPublic : S.IsPublicMutex m
  /-- No object hides the mutex. -/
  shown : ∀ name o, S.origin.object? name = some o → o.mutex? = some m → o = .mutex m
  /-- No operation takes the mutex or gives it back by itself. -/
  bodied : ∀ step path name verb, S.find? step path = some (.onObject name verb) →
    S.origin.object? name = some (.mutex m) → verb.movesLock = false

/-- Whether the thread that ran stands as the owner of the mutex says, with the code that it has
now, while for the others nothing has changed. -/
def Passes (m : MutexId) (t : ThreadId) (M M' : Machine α) (code : List (Instr α)) : Prop :=
  ∃ w, Stands m w code ∧ ((M'.mutex m).owner = some t ↔ w = .inside) ∧
    ∀ u, u ≠ t → ((M'.mutex m).owner = some u ↔ (M.mutex m).owner = some u)

/-- The owner stays. -/
theorem Passes.of_same (hw : Stands m w code) (ho : (M.mutex m).owner = some t ↔ w = .inside)
    (h : (M'.mutex m).owner = (M.mutex m).owner) : Passes m t M M' code :=
  ⟨w, hw, by rw [h]; exact ho, fun u _ => by rw [h]⟩

/-- The thread that runs gives the mutex up. -/
theorem Passes.of_free (hw : Stands m w code) (hne : w ≠ .inside)
    (ho : (M.mutex m).owner = some t) (h : (M'.mutex m).owner = none) : Passes m t M M' code := by
  refine ⟨w, hw, by simp [h, hne], fun u hu => ?_⟩
  simp [h, ho, Ne.symm hu]

/-- The thread that runs takes the mutex. -/
theorem Passes.of_claim (hw : Stands m .inside code) (ho : (M.mutex m).owner = none)
    (h : (M'.mutex m).owner = some t) : Passes m t M M' code := by
  refine ⟨.inside, hw, by simp [h], fun u hu => ?_⟩
  simp [h, ho, Ne.symm hu]

/-- After a stroke every thread stands as the owner of the mutex says. -/
theorem Passes.setCode {code' : List (Instr α)} (hp : Passes m t M M' code')
    (hcode : ∀ u, ((M'.setCode t code').thread u).code = if u = t then code' else (M.thread u).code)
    (h : ∀ u, ∃ w, Stands m w (M.thread u).code ∧ ((M.mutex m).owner = some u ↔ w = .inside))
    (u : ThreadId) : ∃ w, Stands m w ((M'.setCode t code').thread u).code ∧
      (((M'.setCode t code').mutex m).owner = some u ↔ w = .inside) := by
  obtain ⟨w, hw, ho, hothers⟩ := hp
  rw [hcode]
  by_cases hu : u = t
  · subst hu
    rw [if_pos rfl]
    exact ⟨w, hw, ho⟩
  · rw [if_neg hu]
    obtain ⟨w', hw', ho'⟩ := h u
    exact ⟨w', hw', (hothers u hu).trans ho'⟩

theorem owner_of_aside (h : Changes Effect.IsAside t M M') :
    (M'.mutex m).owner = (M.mutex m).owner := by
  rw [h.mutex_eq]
  intro e he
  cases e with
  | own | enter | wake => exact absurd he id
  | _ => simp [Effect.Spares]

theorem owner_of_wakes {p : Place} (h : Wakes p t M M') :
    (M'.mutex m).owner = (M.mutex m).owner := by
  refine h.keeps (I := fun N => (N.mutex m).owner = (M.mutex m).owner) ?_ rfl
  intro e N N' he hc hN
  subst he
  rw [hc.owner (by simp), hN]

/-! ### Strokes -/

/-- How a thread stands with the code that an operation begins with. -/
theorem stands_of_brief (henc : S.Encloses m) (hfits : M.Fits S) {path : Path}
    (hn : M.Brief path (.goOn more)) (hdepth : (gives code).count m = w.depth) (hw : w ≠ .away) :
    Stands m w (more ++ code) := by
  cases hn with
  | answer | seize | told => exact stands_of_plain (by simp [awake]) hdepth hw
  | @enter name q tr ho =>
      have hq : q < S.queues := S.apart.queue_lt name q (hfits.named _ _ ho)
      have hne : (M.queue q).mutex ≠ m := by
        rw [hfits.mutex q hq]
        exact henc.isPublic q hq
      exact stands_of_lock_ne hne hdepth hw

/-- An operation that takes a lock or gives it back is about another mutex. -/
theorem Encloses.ne_of_movesLock (henc : S.Encloses m) (hfits : M.Fits S) {step : Nat} {path : Path}
    {name : String} {verb : Verb α} {o : Object} {m' : MutexId}
    (hop : S.find? step path = some (.onObject name verb)) (hverb : verb.movesLock = true)
    (ho : M.object? name = some o) (hm : o.mutex? = some m') : m' ≠ m := by
  intro heq
  subst heq
  have horigin := hfits.named _ _ ho
  rw [henc.shown _ _ horigin hm] at horigin
  rw [henc.bodied step path name verb hop horigin] at hverb
  cases hverb

/-- An operation that begins keeps its thread standing as the owner says. -/
theorem passes_of_does (henc : S.Encloses m) (hfits : M.Fits S) {step : Nat} {path : Path}
    {op : Op α} (hop : S.find? step path = some op) (h : M.Does t path op M' (.goOn more))
    (hw : Stands m w (.start path op :: code))
    (ho : (M.mutex m).owner = some t ↔ w = .inside) : Passes m t M M' (more ++ code) := by
  obtain ⟨hdepth, haway⟩ := hw.of_start
  have answer : ∀ r, Stands m w ([.report path r] ++ code) := fun r =>
    stands_of_plain (by simp [awake]) hdepth haway
  cases h with
  | aside h hn => exact .of_same (stands_of_brief henc hfits hn hdepth haway) ho (owner_of_aside h)
  | @claim name m' hop' ho' free =>
      have hne := henc.ne_of_movesLock hfits (hop' ▸ hop) rfl ho' rfl
      exact .of_same (answer _) ho (by simp [mutex_setOwner, hne])
  | @give name verb o m' u next hop' hv ho' hm' owned hn =>
      have hne := henc.ne_of_movesLock hfits (hop' ▸ hop) (movesLock_of_isGiving hv) ho' hm'
      rcases hn with ⟨r, hn⟩ | ⟨message, hn⟩
      · obtain rfl := Next.goOn.inj hn
        exact .of_same (answer r) ho (by rw [free_mutex_ne hne])
      · cases hn
  | @take name verb o m' hop' hv ho' hm' =>
      have hne := henc.ne_of_movesLock hfits (hop' ▸ hop) (movesLock_of_isTaking hv) ho' hm'
      exact .of_same (stands_of_lock_ne hne hdepth haway) ho rfl
  | synchronize => exact .of_same (stands_of_body rfl rfl hdepth haway) ho rfl
  | guard => exact .of_same (stands_of_body rfl rfl hdepth haway) ho rfl
  | signal => exact .of_same (answer _) ho (owner_of_wakes (wakeOne_wakes t M _))
  | broadcast => exact .of_same (answer _) ho (owner_of_wakes (wakeAll_wakes t M _))
  | @wait name lock c o l hop' hc ho' hl hd =>
      rcases depart_of_departed hd with ⟨m', hm', -, heq⟩ | ⟨r, rfl, hraw⟩
      · rw [heq, acquire_of_mutex? hm']
        by_cases hmm : m' = m
        · subst hmm
          -- The thread gives up the mutex that it is inside of.
          obtain rfl := henc.shown _ _ (hfits.named _ _ ho') ((mutex?_of_lockable? hl).trans hm')
          obtain rfl := Option.some.inj hl
          have howner : (M.mutex m').owner = some t :=
            (owner_of_departed rfl hd).resolve_right (by simp)
          obtain rfl := ho.1 howner
          have hstands : Stands m' .away (.lock m' :: .report path .ok :: code) :=
            ⟨hdepth, by simp [reacquires, awake, isBody], by simp [awake, isBody]⟩
          exact .of_free (hstands.of_awake rfl) (by simp) howner (owner_leave c m' t)
        · have hstands : Stands m w (.lock m' :: .report path .ok :: code) :=
            stands_of_lock_ne hmm hdepth haway
          refine .of_same (hstands.of_awake rfl) ho ?_
          rw [leave_mutex_ne hmm]
      · refine .of_same (stands_of_plain (by simp [awake, acquire]) hdepth haway) ho ?_
        rw [hraw.mutex_eq (by rintro e rfl; simp [Effect.Spares]), enqueue, owner_setWaiters]

/-- An operation that is given up keeps the ends of the bodies around it. -/
theorem passes_of_unwind (henc : S.Encloses m) (hfits : M.Fits S) {step : Nat} {path path' : Path}
    {op : Op α} {message : String} {r : Result α} (hop : S.find? step path = some op)
    (h : M.Does t path op M' (.unwind message)) (hw : Stands m w (.start path op :: code))
    (ho : (M.mutex m).owner = some t ↔ w = .inside) :
    Passes m t M M' (cleanup code ++ [.report path' r]) := by
  obtain ⟨hdepth, haway⟩ := hw.of_start
  have hawake : awake (cleanup code ++ [.report path' r]) = cleanup code ++ [.report path' r] ∧
      ∀ m' code', cleanup code ++ [.report path' r] ≠ .lock m' :: code' := by
    rw [cleanup_eq_map]
    cases gives code <;> simp [awake]
  have hstands : Stands m w (cleanup code ++ [.report path' r]) := by
    refine stands_of_plain ?_ ?_ haway
    · rw [hawake.1]
      exact hawake.2
    · rw [hawake.1]
      simpa [gives] using hdepth
  cases h with
  | aside h => exact .of_same hstands ho (owner_of_aside h)
  | give hop' hv ho' hm' =>
      have hne := henc.ne_of_movesLock hfits (hop' ▸ hop) (movesLock_of_isGiving hv) ho' hm'
      exact .of_same hstands ho (by rw [free_mutex_ne hne])

theorem awake_of_trails {step : Nat} (h : S.Trails step code) : awake code = code := by
  cases code with
  | nil => rfl
  | cons i code =>
      cases i with
      | suspend => exact absurd (trails_cons.1 h).1 id
      | _ => rfl

/-- Nobody suspends twice in a row. -/
theorem Shape.awake_behind {step : Nat} {v : HandleId} {p : Option Place}
    (h : S.Shape step t (.suspend v p :: code)) : awake code = awake (.suspend v p :: code) := by
  show awake code = code
  cases h with
  | trailing h => exact absurd (trails_cons.1 h).1 id
  | told _ h => exact awake_of_trails h
  | locking | waiting | waitingRaw | queueing => rfl

/-- How a thread stands with code that can stand behind other code. -/
theorem stands_of_trails {step : Nat} (h : S.Trails step code)
    (hdepth : (gives code).count m = w.depth) (hw : w ≠ .away) : Stands m w code := by
  have hawake := awake_of_trails h
  refine stands_of_plain ?_ (by rw [hawake]; exact hdepth) hw
  intro m' code' heq
  rw [hawake] at heq
  subst heq
  exact (trails_cons.1 h).1

/-- A thread that takes the mutex is inside from then on. -/
theorem stands_of_claim {step : Nat} (henc : S.Encloses m) (ho : w ≠ .inside)
    (hshape : S.Shape step t (.lock m :: code)) (hw : Stands m w (.lock m :: code)) :
    Stands m .inside code := by
  have hdepth : (if isBody code then (gives code).erase m else gives code).count m = w.depth :=
    hw.depth
  have haway : (m == m && !isBody code) = decide (w = .away) := hw.away
  have htrails : S.Trails step code := by
    rcases hshape.of_lock with ⟨-, h⟩ | ⟨q, path, tr, rest, heq, -, hs, -⟩
    · exact h
    · exact absurd heq.symm (henc.isPublic q hs.lt)
  refine stands_of_trails htrails ?_ (by simp)
  cases hbody : isBody code with
  | true =>
      have hmem : m ∈ gives code := hw.entering code rfl hbody
      have hpos := List.count_pos_iff.2 hmem
      rw [hbody, if_pos rfl, List.count_erase_self] at hdepth
      simp only [hbody, beq_self_eq_true, Bool.not_true, Bool.and_false] at haway
      cases w with
      | outside =>
          simp only [Standing.depth] at hdepth ⊢
          omega
      | inside => exact absurd rfl ho
      | away => simp at haway
  | false =>
      simp only [hbody, beq_self_eq_true, Bool.not_false, Bool.and_true] at haway
      obtain rfl : w = .away := by simpa using haway.symm
      simpa [hbody, Standing.depth] using hdepth

/-- A thread that reaches the end of a body was inside. -/
theorem inside_of_unlock (hdepth : (gives (.unlock m :: code)).count m = w.depth)
    (haway : w ≠ .away) :
    w = .inside ∧ (gives code).count m = Standing.outside.depth := by
  rw [gives, List.count_cons_self] at hdepth
  cases w with
  | outside => simp [Standing.depth] at hdepth
  | inside => exact ⟨rfl, by simpa [Standing.depth] using hdepth⟩
  | away => exact absurd rfl haway

/-- Any other instruction keeps its thread standing as the owner says. -/
theorem passes_of_stroke (henc : S.Encloses m) (hfits : M.Fits S)
    (hshape : S.Shape (M.thread t).step t (i :: code)) (hi : ∀ path op, i ≠ .start path op)
    (h : S.Stroke M t i M' (.goOn more)) (hw : Stands m w (i :: code))
    (ho : (M.mutex m).owner = some t ↔ w = .inside) : Passes m t M M' (more ++ code) := by
  cases h with
  | start => exact absurd rfl (hi _ _)
  | @claim m' free =>
      by_cases hmm : m' = m
      · subst hmm
        have hne : w ≠ .inside := by
          intro heq
          rw [ho.2 heq] at free
          cases free
        exact .of_claim (stands_of_claim henc hne hshape hw) free (by simp [mutex_setOwner])
      · obtain ⟨hdepth, haway⟩ := hw.depth_of_lock_ne hmm
        refine .of_same ?_ ho (by simp [mutex_setOwner, hmm])
        rcases hshape.of_lock with ⟨-, htrails⟩ | ⟨q, path, tr, rest, -, rfl, -, -⟩
        · exact stands_of_trails htrails hdepth haway
        · exact stands_of_plain (by simp [awake]) hdepth haway
  | queueUp => exact .of_same (hw.of_awake rfl) ho (by rw [enqueue, owner_setWaiters])
  | @unlock m' o owned =>
      obtain ⟨hdepth, haway⟩ := hw.of_plain (by simp) (by simp)
      rcases hshape.of_unlock with ⟨-, htrails⟩ | ⟨q, path, r, rest, hq, rfl, rfl, -⟩
      · by_cases hmm : m' = m
        · subst hmm
          obtain ⟨rfl, hnone⟩ := inside_of_unlock hdepth haway
          exact .of_free (stands_of_trails htrails hnone (by simp)) (by simp) (ho.2 rfl)
            (owner_free m')
        · rw [gives, List.count_cons_of_ne hmm] at hdepth
          exact .of_same (stands_of_trails htrails hdepth haway) ho (by rw [free_mutex_ne hmm])
      · have hmm := henc.isPublic q hq
        rw [gives, List.count_cons_of_ne hmm] at hdepth
        exact .of_same (stands_of_plain (by simp [awake]) hdepth haway) ho
          (by rw [free_mutex_ne hmm])
  | @unlockFree m' free =>
      obtain ⟨hdepth, haway⟩ := hw.of_plain (by simp) (by simp)
      have hmm : m' ≠ m := by
        intro hmm
        subst hmm
        obtain ⟨rfl, -⟩ := inside_of_unlock hdepth haway
        rw [ho.2 rfl] at free
        cases free
      rw [gives, List.count_cons_of_ne hmm] at hdepth
      rcases hshape.of_unlock with ⟨-, htrails⟩ | ⟨q, path, r, rest, -, -, rfl, -⟩
      · exact .of_same (stands_of_trails htrails hdepth haway) ho rfl
      · exact .of_same (stands_of_plain (by simp [awake]) hdepth haway) ho rfl
  | closeGuard =>
      obtain ⟨hdepth, haway⟩ := hw.of_plain (by simp) (by simp)
      exact .of_same (stands_of_plain (by simp [awake]) hdepth haway) ho rfl
  | seize h =>
      obtain ⟨hdepth, haway⟩ := hw.of_plain (by simp) (by simp)
      refine .of_same (stands_of_trails hshape.trails_of_seize hdepth haway) ho ?_
      rw [h.mutex_eq (by rintro e rfl; simp [Effect.Spares])]
  | pass => exact .of_same (hw.of_awake hshape.awake_behind) ho rfl
  | report =>
      obtain ⟨hdepth, haway⟩ := hw.of_plain (by simp) (by simp)
      exact .of_same (stands_of_trails hshape.trails_of_report hdepth haway) ho rfl
  | @wait q path tr side =>
      obtain ⟨hdepth, haway⟩ := hw.of_plain (by simp) (by simp)
      have hmm := henc.isPublic q hshape.of_transact.1.lt
      have hstands : Stands m w (.lock (S.mutex q) :: .transact q path tr :: code) :=
        stands_of_lock_ne hmm hdepth haway
      exact .of_same (hstands.of_awake rfl) ho (by rw [leave_mutex_ne hmm])
  | @transact q path tr M' r htr =>
      obtain ⟨hdepth, haway⟩ := hw.of_plain (by simp) (by simp)
      have hq := hshape.of_transact.1.lt
      have hmm := henc.isPublic q hq
      refine .of_same (stands_of_plain (by simp [awake]) ?_ haway) ho ?_
      · show (S.mutex q :: gives code).count m = _
        rw [List.count_cons_of_ne hmm]
        exact hdepth
      · rw [(htr.changes (t := t) hfits hq).mutex_eq fun _ => spares_of_isServing]

/-- A tick keeps that every thread stands as the owner of the mutex says. -/
theorem stands_of_move (henc : S.Encloses m) (hs : S.Sound M)
    (h : ∀ u, ∃ w, Stands m w (M.thread u).code ∧ ((M.mutex m).owner = some u ↔ w = .inside))
    (hmove : S.Move M M') (u : ThreadId) :
    ∃ w, Stands m w (M'.thread u).code ∧ ((M'.mutex m).owner = some u ↔ w = .inside) := by
  cases hmove with
  | still | finish => exact h u
  | @next t others i op pending hready hcode hpending =>
      obtain ⟨w, hw, ho⟩ := h u
      rw [thread_setThread]
      split
      · rename_i htu
        subst htu
        rw [hcode] at hw
        have hdepth : 0 = w.depth := hw.depth
        have haway : false = decide (w = .away) := hw.away
        refine ⟨w, stands_of_plain (by simp [awake]) hdepth ?_, ho⟩
        simpa using haway.symm
      · exact ⟨w, hw, ho⟩
  | @goOn t others i code N more hready hcode hdeed =>
      obtain ⟨w, hw, ho⟩ := h t
      rw [hcode] at hw
      have hpasses : Passes m t M N (more ++ code) := by
        cases hdeed with
        | start hop hdoes => exact passes_of_does henc hs.fits hop hdoes hw ho
        | stroke hi hstroke =>
            exact passes_of_stroke henc hs.fits (hcode ▸ (hs.shaped t).code) hi hstroke hw ho
      exact hpasses.setCode (hdeed.code hs hcode) h u
  | park hready hcode hstroke =>
      have hhalts := hstroke.halts hready hcode
      rw [hhalts.thread, hhalts.mutex]
      exact h u
  | @unwind t others path op code N message hready hcode hop hdoes =>
      obtain ⟨w, hw, ho⟩ := h t
      rw [hcode] at hw
      have hpasses : Passes m t M N
          (cleanup code ++ [.report [(M.thread t).top] (.panicked message)]) :=
        passes_of_unwind henc hs.fits hop hdoes hw ho
      exact hpasses.setCode ((Deed.start hop hdoes).code hs hcode) h u

end Setting

/-- Whether a thread has come to the end of an operation of its list, up to the report. -/
def Machine.HasEnded (M : Machine α) (t : ThreadId) : Prop :=
  (M.thread t).code = [] ∨ ∃ i r code, (M.thread t).code = .report [i] r :: code

namespace Scenario

open Machine

variable {s : Scenario} {k : Nat} {past : List (Entry Json)} {M : Machine Json}

/-- Whether mutexes are used only through bodies around which they are held, through waits, and by
asking about them. -/
def enclosesMutexes (s : Scenario) : Bool :=
  s.allOps fun
    | .onObject name verb =>
      match s.start.1.object? name with
      | some (.mutex _) => !verb.movesLock
      | _ => true
    | _ => true

theorem encloses_of_enclosesMutexes (h : s.enclosesMutexes = true) {name : String}
    (hm : s.start.1.object? name = some (.mutex m)) : s.setting.Encloses m := by
  refine ⟨s.start_new.apart.mutex_ne name _ m hm rfl, ?_, ?_⟩
  · intro name' o ho hom
    obtain rfl := s.start_singled name name' _ o m hm ho rfl hom
    exact (Option.some.inj (hm.symm.trans ho)).symm
  · intro step path name' verb hop ho
    have hverb := of_allOps h hop
    have ho' : s.start.1.object? name' = some (.mutex m) := ho
    simpa [ho'] using hverb

/-- Every thread stands to a mutex as its owner says. -/
theorem Reaches.stands (h : s.Reaches k past M) (henc : s.setting.Encloses m) (u : ThreadId) :
    ∃ w, Stands m w (M.thread u).code ∧ ((M.mutex m).owner = some u ↔ w = .inside) := by
  have hnil : Stands m .outside ([] : List (Instr Json)) :=
    stands_of_plain (by simp [awake]) rfl (by simp)
  induction h generalizing u with
  | start =>
      refine ⟨.outside, ?_, ?_⟩
      · rw [(s.start_new.fresh.idle u).1]
        exact hnil
      · simp [s.start_new.fresh.owner m]
  | tick h ih => exact Setting.stands_of_move henc h.sound ih h.sound.move u
  | @order k past M name order t h still hstep ht idle ih =>
      obtain ⟨w, hw, ho⟩ := ih u
      cases order.ops? with
      | none =>
          refine ⟨w, ?_, ho⟩
          show Stands m w ((M.exit t).thread u).code
          rw [thread_exit]
          split
          · subst u
            exact hw
          · exact hw
      | some ops =>
          refine ⟨w, ?_, ho⟩
          show Stands m w ((M.give t k ops).thread u).code
          rw [thread_give]
          split
          · subst u
            rw [(isIdle_of_status idle).1] at hw
            exact hw
          · exact hw
  | refuse _ _ _ _ ih => exact ih u

/-- At the end of an operation of its list a thread is inside no body. -/
theorem not_isInside_of_hasEnded (h : s.Reaches k past M) {t : ThreadId} (hend : M.HasEnded t) :
    M.isInside m t = false := by
  unfold isInside
  rcases hend with hnil | ⟨i, r, code, hcode⟩
  · simp [hnil, bodies, awake, gives]
  · obtain rfl := h.eq_nil_of_report hcode
    simp [hcode, bodies, awake, gives]

/-- At the end of an operation of its list a thread is in no transaction. -/
theorem owner_ne_of_hasEnded (h : s.Reaches k past M) {t : ThreadId} (hend : M.HasEnded t)
    {q : QueueId} (hq : q < s.setting.queues) :
    (M.mutex (s.setting.mutex q)).owner ≠ some t := by
  rw [h.sound.guarded.owner q hq]
  intro hholder
  obtain ⟨t', ht', hholding⟩ := Option.bind_eq_some_iff.1 hholder
  have hinside : ((M.thread t').code.head?.any (s.setting.IsInside q)) = true ∧ t' = t := by
    unfold Setting.holding at hholding
    split at hholding
    · rename_i hin
      exact ⟨hin, Option.some.inj hholding⟩
    · cases hholding
  obtain ⟨hin, rfl⟩ := hinside
  rcases hend with hnil | ⟨i, r, code, hcode⟩
  · simp [hnil] at hin
  · simp [hcode, Setting.IsInside] at hin

/-- **A mutex that is used only through bodies and waits is owned exactly by the task that is
inside one of its bodies**, and not in a wait that gave the mutex up.  So no two tasks are inside
at once, and at the end of an operation of its list, be it by a panic, a task owns no mutex. -/
theorem owner_iff_isInside (enclosed : s.enclosesMutexes = true) (h : s.Reaches k past M) :
    (∀ name m, s.start.1.object? name = some (.mutex m) →
      (∀ t, (M.mutex m).owner = some t ↔ M.isInside m t = true) ∧
        (∀ t u, M.isInside m t = true → M.isInside m u = true → t = u) ∧
        ∀ t, M.HasEnded t → (M.mutex m).owner ≠ some t) ∧
      ∀ q < M.queues.size, ∀ t, M.HasEnded t → (M.mutex (M.queue q).mutex).owner ≠ some t := by
  constructor
  · intro name m hm
    have henc := encloses_of_enclosesMutexes enclosed hm
    have howner : ∀ t, (M.mutex m).owner = some t ↔ M.isInside m t = true := by
      intro t
      obtain ⟨w, hw, ho⟩ := h.stands henc t
      exact ho.trans hw.isInside.symm
    refine ⟨howner, ?_, ?_⟩
    · intro t u ht hu
      exact Option.some.inj (((howner t).2 ht).symm.trans ((howner u).2 hu))
    · intro t hend ho
      have hin := (howner t).1 ho
      rw [not_isInside_of_hasEnded h hend] at hin
      cases hin
  · intro q hq t hend
    have hq' : q < s.setting.queues := by rwa [← h.sound.fits.queues]
    rw [h.sound.fits.mutex q hq']
    exact owner_ne_of_hasEnded h hend hq'

/-- A task waits for a value inside the body of a mutex, and another for that mutex. -/
def sheltered : Scenario where
  tasks := ["a", "b"]
  objects := [("m", .mutex {}), ("q", .queue .unbounded)]
  steps := [("a", .run [.synchronize "m" [.onObject "q" .pop]]),
    ("b", .run [.guard "m" [.panic "late"]])]

theorem owner_iff_isInside_sheltered : (sheltered.after 2).isInside 0 0 = true ∧
    (sheltered.after 2).isInside 0 1 = false ∧
    ((sheltered.after 2).mutex 0).owner = some 0 := by
  obtain ⟨past, h⟩ := sheltered.reaches_after (k := 2) (by decide) (by decide)
  have hinside : (sheltered.after 2).isInside 0 0 = true := by decide
  exact ⟨hinside, by decide, (((owner_iff_isInside (by decide) h).1 "m" 0 rfl).1 0).2 hinside⟩

end Scenario

end BlockingSync
