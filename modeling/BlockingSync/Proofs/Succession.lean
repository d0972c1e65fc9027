/-
In which order a mutex passes from hand to hand.

A release hands a mutex to nobody: it wakes the first waiter that can be resumed, and that
one still has to take the mutex like anybody else.  When only those contend for it who
wait for it already, the mutex nevertheless goes to all of them in the order in which they
came, for whoever is woken finds it free, and nobody is woken before that one has given it
back.  Those who have terminated while they waited are passed over.

`Succession` says what holds between two ticks of such a step: the dealings that the
mutex is due, by the one whose turn it is, and who is still in line.
-/
import BlockingSync.Proofs.Admission
import BlockingSync.Proofs.Avoidance
import BlockingSync.Proofs.Ledger
import BlockingSync.Proofs.Precedence

namespace BlockingSync

variable {α : Type}

/-- A turn of a task with a lock. -/
def Dealing.turn (t : ThreadId) : List Dealing :=
  [.takes t, .gives t]

namespace Machine

variable {M M' : Machine α} {t u : ThreadId} {name : String} {m : MutexId}
  {others : List ThreadId} {code : List (Instr α)} {ts line : List ThreadId}

/-! ### Giving the mutex back -/

/-- Whether a thread with this code and these operations to come will give a mutex back once, and
has nothing else to do with it. -/
inductive Owes (name : String) (m : MutexId) : List (Instr α) → List (Nat × Op α) → Prop
  /-- At the end of a body. -/
  | closes {body last behind pending} (hbody : ∀ i ∈ body, i.Avoids name m)
      (hlast : last = .unlock m ∨ ∃ path, last = .closeGuard m path)
      (hbehind : ∀ i ∈ behind, i.Avoids name m)
      (hpending : ∀ entry ∈ pending, entry.2.avoids name = true) :
      Owes name m (body ++ last :: behind) pending
  /-- In the operation that it begins next. -/
  | gives {path verb behind pending} (hverb : verb.isGiving = true)
      (hbehind : ∀ i ∈ behind, i.Avoids name m)
      (hpending : ∀ entry ∈ pending, entry.2.avoids name = true) :
      Owes name m (.start path (.onObject name verb) :: behind) pending
  /-- In a later operation of its list. -/
  | later {code before i verb behind} (hverb : verb.isGiving = true)
      (hcode : ∀ i ∈ code, i.Avoids name m)
      (hbefore : ∀ entry ∈ before, entry.2.avoids name = true)
      (hbehind : ∀ entry ∈ behind, entry.2.avoids name = true) :
      Owes name m code (before ++ (i, .onObject name verb) :: behind)

theorem Owes.busy {pending : List (Nat × Op α)} (h : Owes name m code pending) :
    ¬ (code = [] ∧ pending = []) := by
  cases h <;> simp

/-- What the release of a mutex comes to. -/
structure Vacates (m : MutexId) (M M' : Machine α) : Prop where
  owner : (M'.mutex m).owner = none
  waiters : (M'.waiters (.mutex m)).toList = M.afterFirst (M.waiters (.mutex m)).toList
  isResumable : M'.isResumable = M.isResumable
  log : M'.log = M.log ++ M.skips (.mutex m)

theorem vacates_wakeOne {N : Machine α} (free : (N.mutex m).owner = none)
    (hwaiters : N.waiters (.mutex m) = M.waiters (.mutex m))
    (hlive : N.isResumable = M.isResumable) (hlog : N.log = M.log) :
    Vacates m M (N.wakeOne (.mutex m)).1 := by
  have hwakes := wakeOne_awakens N (.mutex m)
  refine ⟨(hwakes.owner m).trans free, ?_, ?_, ?_⟩
  · rw [hwakes.waiters, hwaiters, afterFirst, afterFirst, hlive]
  · rw [(wakeOne_wakes 0 N (.mutex m)).isResumable, hlive]
  · rw [hwakes.log, hlog, skips, skips, hwaiters, hlive]

theorem vacates_free : Vacates m M (M.free m) :=
  vacates_wakeOne (by simp [mutex_setOwner]) (waiters_setOwner ..) rfl rfl

theorem vacates_leave (c : ConditionId) (t : ThreadId) : Vacates m M (M.leave c m t) := by
  refine vacates_wakeOne ?_ ?_ ?_ ?_
  · simp [enqueue, owner_setWaiters, mutex_setOwner]
  · rw [enqueue, waiters_setWaiters, if_neg (by simp), waiters_setOwner]
  · funext u
    simp [enqueue]
    rfl
  · simp [enqueue]
    rfl

theorem Vacates.setCode (h : Vacates m M M') (t : ThreadId) (code : List (Instr α)) :
    Vacates m M (M'.setCode t code) :=
  ⟨h.owner, h.waiters, h.isResumable, h.log⟩

/-- **Whatever operation gives back a mutex that is held, it frees the mutex**, and its thread goes
on with its answer, or its panic is unwound. -/
theorem tick_giving {verb : Verb α} {path : Path} (hready : M.ready = t :: others)
    (hcode : (M.thread t).code = .start path (.onObject name verb) :: code)
    (hname : M.object? name = some (.mutex m)) (hverb : verb.isGiving = true) {o : HandleId}
    (owned : (M.mutex m).owner = some o) :
    (∃ r, M.tick = (M.free m).setCode t (.report path r :: code)) ∨
      ∃ message, M.tick = (M.free m).setCode t
        (cleanup code ++ [.report [(M.thread t).top] (.panicked message)]) := by
  have hperform : ∃ result r, M.execute t (.start path (.onObject name verb)) =
      (M.free m, yieldRelease path result r) := by
    simp only [execute, perform, hname, performObject]
    cases verb with
    | unlock | exclusiveUnlock | release | exclusiveRelease =>
        simp only [performMutex, performLockable, exclusiveRelease, Machine.unlock,
          releaseWith_of_owned owned]
        exact ⟨_, _, rfl⟩
    | _ => cases hverb
  obtain ⟨result, r, he⟩ := hperform
  rcases yieldRelease_cases path result r with ⟨b, h⟩ | ⟨message, h⟩ <;> rw [h] at he
  · exact .inl ⟨_, tick_of_goOn hready hcode he⟩
  · refine .inr ⟨message, ?_⟩
    simp only [tick, hready, hcode, he]

/-- A mutex that is held is free at the end of a body. -/
theorem tick_unlock_of_owned (hready : M.ready = t :: others)
    (hcode : (M.thread t).code = .unlock m :: code) {o : HandleId}
    (owned : (M.mutex m).owner = some o) : M.tick = (M.free m).setCode t code := by
  refine tick_of_done hready hcode ?_
  simp only [execute, Machine.unlock, releaseWith_of_owned owned]

end Machine

namespace Setting

open Machine

variable {S : Setting α} {M M' : Machine α} {t u : ThreadId} {name : String} {m : MutexId}
  {others : List ThreadId} {code : List (Instr α)}

/-- **Whoever owes the mutex goes on owing it, or gives it back.** -/
theorem Sound.tick_owing (h : S.Sound M) (hk : S.KnownAs name m)
    (hname : M.object? name = some (.mutex m)) (hready : M.ready = t :: others)
    (owned : (M.mutex m).owner = some t)
    (howes : Owes name m (M.thread t).code (M.thread t).pending) :
    (M.tick.mutex m = M.mutex m ∧ Owes name m (M.tick.thread t).code (M.tick.thread t).pending) ∨
      (Vacates m M M.tick ∧ (M.tick.thread t).Avoids name m) := by
  generalize hcode : (M.thread t).code = code at howes
  generalize hpending : (M.thread t).pending = pending at howes
  have hself : ∀ (N : Machine α) code', ((N.setCode t code').thread t).code = code' := by
    intro N code'
    rw [thread_setCode, if_pos rfl]
  cases howes with
  | @closes body last behind _ hbody hlast hbehind hafter =>
      cases body with
      | nil =>
          rcases hlast with rfl | ⟨path, rfl⟩
          · right
            have htick := tick_unlock_of_owned hready hcode owned
            refine ⟨htick ▸ vacates_free.setCode t _, ?_, ?_⟩
            · rw [htick, hself]
              exact hbehind
            · rw [htick, thread_setCode, if_pos rfl,
                thread_congr (free_changes t M m).threads, hpending]
              exact hafter
          · left
            have htick := tick_of_goOn hready hcode rfl
            refine ⟨by rw [htick]; rfl, ?_⟩
            rw [htick, hself, thread_setCode, if_pos rfl, hpending]
            have hnone : ∀ i ∈ ([] : List (Instr α)), i.Avoids name m := by simp
            exact .closes hnone (.inl rfl) (List.forall_mem_cons.2 ⟨trivial, hbehind⟩) hafter
      | cons i body =>
          left
          rw [List.cons_append] at hcode
          obtain ⟨hi, hbody'⟩ := List.forall_mem_cons.1 hbody
          obtain ⟨hsame, hpending', hon⟩ := h.tick_avoids hk hready hcode hi
          refine ⟨hsame, ?_⟩
          rw [hpending', hpending]
          generalize (M.tick.thread t).code = code' at hon
          cases hon with
          | stays => exact .closes hbody hlast hbehind hafter
          | @more more hmore =>
              rw [← List.append_assoc]
              exact .closes (List.forall_mem_append.2 ⟨hmore, hbody'⟩) hlast hbehind hafter
          | givenUp =>
              have hclean : cleanup (last :: behind) = .unlock m :: cleanup behind := by
                rcases hlast with rfl | ⟨path, rfl⟩ <;> rfl
              rw [cleanup_append, hclean, List.append_assoc, List.cons_append]
              refine .closes (avoids_cleanup hbody') (.inl rfl) ?_ hafter
              refine List.forall_mem_append.2 ⟨avoids_cleanup hbehind, ?_⟩
              simp [Instr.Avoids]
  | @gives path verb behind _ hverb hbehind hafter =>
      right
      have hpending' : ∀ code', ((M.free m).setCode t code').thread t =
          { M.thread t with code := code' } := by
        intro code'
        rw [thread_setCode, if_pos rfl, thread_congr (free_changes t M m).threads]
      rcases tick_giving hready hcode hname hverb owned with ⟨r, htick⟩ | ⟨message, htick⟩
      · refine ⟨htick ▸ vacates_free.setCode t _, ?_, ?_⟩
        · rw [htick, hself]
          exact List.forall_mem_cons.2 ⟨trivial, hbehind⟩
        · rw [htick, hpending', hpending]
          exact hafter
      · refine ⟨htick ▸ vacates_free.setCode t _, ?_, ?_⟩
        · rw [htick, hself]
          refine List.forall_mem_append.2 ⟨avoids_cleanup hbehind, ?_⟩
          simp [Instr.Avoids]
        · rw [htick, hpending', hpending]
          exact hafter
  | @later _ before j verb behind hverb hall hbefore hbehind =>
      left
      cases code with
      | cons i code =>
          obtain ⟨hsame, hpending', hon⟩ := h.tick_avoids hk hready hcode (hall i (by simp))
          refine ⟨hsame, ?_⟩
          rw [hpending', hpending]
          exact .later hverb (hon.avoids hall) hbefore hbehind
      | nil =>
          cases before with
          | nil =>
              have htick := tick_next hready hcode hpending
              refine ⟨by rw [htick]; rfl, ?_⟩
              rw [htick, thread_setThread, if_pos rfl]
              exact .gives hverb (by simp) hbehind
          | cons entry before =>
              have htick := tick_next hready hcode hpending
              obtain ⟨hfirst, hbefore'⟩ := List.forall_mem_cons.1 hbefore
              refine ⟨by rw [htick]; rfl, ?_⟩
              rw [htick, thread_setThread, if_pos rfl]
              exact .later hverb (List.forall_mem_singleton.2 hfirst) hbefore' hbehind

end Setting

/-! ### Between two ticks -/

namespace Machine

variable {M M' : Machine α} {t u : ThreadId} {name : String} {m : MutexId}
  {others : List ThreadId} {ts line : List ThreadId} {due due' : List Dealing}

/-- Who takes a mutex in the next tick, and who gives it back. -/
def turnover (M : Machine α) (m : MutexId) : List Dealing :=
  match (M.mutex m).owner, (M.tick.mutex m).owner with
  | none, none => []
  | none, some u => [.takes u]
  | some t, none => [.gives t]
  | some t, some u => if t = u then [] else [.gives t, .takes u]

/-- The same for so many ticks. -/
def turnovers (m : MutexId) : Nat → Machine α → List Dealing
  | 0, _ => []
  | n + 1, M => M.turnover m ++ turnovers m n M.tick

/-- Whether a mutex has its name, only some tasks do anything to it, and whoever of them has it does
not stop in the next tick, where it could. -/
structure Undisputed (name : String) (m : MutexId) (ts : List ThreadId) (M : Machine α) : Prop where
  named : M.object? name = some (.mutex m)
  others : ∀ t ∈ M.ready.head?, t ∉ ts → (M.tick.mutex m).owner = (M.mutex m).owner ∧
    (M.tick.waiters (.mutex m)).toList = (M.waiters (.mutex m)).toList
  keeps : ∀ t ∈ M.ready.head?, t ∈ ts → (M.mutex m).owner = some t → M.stop? t ≠ none →
    M.tick.ready.head? = some t

/-- Whether a thread waits for a mutex and will give it back once it has it. -/
def Queues (name : String) (m : MutexId) (t : ThreadId) (M : Machine α) : Prop :=
  ∃ rest, (M.thread t).code = .suspend t (some (.mutex m)) :: .lock m :: rest ∧
    Owes name m rest (M.thread t).pending

/-- What is due at a mutex before anybody else is woken for it. -/
inductive Due (name : String) (m : MutexId) (M : Machine α) : List Dealing → Prop
  | idle (free : (M.mutex m).owner = none) : Due name m M []
  | woken {t : ThreadId} (free : (M.mutex m).owner = none) (hqueues : M.Queues name m t)
      (hn : (M.handle t).notified = true) : Due name m M (Dealing.turn t)
  /-- Whoever was woken is about to take the mutex. -/
  | asking {t : ThreadId} {rest} (free : (M.mutex m).owner = none) (hruns : M.ready.head? = some t)
      (hcode : (M.thread t).code = .lock m :: rest)
      (howes : Owes name m rest (M.thread t).pending) : Due name m M (Dealing.turn t)
  | keeping {t : ThreadId} (owned : (M.mutex m).owner = some t) (hruns : M.ready.head? = some t)
      (howes : Owes name m (M.thread t).code (M.thread t).pending) : Due name m M [.gives t]

/-- What holds between two ticks while a mutex passes through the hands of some tasks: what is
`due`, and who is in the `line` behind. -/
structure Succession (name : String) (m : MutexId) (ts : List ThreadId) (due : List Dealing)
    (line : List ThreadId) (M : Machine α) : Prop where
  stage : M.Due name m due
  waiters : (M.waiters (.mutex m)).toList = line
  queues : ∀ t ∈ line, M.Queues name m t
  mem : ∀ t, t ∈ line ∨ .gives t ∈ due → t ∈ ts
  apart : ∀ t ∈ line, .gives t ∉ due
  /-- The others have had their turn, or will never have it. -/
  others : ∀ t ∈ ts, t ∉ line → .gives t ∉ due →
    (M.thread t).Avoids name m ∨ M.Forsaken m t
  /-- Nobody waits for a mutex of which nothing is due. -/
  rest : due = [] → line = []

/-- What the next tick comes to for those in the line, if it frees the mutex: some are passed over,
and the `first` of the others, if there is one, is woken. -/
structure Dismisses (name : String) (m : MutexId) (ts dead : List ThreadId)
    (first : Option ThreadId) (rest : List ThreadId) (M : Machine α) : Prop where
  gone : ∀ u ∈ dead, M.isResumable u = false ∧ M.tick.Forsaken m u ∧
    M.tick.skipsOf u = M.skipsOf u + 1
  live : ∀ u ∈ first, M.isResumable u = true
  spared : ∀ u ∈ rest, M.tick.skipsOf u = M.skipsOf u
  next : M.tick.Succession name m ts (first.toList.flatMap Dealing.turn) rest

/-- What the next tick makes of a succession. -/
inductive MovesOn (name : String) (m : MutexId) (ts : List ThreadId) (due : List Dealing)
    (line : List ThreadId) (M : Machine α) : Prop
  /-- Part of what is due comes true. -/
  | goesOn {due' : List Dealing} (hdue : due = M.turnover m ++ due')
      (next : M.tick.Succession name m ts due' line)
      (spared : ∀ u ∈ line, M.tick.skipsOf u = M.skipsOf u) : MovesOn name m ts due line M
  /-- The mutex is given back, and the next one is due. -/
  | givesBack {dead : List ThreadId} {first : Option ThreadId} {rest : List ThreadId}
      (hdue : due = M.turnover m) (hline : line = dead ++ (first.toList ++ rest))
      (h : M.Dismisses name m ts dead first rest) : MovesOn name m ts due line M

theorem turnover_of_same (h : (M.tick.mutex m).owner = (M.mutex m).owner) :
    M.turnover m = [] := by
  unfold turnover
  rw [h]
  cases (M.mutex m).owner <;> simp

theorem Queues.place (h : M.Queues name m t) : M.place? t = some (.mutex m) := by
  obtain ⟨rest, hcode, -⟩ := h
  exact place?_of_code hcode

theorem Queues.congr (h : M.Queues name m t) (hsame : M'.thread t = M.thread t) :
    M'.Queues name m t := by
  unfold Queues
  rw [hsame]
  exact h

/-- Nobody in the line was woken. -/
theorem Succession.unwoken (hs : M.Succession name m ts due line) (hb : M.Balanced t)
    (ht : t ∈ line) : (M.handle t).notified = false :=
  (hb.of_mem (hs.waiters.symm ▸ ht)).2.1

theorem skipsOf_of_log {l : List HandleId} (h : M'.log = M.log ++ l.map .skipped) (u : HandleId) :
    M'.skipsOf u = M.skipsOf u + l.count u := by
  rw [skipsOf, h, List.countP_append, List.countP_map, List.count]
  rfl

end Machine

namespace Scenario

open Machine Setting

variable {s : Scenario} {k : Nat} {past : List (Entry Json)} {M : Machine Json} {name : String}
  {m : MutexId} {t u : ThreadId} {others ts line : List ThreadId} {due due' : List Dealing}

theorem Reaches.carries (spares : s.sparesTokens = true) (h : s.Reaches k past M)
    (hready : M.ready = t :: others) : M.Carries t M.tick :=
  Turn.carries (sparesTokens_setting spares) h.sound hready h.sound.turn

/-- Whoever waits for a mutex and was not woken keeps waiting. -/
theorem Reaches.asleep (spares : s.sparesTokens = true) (h : s.Reaches k past M)
    (hready : M.ready = t :: others) (hplace : M.place? u = some (.mutex m))
    (hn : (M.handle u).notified = false) :
    M.tick.thread u = M.thread u ∧ Tolls u (.mutex m) M M.tick := by
  obtain ⟨-, helsewhere, -, -⟩ := (h.balanced spares u).waiting _ hplace hn
  by_cases hut : u = t
  · subst hut
    have hhalts := h.sound.halts_of_unnotified hready hplace hn
    exact ⟨hhalts.thread u, .congr helsewhere (congrArg (List.countP _) hhalts.log) hhalts.waiters⟩
  · have hc := h.carries spares hready
    exact ⟨hc.thread u hut, h.sound.tolls hready hut helsewhere⟩

/-- Whoever has had its turn, or will never have it, stays so. -/
theorem Reaches.past_turn (spares : s.sparesTokens = true) (h : s.Reaches k past M)
    (hk : s.setting.KnownAs name m) (hready : M.ready = t :: others)
    (hu : (M.thread u).Avoids name m ∨ M.Forsaken m u) :
    (M.tick.thread u).Avoids name m ∨ M.tick.Forsaken m u := by
  have hc := h.carries spares hready
  rcases hu with hu | hu
  · left
    by_cases hut : u = t
    · subst hut
      exact (h.sound.tick_avoiding hk hready hu).2
    · rw [hc.thread u hut]
      exact hu
  · exact .inr (hu.tick h.sound (h.balanced spares u) hready hc (h.sound.touch hready m))

/-- Once a mutex was given back, the first of those who can be resumed has its turn. -/
theorem Reaches.succession_of_freed (spares : s.sparesTokens = true) (h : s.Reaches k past M)
    {kept : List ThreadId} (free : (M.mutex m).owner = none)
    (hwaiters : (M.waiters (.mutex m)).toList = kept.tail) (hnodup : kept.Nodup)
    (hlive : ∀ u ∈ kept.head?, M.isResumable u = true) (hqueues : ∀ u ∈ kept, M.Queues name m u)
    (hmem : ∀ u ∈ kept, u ∈ ts)
    (hothers : ∀ u ∈ ts, u ∉ kept → (M.thread u).Avoids name m ∨ M.Forsaken m u) :
    M.Succession name m ts (kept.head?.toList.flatMap Dealing.turn) kept.tail := by
  cases kept with
  | nil => exact ⟨.idle free, hwaiters, by simp, by simp, by simp,
      fun u hu _ _ => hothers u hu (by simp), fun _ => rfl⟩
  | cons v kept =>
      rw [List.nodup_cons] at hnodup
      have hv := hqueues v (by simp)
      have hn : (M.handle v).notified = true := by
        refine (h.balanced spares v).notified_of_absent hv.place (hlive v rfl) ?_
        rw [hwaiters]
        exact hnodup.1
      refine ⟨.woken free hv hn, hwaiters, ?_, ?_, ?_, ?_, ?_⟩
      · exact fun u hu => hqueues u (List.mem_cons_of_mem _ hu)
      · rintro u (hu | hu)
        · exact hmem u (List.mem_cons_of_mem _ hu)
        · obtain rfl : u = v := by simpa [Dealing.turn] using hu
          exact hmem u (by simp)
      · intro u hu hc
        obtain rfl : u = v := by simpa [Dealing.turn] using hc
        exact hnodup.1 hu
      · intro u hu hnot hne
        have hne' : u ≠ v := fun hc => hne (by simp [Dealing.turn, hc])
        exact hothers u hu (List.not_mem_cons_of_ne_of_not_mem hne' hnot)
      · simp [Dealing.turn]

/-- **A release passes over those who have terminated and wakes the first of the others.** -/
theorem Reaches.dismisses (spares : s.sparesTokens = true) (h : s.Reaches k past M)
    (hready : M.ready = t :: others)
    (hvacates : Vacates m M M.tick) (hline : (M.waiters (.mutex m)).toList = line)
    (hqueues : ∀ u ∈ line, M.Queues name m u) (hmem : ∀ u ∈ line, u ∈ ts)
    (hothers : ∀ u ∈ ts, u ∉ line → (M.tick.thread u).Avoids name m ∨ M.tick.Forsaken m u) :
    ∃ dead first rest, line = dead ++ (first.toList ++ rest) ∧
      M.Dismisses name m ts dead first rest := by
  have hb := h.balanced spares
  have hc := h.carries spares hready
  have hnodup : line.Nodup := hline ▸ h.nodup_waiters spares (.mutex m)
  have hunnotified : ∀ u ∈ line, (M.handle u).notified = false := fun u hu =>
    ((hb u).of_mem (hline ▸ hu)).2.1
  have hsame : ∀ u ∈ line, M.tick.thread u = M.thread u := fun u hu =>
    (h.asleep spares hready (hqueues u hu).place (hunnotified u hu)).1
  have hplace' : ∀ u ∈ line, M.tick.place? u = some (.mutex m) := fun u hu =>
    ((hqueues u hu).congr (hsame u hu)).place
  generalize hdead : line.takeWhile (!M.isResumable ·) = dead
  generalize hkept : line.dropWhile (!M.isResumable ·) = kept
  have hsplit : line = dead ++ kept := by
    rw [← hdead, ← hkept, List.takeWhile_append_dropWhile]
  have hwaiters : (M.tick.waiters (.mutex m)).toList = kept.tail := by
    rw [hvacates.waiters, hline, ← hkept, afterFirst]
  have hskips : ∀ u, M.tick.skipsOf u = M.skipsOf u + dead.count u := by
    refine skipsOf_of_log ?_
    rw [hvacates.log, skips, hline, hdead]
  have hlive : ∀ v ∈ kept.head?, M.isResumable v = true := by
    intro v hv
    have hfirst := List.head?_dropWhile_not (!M.isResumable ·) line
    rw [hkept, hv] at hfirst
    simpa using hfirst
  have hgone : ∀ u ∈ dead, M.isResumable u = false := by
    intro u hu
    have hall := List.all_eq_true.1 List.all_takeWhile u (hdead ▸ hu)
    simpa using hall
  rw [hsplit, List.nodup_append] at hnodup
  obtain ⟨hnodupDead, hnodupKept, hdisjoint⟩ := hnodup
  have hforsaken : ∀ u ∈ dead, M.tick.Forsaken m u := by
    intro u hu
    have hmem' : u ∈ line := hsplit ▸ List.mem_append_left _ hu
    refine ⟨hplace' u hmem', hc.unnotified u (hgone u hu) (hunnotified u hmem'), ?_⟩
    rw [hwaiters]
    exact fun hc => hdisjoint u hu u (List.mem_of_mem_tail hc) rfl
  have hlater : ∀ u ∈ kept, M.tick.Queues name m u := fun u hu =>
    (hqueues u (by simp [hsplit, hu])).congr (hsame u (by simp [hsplit, hu]))
  have hout : ∀ u ∈ ts, u ∉ kept → (M.tick.thread u).Avoids name m ∨ M.tick.Forsaken m u := by
    intro u hu hnot
    by_cases hin : u ∈ dead
    · exact .inr (hforsaken u hin)
    · exact hothers u hu (by simp [hsplit, hin, hnot])
  have hfirst : kept = kept.head?.toList ++ kept.tail := by cases kept <;> rfl
  refine ⟨dead, kept.head?, kept.tail, hfirst ▸ hsplit,
    ⟨fun u hu => ⟨hgone u hu, hforsaken u hu, ?_⟩, hlive, fun u hu => ?_, ?_⟩⟩
  · rw [hskips, hnodupDead.count, if_pos hu]
  · rw [hskips, List.count_eq_zero.2 fun hc => hdisjoint u hc u (List.mem_of_mem_tail hu) rfl]
    rfl
  · refine h.tick.succession_of_freed spares hvacates.owner hwaiters hnodupKept ?_ hlater ?_ hout
    · rw [hvacates.isResumable]
      exact hlive
    · exact fun u hu => hmem u (by simp [hsplit, hu])

/-- Whoever runs out of turn leaves the mutex and its line alone. -/
theorem Reaches.out_of_turn (spares : s.sparesTokens = true) (h : s.Reaches k past M)
    (hk : s.setting.KnownAs name m) (hu : M.Undisputed name m ts)
    (hs : M.Succession name m ts due line) (hready : M.ready = t :: others)
    (hdue : .gives t ∉ due) : (M.tick.mutex m).owner = (M.mutex m).owner ∧
      (M.tick.waiters (.mutex m)).toList = (M.waiters (.mutex m)).toList := by
  have of_mutex : M.tick.mutex m = M.mutex m → (M.tick.mutex m).owner = (M.mutex m).owner ∧
      (M.tick.waiters (.mutex m)).toList = (M.waiters (.mutex m)).toList := fun hsame =>
    ⟨by rw [hsame], congrArg (fun s : Mutex => s.waiting.toList) hsame⟩
  by_cases hts : t ∈ ts
  · by_cases hline : t ∈ line
    · have hplace := (hs.queues t hline).place
      have hn := hs.unwoken (h.balanced spares t) hline
      exact of_mutex ((h.sound.halts_of_unnotified hready hplace hn).mutex m)
    · rcases hs.others t hts hline hdue with havoids | hforsaken
      · exact of_mutex (h.sound.tick_avoiding hk hready havoids).1
      · have hhalts := h.sound.halts_of_unnotified hready hforsaken.place hforsaken.unnotified
        exact of_mutex (hhalts.mutex m)
  · exact hu.others t (by simp [hready]) hts

/-- The line stays as it is while the one goes on whose turn it is. -/
theorem Reaches.onward (spares : s.sparesTokens = true) (h : s.Reaches k past M)
    (hk : s.setting.KnownAs name m) (hs : M.Succession name m ts due line)
    (hready : M.ready = t :: others)
    (hsame : (M.tick.waiters (.mutex m)).toList = (M.waiters (.mutex m)).toList)
    (hdue : M.tick.Due name m due') (hgives : ∀ u, .gives u ∈ due' ↔ .gives u ∈ due)
    (hrest : due' = [] → due = []) :
    M.tick.Succession name m ts due' line ∧ ∀ u ∈ line, M.tick.skipsOf u = M.skipsOf u := by
  have hasleep : ∀ u ∈ line, M.tick.thread u = M.thread u ∧ Tolls u (.mutex m) M M.tick :=
    fun u hu => h.asleep spares hready (hs.queues u hu).place
      (hs.unwoken (h.balanced spares u) hu)
  refine ⟨⟨hdue, hsame.trans hs.waiters, ?_, ?_, ?_, ?_, fun hnil => hs.rest (hrest hnil)⟩, ?_⟩
  · exact fun u hu => (hs.queues u hu).congr (hasleep u hu).1
  · simpa only [hgives] using hs.mem
  · simpa only [hgives] using hs.apart
  · intro u hu hline hnot
    exact h.past_turn spares hk hready (hs.others u hu hline (by rwa [← hgives]))
  · intro u hu
    obtain ⟨-, hgrows, hbound, -⟩ := hasleep u hu
    simp only [entries, hsame] at hbound
    omega

/-- Whoever runs out of turn leaves everything as it is. -/
theorem Reaches.moves_on_out_of_turn (spares : s.sparesTokens = true) (h : s.Reaches k past M)
    (hk : s.setting.KnownAs name m) (hu : M.Undisputed name m ts)
    (hs : M.Succession name m ts due line) (hready : M.ready = t :: others)
    (hdue : .gives t ∉ due) : M.MovesOn name m ts due line := by
  have hc := h.carries spares hready
  obtain ⟨howner, hwaiters⟩ := h.out_of_turn spares hk hu hs hready hdue
  have hne : ∀ {u}, .gives u ∈ due → u ≠ t := by
    rintro u hu rfl
    exact hdue hu
  have hstage : M.tick.Due name m due := by
    cases hs.stage with
    | idle free => exact .idle (howner.trans free)
    | @woken u free hqueues hn =>
        have hut : u ≠ t := hne (by simp [Dealing.turn])
        exact .woken (howner.trans free) (hqueues.congr (hc.thread u hut)) (hc.notified u hut hn)
    | @asking u rest free hruns =>
        rw [hready] at hruns
        exact absurd (Option.some.inj hruns).symm (hne (by simp [Dealing.turn]))
    | @keeping u owned hruns =>
        rw [hready] at hruns
        exact absurd (Option.some.inj hruns).symm (hne (by simp))
  obtain ⟨hnext, hskips⟩ := h.onward spares hk hs hready hwaiters hstage (fun _ => .rfl) id
  exact .goesOn (by rw [turnover_of_same howner]; rfl) hnext hskips

/-- Whoever has the mutex keeps it, or gives it back. -/
theorem Reaches.moves_on_keeping (spares : s.sparesTokens = true) (h : s.Reaches k past M)
    (hk : s.setting.KnownAs name m) (hu : M.Undisputed name m ts)
    (hs : M.Succession name m ts [.gives t] line) (hready : M.ready = t :: others)
    (owned : (M.mutex m).owner = some t)
    (howes : Owes name m (M.thread t).code (M.thread t).pending) :
    M.MovesOn name m ts [.gives t] line := by
  have hruns : M.tick.ready.head? = some t := by
    by_cases hstop : M.stop? t = none
    · exact h.sound.tick_runs hready howes.busy hstop
    · exact hu.keeps t (by simp [hready]) (hs.mem t (.inr (by simp))) owned hstop
  rcases h.sound.tick_owing hk hu.named hready owned howes with
    ⟨hsame, howes'⟩ | ⟨hvacates, havoids⟩
  · have howner : (M.tick.mutex m).owner = some t := by rw [hsame, owned]
    have hwaiters := congrArg (fun s : Mutex => s.waiting.toList) hsame
    obtain ⟨hnext, hskips⟩ := h.onward spares hk hs hready hwaiters
      (.keeping howner hruns howes') (fun _ => .rfl) id
    exact .goesOn (by rw [turnover_of_same (howner.trans owned.symm)]; rfl) hnext hskips
  · have hturnover : M.turnover m = [.gives t] := by
      unfold turnover
      rw [owned, hvacates.owner]
    have hothers : ∀ u ∈ ts, u ∉ line →
        (M.tick.thread u).Avoids name m ∨ M.tick.Forsaken m u := by
      intro u hu hline
      by_cases hut : u = t
      · subst hut
        exact .inl havoids
      · exact h.past_turn spares hk hready (hs.others u hu hline (by simpa using hut))
    obtain ⟨dead, first, rest, hline, hdismisses⟩ := h.dismisses spares hready hvacates hs.waiters
      hs.queues (fun u hu => hs.mem u (.inl hu)) hothers
    exact .givesBack hturnover.symm hline hdismisses

/-- **One tick of a succession.** -/
theorem Reaches.moves_on (spares : s.sparesTokens = true) (h : s.Reaches k past M)
    (hk : s.setting.KnownAs name m) (hu : M.Undisputed name m ts)
    (hs : M.Succession name m ts due line) : M.MovesOn name m ts due line := by
  cases hready : M.ready with
  | nil =>
      have hsame : M.tick = M := tick_eq_self hready
      refine .goesOn ?_ (by rw [hsame]; exact hs) fun _ _ => by rw [hsame]
      rw [turnover_of_same (by rw [hsame])]
      rfl
  | cons t others =>
      by_cases hturn : .gives t ∈ due
      case neg => exact h.moves_on_out_of_turn spares hk hu hs hready hturn
      cases hs.stage with
      | idle => simp at hturn
      | @woken u free hqueues hn =>
          obtain rfl : t = u := by simpa [Dealing.turn] using hturn
          obtain ⟨rest, hcode, howes⟩ := hqueues
          have htick := tick_suspend_of_notified hready hcode hn
          have howner : (M.tick.mutex m).owner = (M.mutex m).owner := by rw [htick]; rfl
          have hasking : M.tick.Due name m (Dealing.turn t) := by
            have hcode' : (M.tick.thread t).code = .lock m :: rest := by
              rw [htick, thread_setCode, if_pos rfl]
            refine .asking (howner.trans free) ?_ hcode' ?_
            · rw [htick]
              exact congrArg List.head? hready
            · rw [htick, thread_setCode, if_pos rfl]
              exact howes
          obtain ⟨hnext, hskips⟩ := h.onward spares hk hs hready (by rw [htick]; rfl) hasking
            (fun _ => .rfl) id
          exact .goesOn (by rw [turnover_of_same howner]; rfl) hnext hskips
      | @asking u rest free hruns hcode howes =>
          obtain rfl : t = u := by simpa [Dealing.turn] using hturn
          have htick := tick_lock_of_free hready hcode free
          have howner : (M.tick.mutex m).owner = some t := by
            rw [htick]
            show ((M.setOwner m (some t)).mutex m).owner = some t
            simp [mutex_setOwner]
          have hturnover : M.turnover m = [.takes t] := by
            unfold turnover
            rw [free, howner]
          have hkeeping : M.tick.Due name m [.gives t] := by
            refine .keeping howner ?_ ?_
            · rw [htick]
              exact hruns
            · rw [htick, thread_setCode, if_pos rfl]
              exact howes
          have hwaiters : (M.tick.waiters (.mutex m)).toList = (M.waiters (.mutex m)).toList := by
            rw [htick, waiters_setCode, waiters_setOwner]
          obtain ⟨hnext, hskips⟩ := h.onward spares hk hs hready hwaiters hkeeping
            (by simp [Dealing.turn]) (by simp)
          exact .goesOn (by rw [hturnover]; rfl) hnext hskips
      | @keeping u owned hruns howes =>
          obtain rfl : t = u := by simpa using hturn
          exact h.moves_on_keeping spares hk hu hs hready owned howes

end Scenario

/-! ### To the end of the step -/

namespace Machine

variable {M : Machine α} {t a : ThreadId} {name : String} {m : MutexId} {others : List ThreadId}

/-- Whether a task is in the line of a mutex at some time from now on when it has terminated. -/
def Expires (m : MutexId) (t : ThreadId) (M : Machine α) : Prop :=
  ∃ n, t ∈ ((ticks n M).waiters (.mutex m)).toList ∧ (ticks n M).isResumable t = false

/-- How a mutex has passed through the hands of those in its line after so many ticks: what was due
came first, then each of those who were `served` had its turn, and the others were passed over. -/
structure PassesOn (m : MutexId) (line : List ThreadId) (due : List Dealing) (n : Nat)
    (served : List ThreadId) (M : Machine α) : Prop where
  inOrder : served.Sublist line
  turns : turnovers m n M = due ++ served.flatMap Dealing.turn
  served : ∀ t ∈ line, t ∈ served ↔ ¬ M.Expires m t
  unwoken : ∀ t ∈ line, M.Expires m t → ∀ i, ((ticks i M).handle t).notified = false
  skipped : ∀ t ∈ line, M.Expires m t → (ticks n M).skipsOf t = M.skipsOf t + 1
  free : ((ticks n M).mutex m).owner = none
  nobody : ((ticks n M).waiters (.mutex m)).toList = []

theorem expires_of_tick (h : M.tick.Expires m t) : M.Expires m t := by
  obtain ⟨n, hmem, hdead⟩ := h
  exact ⟨n + 1, hmem, hdead⟩

/-- Whoever stays in the line expires in the next tick at the earliest. -/
theorem expires_tick (hmem : t ∈ (M.tick.waiters (.mutex m)).toList) :
    M.tick.Expires m t ↔ M.Expires m t := by
  refine ⟨expires_of_tick, ?_⟩
  rintro ⟨n, hn, hdead⟩
  cases n with
  | succ n => exact ⟨n, hn, hdead⟩
  | zero =>
      refine ⟨0, hmem, ?_⟩
      have hterm : (M.handle t).terminated = true := by
        simpa [isResumable, ticks] using hdead
      show (!(M.tick.handle t).terminated) = false
      rw [terminated_tick hterm]
      rfl

end Machine

namespace Scenario

open Machine Setting

variable {s : Scenario} {k : Nat} {past : List (Entry Json)} {M : Machine Json} {name : String}
  {m : MutexId} {t u a : ThreadId} {others ts line : List ThreadId} {due : List Dealing}

/-- Whoever is forsaken stays so, and no more lines are written about it. -/
theorem Reaches.forsaken_ticks (spares : s.sparesTokens = true) (h : s.Reaches k past M)
    (hf : M.Forsaken m u) (n : Nat) :
    (Machine.ticks n M).Forsaken m u ∧ (Machine.ticks n M).skipsOf u = M.skipsOf u := by
  induction n generalizing M with
  | zero => exact ⟨hf, rfl⟩
  | succ n ih =>
      have hnext : M.tick.Forsaken m u ∧ M.tick.skipsOf u = M.skipsOf u := by
        cases hready : M.ready with
        | nil =>
            rw [tick_eq_self hready]
            exact ⟨hf, rfl⟩
        | cons t others =>
            have hc := h.carries spares hready
            have hf' := hf.tick h.sound (h.balanced spares u) hready hc (h.sound.touch hready m)
            obtain ⟨-, hgrows, hbound, -⟩ := h.asleep spares hready hf.place hf.unnotified
            have hnone : M.entries (.mutex m) u = 0 := List.count_eq_zero.2 hf.absent
            exact ⟨hf', by omega⟩
      obtain ⟨hlater, hskips⟩ := ih h.tick hnext.1
      exact ⟨hlater, hskips.trans hnext.2⟩

/-- Nobody enters the line. -/
theorem Reaches.line_ticks (spares : s.sparesTokens = true) (h : s.Reaches k past M)
    (hk : s.setting.KnownAs name m) (hu : ∀ n, (Machine.ticks n M).Undisputed name m ts)
    (hs : M.Succession name m ts due line) (n : Nat) :
    ((Machine.ticks n M).waiters (.mutex m)).toList.Sublist line := by
  induction n generalizing M due line with
  | zero => exact hs.waiters ▸ List.Sublist.refl _
  | succ n ih =>
      cases h.moves_on spares hk (hu 0) hs with
      | goesOn _ hnext => exact ih h.tick (fun i => hu (i + 1)) hnext
      | givesBack _ hline hdismisses =>
          have hlater := ih h.tick (fun i => hu (i + 1)) hdismisses.next
          refine hline ▸ hlater.trans ?_
          exact (List.sublist_append_right ..).trans (List.sublist_append_right ..)

/-- What a mutex comes to from the moment on at which it is given back. -/
theorem Reaches.passes_on_of_dismisses (spares : s.sparesTokens = true) (h : s.Reaches k past M)
    {dead rest served : List ThreadId} {first : Option ThreadId}
    (hwaiters : (M.waiters (.mutex m)).toList = dead ++ (first.toList ++ rest))
    (hd : M.Dismisses name m ts dead first rest) {n : Nat}
    (hlater : ∀ i, ((Machine.ticks i M.tick).waiters (.mutex m)).toList.Sublist rest)
    (hp : M.tick.PassesOn m rest (first.toList.flatMap Dealing.turn) n served) :
    M.PassesOn m (dead ++ (first.toList ++ rest)) (M.turnover m) (n + 1)
      (first.toList ++ served) := by
  have hnodup : (dead ++ (first.toList ++ rest)).Nodup :=
    hwaiters ▸ h.nodup_waiters spares (.mutex m)
  simp only [List.nodup_append, List.mem_append] at hnodup
  obtain ⟨-, ⟨-, -, hapart⟩, hdisjoint⟩ := hnodup
  have hgone : ∀ t ∈ dead, M.Expires m t := fun t ht =>
    ⟨0, hwaiters.symm ▸ List.mem_append_left _ ht, (hd.gone t ht).1⟩
  have hexpires : ∀ t ∈ rest, M.tick.Expires m t ↔ M.Expires m t := fun t ht =>
    expires_tick (hd.next.waiters.symm ▸ ht)
  -- Whoever is woken was not passed over, and is in no line any more.
  have hfirst : ∀ t ∈ first.toList, ¬ M.Expires m t := by
    rintro t ht ⟨i, hmem, hdead⟩
    cases i with
    | zero =>
        have := hd.live t (Option.mem_toList.1 ht)
        rw [show M.isResumable t = false from hdead] at this
        cases this
    | succ i => exact hapart t ht t ((hlater i).mem hmem) rfl
  have hcases : ∀ t ∈ dead ++ (first.toList ++ rest), M.Expires m t → t ∈ dead ∨ t ∈ rest := by
    intro t ht hexp
    rcases List.mem_append.1 ht with ht | ht
    · exact .inl ht
    · rcases List.mem_append.1 ht with ht | ht
      · exact absurd hexp (hfirst t ht)
      · exact .inr ht
  refine ⟨?_, ?_, ?_, ?_, ?_, hp.free, hp.nobody⟩
  · exact ((List.Sublist.refl _).append hp.inOrder).trans (List.sublist_append_right ..)
  · rw [turnovers, hp.turns, List.flatMap_append]
  · intro t ht
    rw [List.mem_append]
    rcases List.mem_append.1 ht with ht | ht
    · refine iff_of_false ?_ (not_not.2 (hgone t ht))
      rintro (hin | hin)
      · exact hdisjoint t ht t (.inl hin) rfl
      · exact hdisjoint t ht t (.inr (hp.inOrder.mem hin)) rfl
    · rcases List.mem_append.1 ht with ht | ht
      · exact iff_of_true (.inl ht) (hfirst t ht)
      · rw [← hexpires t ht, ← hp.served t ht]
        exact or_iff_right fun hin => hapart t hin t ht rfl
  · rintro t ht hexp (_ | i)
    · exact ((h.balanced spares t).of_mem (hwaiters.symm ▸ ht)).2.1
    · rcases hcases t ht hexp with hin | hin
      · exact (h.tick.forsaken_ticks spares (hd.gone t hin).2.1 i).1.unnotified
      · exact hp.unwoken t hin ((hexpires t hin).2 hexp) i
  · intro t ht hexp
    rcases hcases t ht hexp with hin | hin
    · obtain ⟨-, hforsaken, hskip⟩ := hd.gone t hin
      exact (h.tick.forsaken_ticks spares hforsaken n).2.trans hskip
    · rw [← hd.spared t hin]
      exact hp.skipped t hin ((hexpires t hin).2 hexp)

/-- **Everybody in the line has its turn before the step is over**, in order, but for those who
expire. -/
theorem Reaches.passes_on (spares : s.sparesTokens = true) (h : s.Reaches k past M)
    (hk : s.setting.KnownAs name m) (hu : ∀ n, (Machine.ticks n M).Undisputed name m ts)
    (hs : M.Succession name m ts due line) {n : Nat} (still : (Machine.ticks n M).ready = []) :
    ∃ served, M.PassesOn m line due n served := by
  induction n generalizing M due line with
  | zero =>
      have hready : M.ready = [] := still
      cases hs.stage with
      | idle free =>
          obtain rfl := hs.rest rfl
          exact ⟨[], .refl _, rfl, by simp, by simp, by simp, free, hs.waiters⟩
      | @woken u free hqueues hn =>
          have hmem := ((h.balanced spares u).woken _ hqueues.place hn).1
          simp [hready] at hmem
      | asking free hruns => simp [hready] at hruns
      | keeping owned hruns => simp [hready] at hruns
  | succ n ih =>
      have hu' : ∀ i, (Machine.ticks i M.tick).Undisputed name m ts := fun i => hu (i + 1)
      cases h.moves_on spares hk (hu 0) hs with
      | goesOn hdue hnext hskips =>
          obtain ⟨served, hpasses⟩ := ih h.tick hu' hnext still
          have hexpires : ∀ t ∈ line, M.tick.Expires m t ↔ M.Expires m t := fun t ht =>
            expires_tick (hnext.waiters.symm ▸ ht)
          refine ⟨served, hpasses.inOrder, ?_, ?_, ?_, ?_, hpasses.free, hpasses.nobody⟩
          · rw [turnovers, hpasses.turns, ← List.append_assoc, ← hdue]
          · intro t ht
            rw [hpasses.served t ht, hexpires t ht]
          · rintro t ht hexp (_ | i)
            · exact hs.unwoken (h.balanced spares t) ht
            · exact hpasses.unwoken t ht ((hexpires t ht).2 hexp) i
          · intro t ht hexp
            exact (hpasses.skipped t ht ((hexpires t ht).2 hexp)).trans (by rw [hskips t ht])
      | givesBack hdue hline hdismisses =>
          obtain ⟨served, hpasses⟩ := ih h.tick hu' hdismisses.next still
          have hlater := h.tick.line_ticks spares hk hu' hdismisses.next
          subst hline hdue
          exact ⟨_, h.passes_on_of_dismisses spares hs.waiters hdismisses hlater hpasses⟩

end Scenario

end BlockingSync
