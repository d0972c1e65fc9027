/-
The order in which waits return.

Waits that were selected for one mutex leave in the order in which they were selected, and
then each asks for the mutex.  As long as nobody else does (`Moment.alone`), those that
find it taken queue up in that order and get it in that order.  But a wait that comes when
the mutex has just been given up takes it at once, also when another is already queued
for it; so the order is kept only if no wait leaves its suspension while the mutex is free
and another wait is queued for it (`Moment.inTurn`).
-/
import BlockingSync.Proofs.Return
import BlockingSync.Proofs.Custody

namespace BlockingSync

variable {α : Type}

namespace Machine

/-- Whether a thread waits for a mutex and is still to get it: it is on the list or notified. -/
def awaits (M : Machine α) (m : MutexId) (u : ThreadId) : Bool :=
  M.place? u = some (.mutex m) &&
    ((M.handle u).notified || (M.waiters (.mutex m)).toList.contains u)

end Machine

namespace Moment

/-- Whether nobody but waits of a list asks for a mutex next. -/
def alone (m : MutexId) (ws : List Wait) (x : Moment) : Bool :=
  match x.machine.doing? with
  | some (t, .lock m') =>
    m' != m || x.roster.acquiring.any fun w => w.thread = t && ws.contains w
  | some (_, .start _ (.onObject name .tryLock)) =>
    (x.machine.object? name).bind Object.mutex? != some m
  | _ => true

/-- Whether a wait is about to leave its suspension. -/
def leaves (w : Wait) (x : Moment) : Bool :=
  x.roster.suspended.contains w && (x.machine.ready.head? = some w.thread) &&
    (x.machine.handle w.thread).notified

/-- Whether no wait of a list is about to leave its suspension while the mutex is free and another
of the list is queued for it. -/
def inTurn (m : MutexId) (ws : List Wait) (x : Moment) : Bool :=
  (x.machine.mutex m).owner.isSome || !(ws.any fun w => x.leaves w) ||
    !(ws.any fun w => x.roster.acquiring.contains w && x.machine.awaits m w.thread)

end Moment

/-- A thread that waits and was not notified parks. -/
theorem Setting.Sound.halts_of_unnotified {S : Setting α} {M : Machine α} {t : ThreadId}
    {others : List ThreadId} {p : Place} (hs : S.Sound M) (hready : M.ready = t :: others)
    (hplace : M.place? t = some p) (hn : (M.handle t).notified = false) : M.Halts t M.tick := by
  obtain ⟨v, code, hcode⟩ := Machine.code_of_place? hplace
  obtain rfl : v = t := (hcode ▸ (hs.shaped t).code).handle_of_suspend
  rcases hs.turn.of_code hready hcode with
    ⟨N, more, hstroke, -⟩ | ⟨N, hstroke, htick⟩ | ⟨N, message, hstroke, -⟩
  · cases hstroke with
    | pass hn' =>
        rw [hn] at hn'
        cases hn'
  · rw [htick]
    exact hstroke.halts hready hcode
  · cases hstroke

namespace Machine

/-! ### Those after a mutex -/

/-- Whether a thread waits for a mutex that it will never get: it has terminated, and its entry was
taken out. -/
structure Forsaken (M : Machine α) (m : MutexId) (u : ThreadId) : Prop where
  place : M.place? u = some (.mutex m)
  unnotified : (M.handle u).notified = false
  absent : u ∉ (M.waiters (.mutex m)).toList

/-- Whether waits sleep on the list of a mutex, in the order given. -/
def Asleep (M : Machine α) (m : MutexId) (ws : List Wait) : Prop :=
  (ws.map (·.thread)).Sublist (M.waiters (.mutex m)).toList

/-- Whether a wait runs and has given code in front of it. -/
def Runs (M : Machine α) (w : Wait) (front : List (Instr α)) : Prop :=
  M.ready.head? = some w.thread ∧ ∃ rest, (M.thread w.thread).code = front ++ rest

/-- How far the waits are that are after a mutex, in the order in which they will get it. -/
inductive Stage (M : Machine α) (m : MutexId) : List Wait → Prop
  | asleep {ws} (h : M.Asleep m ws) : Stage M m ws
  /-- The first was woken. -/
  | woken {w ws} (free : (M.mutex m).owner = none) (hplace : M.place? w.thread = some (.mutex m))
      (hn : (M.handle w.thread).notified = true) (h : M.Asleep m ws) : Stage M m (w :: ws)
  /-- The first is about to take the mutex. -/
  | first {w ws path} (runs : M.Runs w [.lock m, .report path .ok])
      (free : (M.mutex m).owner = none) (h : M.Asleep m ws) : Stage M m (w :: ws)
  /-- The last is about to queue up. -/
  | last {w ws path u} (runs : M.Runs w [.lock m, .report path .ok])
      (owned : (M.mutex m).owner = some u) (h : M.Asleep m ws) : Stage M m (ws ++ [w])
  /-- The first has the mutex, and is about to answer. -/
  | holding {w ws path} (runs : M.Runs w [.report path .ok]) (h : M.Asleep m ws) :
      Stage M m (w :: ws)

variable {M M' : Machine α} {m : MutexId} {t u : ThreadId} {ws : List Wait} {w : Wait}
  {others : List ThreadId} {code : List (Instr α)}

theorem Asleep.congr (h : M.Asleep m ws)
    (hsame : (M'.waiters (.mutex m)).toList = (M.waiters (.mutex m)).toList) : M'.Asleep m ws := by
  rw [Asleep, hsame]
  exact h

/-- A thread that is woken goes on at once. -/
theorem Runs.of_notified {front rest : List (Instr α)} {p : Option Place}
    (hready : M.ready = w.thread :: others)
    (hcode : (M.thread w.thread).code = .suspend w.thread p :: (front ++ rest))
    (hn : (M.handle w.thread).notified = true) : M.tick.Runs w front := by
  have htick := tick_suspend_of_notified hready hcode hn
  refine ⟨?_, rest, ?_⟩
  · rw [htick]
    show M.ready.head? = _
    rw [hready]
    rfl
  · rw [htick, thread_setCode, if_pos rfl]

/-- Whoever sleeps on the list of a mutex waits there and has not been woken. -/
theorem Asleep.of_mem (hb : ∀ u, M.Balanced u) (h : M.Asleep m ws) (hw : w ∈ ws) :
    w.thread ∈ (M.waiters (.mutex m)).toList ∧ M.place? w.thread = some (.mutex m) ∧
      (M.handle w.thread).notified = false := by
  have hmem : w.thread ∈ (M.waiters (.mutex m)).toList := h.subset (List.mem_map_of_mem hw)
  obtain ⟨hplace, hn, -⟩ := (hb w.thread).of_mem hmem
  exact ⟨hmem, hplace, hn⟩

/-- Whoever can be resumed, waits and is on no list was notified. -/
theorem Balanced.notified_of_absent {p : Place} (h : M.Balanced u) (hplace : M.place? u = some p)
    (live : M.isResumable u = true) (habsent : u ∉ (M.waiters p).toList) :
    (M.handle u).notified = true := by
  cases hn : (M.handle u).notified with
  | true => rfl
  | false =>
      have hone := (h.waiting p hplace hn).2.2.2 live
      rw [entries, List.count_eq_zero.2 habsent] at hone
      cases hone

theorem Forsaken.terminated (hb : M.Balanced u) (h : M.Forsaken m u) : M.isResumable u = false := by
  cases live : M.isResumable u with
  | false => rfl
  | true =>
      have hn := hb.notified_of_absent h.place live h.absent
      rw [h.unnotified] at hn
      cases hn

/-- Whoever is forsaken stays so. -/
theorem Forsaken.tick {S : Setting α} (hs : S.Sound M) (hb : M.Balanced u)
    (hready : M.ready = t :: others) (hc : M.Carries t M.tick) (htouch : M.Touch m t M.tick)
    (h : M.Forsaken m u) : M.tick.Forsaken m u := by
  by_cases hut : u = t
  · subst hut
    have hhalts := hs.halts_of_unnotified hready h.place h.unnotified
    refine ⟨?_, (hhalts.notified u).trans h.unnotified, ?_⟩
    · rw [place?, hhalts.thread]
      exact h.place
    · rw [hhalts.waiters]
      exact h.absent
  · refine ⟨?_, hc.unnotified u (h.terminated hb) h.unnotified, ?_⟩
    · rw [place?, hc.thread u hut]
      exact h.place
    · exact fun hu => h.absent (htouch.mem_waiters hut hu)

/-- The waiters that a release takes out: those that have terminated, and the first that has not. -/
theorem afterFirst_cases (M : Machine α) (l : List HandleId) :
    ∃ dead rest, l = dead ++ rest ∧ (∀ u ∈ dead, M.isResumable u = false) ∧
      M.afterFirst l = rest.tail ∧ ∀ v ∈ rest.head?, M.isResumable v = true := by
  refine ⟨l.takeWhile (!M.isResumable ·), l.dropWhile (!M.isResumable ·),
    List.takeWhile_append_dropWhile.symm, ?_, rfl, ?_⟩
  · intro u hu
    have hdead := List.all_eq_true.1 List.all_takeWhile u hu
    simpa using hdead
  · intro v hv
    have := List.head?_dropWhile_not (!M.isResumable ·) l
    rw [hv] at this
    simpa using this

/-- When the mutex is given up, the first of those asleep is woken, and those that have terminated
before it are forsaken. -/
theorem Asleep.freed (hb : ∀ u, M.Balanced u) (hb' : ∀ u, M'.Balanced u) (hc : M.Carries t M')
    (hplace : M.place? t = none) (free : (M'.mutex m).owner = none)
    (hwaiters : (M'.waiters (.mutex m)).toList = M.afterFirst (M.waiters (.mutex m)).toList)
    (hlive : M'.isResumable = M.isResumable) (h : M.Asleep m ws) :
    ∃ lost kept, ws = lost ++ kept ∧ M'.Stage m kept ∧ ∀ w ∈ lost, M'.Forsaken m w.thread := by
  obtain ⟨dead, rest, hlist, hdead, hafter, hhead⟩ :=
    M.afterFirst_cases (M.waiters (.mutex m)).toList
  have hwaiters' : (M'.waiters (.mutex m)).toList = rest.tail := hwaiters.trans hafter
  have hsub := h
  rw [Asleep, hlist] at hsub
  obtain ⟨front, back, hsplit, hfront, hback⟩ := List.sublist_append_iff.1 hsub
  obtain ⟨lost, kept, rfl, rfl, rfl⟩ := List.map_eq_append_iff.1 hsplit
  have hplace' : ∀ w ∈ lost ++ kept, M'.place? w.thread = some (.mutex m) := by
    intro w hw
    obtain ⟨-, hat, -⟩ := h.of_mem hb hw
    have hne : w.thread ≠ t := by
      intro heq
      rw [heq, hplace] at hat
      cases hat
    rw [place?, hc.thread _ hne]
    exact hat
  have honce : ∀ w ∈ lost ++ kept, dead.count w.thread + rest.count w.thread = 1 := by
    intro w hw
    obtain ⟨hmem, -, -⟩ := h.of_mem hb hw
    have hone := ((hb w.thread).of_mem hmem).2.2
    rwa [entries, hlist, List.count_append] at hone
  refine ⟨lost, kept, rfl, ?_, ?_⟩
  · cases rest with
    | nil =>
        obtain rfl : kept = [] := List.map_eq_nil_iff.1 (List.sublist_nil.1 hback)
        exact .asleep (List.nil_sublist _)
    | cons v rest =>
        rcases List.sublist_cons_iff.1 hback with hback | ⟨threads, heq, hback⟩
        · exact .asleep (by rw [Asleep, hwaiters']; exact hback)
        · obtain ⟨w, kept, rfl, rfl, rfl⟩ := List.map_eq_cons_iff.1 heq
          have hw : w ∈ lost ++ w :: kept := by simp
          have habsent : w.thread ∉ rest := by
            have := honce w hw
            rw [List.count_cons_self] at this
            exact List.count_eq_zero.1 (by omega)
          refine .woken free (hplace' w hw) ?_ (by rw [Asleep, hwaiters']; exact hback)
          refine (hb' w.thread).notified_of_absent (hplace' w hw) ?_ ?_
          · rw [hlive]
            exact hhead w.thread rfl
          · rw [hwaiters']
            exact habsent
  · intro w hw
    have hmem : w ∈ lost ++ kept := List.mem_append_left _ hw
    have hin : w.thread ∈ dead := hfront.subset (List.mem_map_of_mem hw)
    refine ⟨hplace' w hmem, hc.unnotified _ (hdead _ hin) (h.of_mem hb hmem).2.2, ?_⟩
    rw [hwaiters']
    intro hc
    have hpos := List.count_pos_iff.2 hin
    have hpos' := List.count_pos_iff.2 (List.mem_of_mem_tail hc)
    have := honce w hmem
    omega

end Machine

namespace Moment

open Machine

variable {m : MutexId} {ws : List Wait} {x : Moment} {t : ThreadId} {others : List ThreadId}

theorem exists_of_alone {code : List (Instr Json)} (h : x.alone m ws = true)
    (hready : x.machine.ready = t :: others) (hcode : (x.machine.thread t).code = .lock m :: code) :
    ∃ w ∈ x.roster.acquiring, w ∈ ws ∧ w.thread = t := by
  unfold alone at h
  rw [doing?_of_code hready hcode] at h
  simp only [bne_self_eq_false, Bool.false_or, List.any_eq_true] at h
  obtain ⟨w, hw, hwt⟩ := h
  have : w.thread = t ∧ w ∈ ws := by simpa using hwt
  exact ⟨w, hw, this.2, this.1⟩

theorem ne_mutex_of_alone {path : Path} {name : String} {code : List (Instr Json)}
    (h : x.alone m ws = true) (hready : x.machine.ready = t :: others)
    (hcode : (x.machine.thread t).code = .start path (.onObject name .tryLock) :: code) :
    x.machine.object? name ≠ some (.mutex m) := by
  intro ho
  unfold alone at h
  rw [doing?_of_code hready hcode] at h
  simp [ho, Object.mutex?] at h

/-- Whoever leaves in its turn finds the mutex taken, or nobody queued for it. -/
theorem not_awaits_of_inTurn (h : x.inTurn m ws = true) (free : (x.machine.mutex m).owner = none)
    {w w' : Wait} (hw : w ∈ ws) (hsuspended : w ∈ x.roster.suspended)
    (hready : x.machine.ready = w.thread :: others)
    (hn : (x.machine.handle w.thread).notified = true) (hw' : w' ∈ ws)
    (hacquiring : w' ∈ x.roster.acquiring) : x.machine.awaits m w'.thread = false := by
  unfold inTurn at h
  rw [free] at h
  have hleaves : (ws.any fun w => x.leaves w) = true :=
    List.any_eq_true.2 ⟨w, hw, by simp [leaves, hsuspended, hready, hn]⟩
  rw [hleaves] at h
  cases hawaits : x.machine.awaits m w'.thread with
  | false => rfl
  | true =>
      have hbad : (ws.any fun w => x.roster.acquiring.contains w && x.machine.awaits m w.thread) =
          true := List.any_eq_true.2 ⟨w', hw', by simp [hacquiring, hawaits]⟩
      rw [hbad] at h
      cases h

/-- Whether the waits of a list that have returned, and then those of another list, are in the
order in which they left, and the others that have left are forsaken. -/
structure Queued (m : MutexId) (ws : List Wait) (x : Moment) (line : List Wait) : Prop where
  order : (x.roster.returned.filter (· ∈ ws) ++ line).Sublist x.roster.left
  mem : ∀ w ∈ line, w ∈ ws ∧ w ∈ x.roster.acquiring
  all : ∀ w ∈ x.roster.acquiring, w ∈ ws → w ∈ line ∨ x.machine.Forsaken m w.thread
  stage : x.machine.Stage m line

namespace Queued

variable {S : Setting Json} {c : ConditionId} {x' : Moment} {line lost kept : List Wait} {w : Wait}

/-- The waits are still in order when nobody of them leaves or returns, and perhaps some are
forsaken. -/
theorem quiet (h : x.Queued m ws line) (hleft : x.roster.left.Sublist x'.roster.left)
    (hreturned : x'.roster.returned.filter (· ∈ ws) = x.roster.returned.filter (· ∈ ws))
    (hacquiring : ∀ w ∈ ws, w ∈ x'.roster.acquiring ↔ w ∈ x.roster.acquiring)
    (hforsaken : ∀ u, x.machine.Forsaken m u → x'.machine.Forsaken m u)
    (hline : line = lost ++ kept) (hlost : ∀ w ∈ lost, x'.machine.Forsaken m w.thread)
    (hstage : x'.machine.Stage m kept) : x'.Queued m ws kept := by
  subst hline
  refine ⟨?_, ?_, ?_, hstage⟩
  · rw [hreturned]
    refine ((List.Sublist.refl _).append ?_).trans (h.order.trans hleft)
    exact List.sublist_append_right ..
  · intro w hw
    obtain ⟨hws, hacq⟩ := h.mem w (List.mem_append_right _ hw)
    exact ⟨hws, (hacquiring w hws).2 hacq⟩
  · intro w hw hws
    rcases h.all w ((hacquiring w hws).1 hw) hws with hline | hf
    · rcases List.mem_append.1 hline with hw' | hw'
      · exact .inr (hlost w hw')
      · exact .inl hw'
    · exact .inr (hforsaken _ hf)

theorem tick_of_roster (h : x.Queued m ws line)
    (hroster : x.roster.tick c x.machine = x.roster)
    (hforsaken : ∀ u, x.machine.Forsaken m u → x.machine.tick.Forsaken m u)
    (hstage : x.machine.tick.Stage m line) : (x.tick c).Queued m ws line := by
  have hline : line = [] ++ line := rfl
  refine h.quiet ?_ ?_ ?_ hforsaken hline (by simp) hstage
  · rw [Moment.tick, hroster]
  · rw [Moment.tick, hroster]
  · simp only [Moment.tick, hroster, implies_true]

/-- The first takes the mutex. -/
theorem tick_first {path : Path} (h : x.Queued m ws (w :: line))
    (runs : x.machine.Runs w [.lock m, .report path .ok]) (free : (x.machine.mutex m).owner = none)
    (hasleep : x.machine.Asleep m line)
    (hforsaken : ∀ u, x.machine.Forsaken m u → x.machine.tick.Forsaken m u) :
    (x.tick c).Queued m ws (w :: line) := by
  obtain ⟨hhead, rest, hcode⟩ := runs
  obtain ⟨others, hready⟩ := List.head?_eq_some_iff.1 hhead
  have hroster : x.roster.tick c x.machine = x.roster := by
    simp only [Roster.tick, doing?_of_code hready hcode]
  have htick := tick_lock_of_free hready hcode free
  have runs : x.machine.tick.Runs w [.report path .ok] := by
    refine ⟨?_, rest, ?_⟩
    · rw [htick]
      exact hhead
    · rw [htick, thread_setCode, if_pos rfl]
      rfl
  refine h.tick_of_roster hroster hforsaken (.holding runs (hasleep.congr ?_))
  rw [htick, waiters_setCode, waiters_setOwner]

/-- The last queues up. -/
theorem tick_last {path : Path} {u : HandleId} (h : x.Queued m ws (line ++ [w]))
    (runs : x.machine.Runs w [.lock m, .report path .ok])
    (owned : (x.machine.mutex m).owner = some u) (hasleep : x.machine.Asleep m line)
    (hforsaken : ∀ u, x.machine.Forsaken m u → x.machine.tick.Forsaken m u) :
    (x.tick c).Queued m ws (line ++ [w]) := by
  obtain ⟨hhead, rest, hcode⟩ := runs
  obtain ⟨others, hready⟩ := List.head?_eq_some_iff.1 hhead
  have hroster : x.roster.tick c x.machine = x.roster := by
    simp only [Roster.tick, doing?_of_code hready hcode]
  refine h.tick_of_roster hroster hforsaken (.asleep ?_)
  rw [Asleep, tick_lock_of_owned hready hcode owned, waiters_setCode, enqueue,
    waiters_setWaiters_self, WaitList.toList_push, List.map_append]
  exact hasleep.append (.refl _)

/-- The first of those queued tries again. -/
theorem tick_woken (h : x.Queued m ws (w :: line)) (hready : x.machine.ready = w.thread :: others)
    (hacquires : w.Acquires (x.machine.thread w.thread).code)
    (hplace : x.machine.place? w.thread = some (.mutex m))
    (hn : (x.machine.handle w.thread).notified = true) (free : (x.machine.mutex m).owner = none)
    (hasleep : x.machine.Asleep m line)
    (hforsaken : ∀ u, x.machine.Forsaken m u → x.machine.tick.Forsaken m u) :
    (x.tick c).Queued m ws (w :: line) := by
  obtain ⟨path, rest, hcode⟩ := hacquires.code_of_place hplace
  have hroster : x.roster.tick c x.machine = x.roster := by
    simp only [Roster.tick, doing?_of_code hready hcode]
  have htick := tick_suspend_of_notified hready hcode hn
  have runs : x.machine.tick.Runs w [.lock m, .report path .ok] := .of_notified hready hcode hn
  refine h.tick_of_roster hroster hforsaken (.first runs ?_ (hasleep.congr ?_))
  · rw [htick]
    exact free
  · rw [htick]
    rfl

/-- The first answers. -/
theorem tick_holding {path : Path} (hb : ∀ u, x.machine.Balanced u)
    (hnodup : (x.roster.acquiring.map (·.thread)).Nodup) (h : x.Queued m ws (w :: line))
    (runs : x.machine.Runs w [.report path .ok]) (hasleep : x.machine.Asleep m line)
    (hforsaken : ∀ u, x.machine.Forsaken m u → x.machine.tick.Forsaken m u) :
    (x.tick c).Queued m ws line := by
  obtain ⟨hhead, rest, hcode⟩ := runs
  obtain ⟨others, hready⟩ := List.head?_eq_some_iff.1 hhead
  obtain ⟨hws, hacquiring⟩ := h.mem w List.mem_cons_self
  have hroster : x.roster.tick c x.machine = x.roster.conclude w.thread := by
    simp only [Roster.tick, doing?_of_code hready hcode]
  have hreturned : (x.roster.conclude w.thread).returned = x.roster.returned ++ [w] := by
    rw [Roster.conclude, Wait.filter_thread hnodup hacquiring]
  have hout : ∀ w' ∈ line, w'.thread ≠ w.thread := by
    intro w' hw' heq
    obtain ⟨-, hplace, -⟩ := hasleep.of_mem hb hw'
    rw [heq, place?_of_code hcode] at hplace
    cases hplace
  rw [Moment.tick, hroster]
  refine ⟨?_, ?_, ?_, .asleep (hasleep.congr ?_)⟩
  · show ((x.roster.conclude w.thread).returned.filter (· ∈ ws) ++ line).Sublist x.roster.left
    rw [hreturned, List.filter_append, List.filter_cons_of_pos (by simpa using hws),
      List.filter_nil, List.append_assoc]
    exact h.order
  · intro w' hw'
    obtain ⟨hws', hacq⟩ := h.mem w' (List.mem_cons_of_mem _ hw')
    exact ⟨hws', List.mem_filter.2 ⟨hacq, by simpa using hout w' hw'⟩⟩
  · intro w' hw' hws'
    obtain ⟨hacq, hne⟩ := List.mem_filter.1 hw'
    refine (h.all w' hacq hws').imp (fun hline => ?_) (hforsaken _)
    refine (List.mem_cons.1 hline).resolve_left ?_
    rintro rfl
    simp at hne
  · rw [tick_of_done hready hcode rfl, waiters_setCode]
    rfl

/-- Somebody else leaves, or nobody does, while all of those after the mutex wait for it. -/
theorem tick_quiet {update : Roster → Roster} (h : x.Queued m ws line)
    (hplace : ∀ w ∈ line, x.machine.place? w.thread = some (.mutex m))
    (htallies : x.roster.Tallies c x.machine)
    (he : x.machine.Event c t x.machine.tick update)
    (hroster : x.roster.tick c x.machine = update x.roster)
    (hother : x.machine.place? t = some (.condition c) → (x.machine.handle t).notified = true →
      ∀ w ∈ x.roster.suspended, w.thread = t → w ∉ ws)
    (hforsaken : ∀ u, x.machine.Forsaken m u → x.machine.tick.Forsaken m u)
    (hline : line = lost ++ kept) (hlost : ∀ w ∈ lost, x.machine.tick.Forsaken m w.thread)
    (hstage : x.machine.tick.Stage m kept) : (x.tick c).Queued m ws kept := by
  have waits : ∀ w ∈ x.roster.acquiring, w ∈ ws → x.machine.place? w.thread = some (.mutex m) := by
    intro w hw hws
    rcases h.all w hw hws with hline | hf
    · exact hplace w hline
    · exact hf.place
  rw [Moment.tick, hroster]
  cases he with
  | enter | aside => exact h.quiet (.refl _) rfl (fun _ _ => Iff.rfl) hforsaken hline hlost hstage
  | wake n _ _ _ _ _ hupdate =>
      rw [hupdate _ htallies.line.symm]
      exact h.quiet (.refl _) rfl (fun _ _ => Iff.rfl) hforsaken hline hlost hstage
  | leave hcode hn _ _ _ =>
      have hleaving : ∀ w ∈ x.roster.suspended.filter (·.thread = t), w ∉ ws := by
        intro w hw
        obtain ⟨hw, ht⟩ := List.mem_filter.1 hw
        exact hother (place?_of_code hcode) hn w hw (by simpa using ht)
      refine h.quiet (List.sublist_append_left ..) rfl ?_ hforsaken hline hlost hstage
      intro w hws
      simp only [Roster.leave, List.mem_append, or_iff_left_iff_imp]
      exact fun hw => absurd hws (hleaving w hw)
  | conclude hcode _ _ _ =>
      have hne : ∀ w ∈ x.roster.acquiring, w ∈ ws → w.thread ≠ t := by
        rintro w hw hws rfl
        have := waits w hw hws
        rw [place?_of_code hcode] at this
        cases this
      have hnone : (x.roster.acquiring.filter (·.thread = t)).filter (· ∈ ws) = [] := by
        rw [List.filter_filter, List.filter_eq_nil_iff]
        intro w hw
        simpa using fun hws => hne w hw hws
      refine h.quiet (.refl _) ?_ ?_ hforsaken hline hlost hstage
      · show (x.roster.returned ++ x.roster.acquiring.filter (·.thread = t)).filter (· ∈ ws) = _
        rw [List.filter_append, hnone, List.append_nil]
      · intro w hws
        simp only [Roster.conclude, List.mem_filter, and_iff_left_iff_imp]
        exact fun hw => by simpa using hne w hw hws

/-- A wait of the list leaves. -/
theorem tick_leave (h : x.Queued m ws line)
    (hwaits : ∀ w ∈ line, x.machine.awaits m w.thread = true)
    (hasleep : ∀ u, (x.machine.mutex m).owner = some u → x.machine.Asleep m line)
    (hturn : x.inTurn m ws = true) (hsuspended : w ∈ x.roster.suspended) (hws : w ∈ ws)
    (hmutex : w.lock.mutex? = some m) (hnodup : (x.roster.suspended.map (·.thread)).Nodup)
    (hcode : w.Suspends c (x.machine.thread w.thread).code)
    (hready : x.machine.ready = w.thread :: others)
    (hn : (x.machine.handle w.thread).notified = true)
    (hforsaken : ∀ u, x.machine.Forsaken m u → x.machine.tick.Forsaken m u) :
    (x.tick c).Queued m ws (line ++ [w]) := by
  obtain ⟨path, rest, hcode⟩ := hcode
  rw [acquire_of_mutex? hmutex] at hcode
  have htick := tick_suspend_of_notified hready hcode hn
  have hroster : x.roster.tick c x.machine = x.roster.leave w.thread :=
    Roster.tick_of_notified hready hcode (by simp [Instr.place?]) hn
  have hleave : x.roster.leave w.thread = { x.roster with
      suspended := x.roster.suspended.filter (·.thread ≠ w.thread)
      left := x.roster.left ++ [w]
      acquiring := x.roster.acquiring ++ [w] } := by
    simp only [Roster.leave, Wait.filter_thread hnodup hsuspended]
  have runs : x.machine.tick.Runs w [.lock m, .report path .ok] := .of_notified hready hcode hn
  have hsame : (x.machine.tick.waiters (.mutex m)).toList =
      (x.machine.waiters (.mutex m)).toList := by
    rw [htick]
    rfl
  have howner : (x.machine.tick.mutex m).owner = (x.machine.mutex m).owner := by
    rw [htick]
    rfl
  rw [Moment.tick, hroster, hleave]
  refine ⟨?_, ?_, ?_, ?_⟩
  · rw [← List.append_assoc]
    exact h.order.append (.refl _)
  · intro w' hw'
    rcases List.mem_append.1 hw' with hw' | hw'
    · exact ⟨(h.mem w' hw').1, List.mem_append_left _ (h.mem w' hw').2⟩
    · rw [List.mem_singleton.1 hw']
      exact ⟨hws, by simp⟩
  · intro w' hw' hws'
    rcases List.mem_append.1 hw' with hw' | hw'
    · exact (h.all w' hw' hws').imp (List.mem_append_left _) (hforsaken _)
    · exact .inl (List.mem_append_right _ hw')
  · cases ho : (x.machine.mutex m).owner with
    | some u => exact .last runs (howner.trans ho) ((hasleep u ho).congr hsame)
    | none =>
        have hnil : line = [] := by
          rw [List.eq_nil_iff_forall_not_mem]
          intro w' hw'
          obtain ⟨hws', hacq⟩ := h.mem w' hw'
          have := not_awaits_of_inTurn hturn ho hws hsuspended hready hn hws' hacq
          rw [hwaits w' hw'] at this
          cases this
        subst hnil
        exact .first runs (howner.trans ho) (List.nil_sublist _)

end Queued

end Moment

namespace Machine

variable {M : Machine α} {m : MutexId} {ws : List Wait} {w : Wait}

theorem awaits_of_notified {u : ThreadId} (hplace : M.place? u = some (.mutex m))
    (hn : (M.handle u).notified = true) : M.awaits m u = true := by
  simp [awaits, hplace, hn]

theorem Asleep.awaits (hb : ∀ u, M.Balanced u) (h : M.Asleep m ws) (hw : w ∈ ws) :
    M.awaits m w.thread = true := by
  obtain ⟨hmem, hplace, -⟩ := h.of_mem hb hw
  simp [Machine.awaits, hplace, hmem]

end Machine

/-! ### Runs -/

namespace Scenario

open Machine

variable {s : Scenario} {c : ConditionId} {a b x : Moment} {m : MutexId} {ws line : List Wait}
  {t : ThreadId} {others : List ThreadId}

/-- **A tick keeps the waits of a list in the order in which they left.** -/
theorem Sees.queued_tick (spares : s.sparesTokens = true) (hpublic : s.setting.IsPublicCondition c)
    (hmutex : ∀ w ∈ ws, w.lock.mutex? = some m) (h : s.Sees c x)
    (halone : x.alone m ws = true) (hturn : x.inTurn m ws = true)
    (hready : x.machine.ready = t :: others) (hq : x.Queued m ws line) :
    ∃ line', (x.tick c).Queued m ws line' := by
  have hs := h.sound
  have hb := h.balanced spares
  have hb' : ∀ u, x.machine.tick.Balanced u := Sees.balanced spares (Leads.tick h rfl)
  have hc := h.carries spares hready
  have htouch := hs.touch hready m
  have htallies := h.tallies spares hpublic
  have hattends := h.attends spares hpublic
  have hforsaken : ∀ u, x.machine.Forsaken m u → x.machine.tick.Forsaken m u :=
    fun u => Forsaken.tick hs (hb u) hready hc htouch
  -- While all of them wait for the mutex, one more may leave, or nothing happens to them.
  have idle : (∀ w ∈ line, x.machine.awaits m w.thread = true) →
      (∀ u, (x.machine.mutex m).owner = some u → x.machine.Asleep m line) →
      (∃ lost kept, line = lost ++ kept ∧ x.machine.tick.Stage m kept ∧
        ∀ w ∈ lost, x.machine.tick.Forsaken m w.thread) →
      ∃ line', (x.tick c).Queued m ws line' := by
    rintro hwaits hasleep ⟨lost, kept, hline, hstage, hlost⟩
    by_cases hleaves : (x.machine.handle t).notified = true ∧
        ∃ w ∈ x.roster.suspended, w.thread = t ∧ w ∈ ws
    · obtain ⟨hn, w, hw, rfl, hws⟩ := hleaves
      exact ⟨_, hq.tick_leave hwaits hasleep hturn hw hws (hmutex w hws) htallies.nodup
        (hattends.suspends w hw) hready hn hforsaken⟩
    · obtain ⟨update, he, htick⟩ := h.event spares hpublic hready
      have hroster : x.roster.tick c x.machine = update x.roster := congrArg Moment.roster htick
      refine ⟨kept, hq.tick_quiet ?_ htallies he hroster ?_ hforsaken hline hlost hstage⟩
      · intro w hw
        have := hwaits w hw
        simp only [Machine.awaits, Bool.and_eq_true, decide_eq_true_eq] at this
        exact this.1
      · intro _ hn w hw ht hws
        exact hleaves ⟨hn, w, hw, ht, hws⟩
  cases hstage : hq.stage with
  | first runs free hasleep => exact ⟨_, hq.tick_first runs free hasleep hforsaken⟩
  | last runs owned hasleep => exact ⟨_, hq.tick_last runs owned hasleep hforsaken⟩
  | holding runs hasleep => exact ⟨_, hq.tick_holding hb hattends.nodup runs hasleep hforsaken⟩
  | asleep hasleep =>
      refine idle (fun w hw => hasleep.awaits hb hw) (fun _ _ => hasleep) ?_
      cases htouch with
      | stays _ hsame | takes _ hsame | claims _ _ hsame =>
          exact ⟨[], line, rfl, .asleep (hasleep.congr hsame), by simp⟩
      | queues _ hwaiters =>
          refine ⟨[], line, rfl, .asleep ?_, by simp⟩
          rw [Asleep, hwaiters]
          exact List.Sublist.trans hasleep (List.sublist_append_left ..)
      | frees hplace owned free hwaiters hlive =>
          exact hasleep.freed hb hb' hc hplace free hwaiters hlive
  | @woken w rest free hplace hn hasleep =>
      by_cases hwt : t = w.thread
      · subst hwt
        have hacquires := hattends.acquires w (hq.mem w (by simp)).2
        exact ⟨_, hq.tick_woken hready hacquires hplace hn free hasleep hforsaken⟩
      · have hwaits : ∀ w' ∈ w :: rest, x.machine.awaits m w'.thread = true := by
          intro w' hw'
          rcases List.mem_cons.1 hw' with rfl | hw'
          · exact awaits_of_notified hplace hn
          · exact hasleep.awaits hb hw'
        -- Nobody else asks for the mutex, so it stays free for the one that was woken.
        have hnobody : ∀ code, (x.machine.thread t).code ≠ .lock m :: code := by
          intro code hcode
          obtain ⟨w', hacq, hws', rfl⟩ := Moment.exists_of_alone halone hready hcode
          have hat : x.machine.place? w'.thread = some (.mutex m) := by
            rcases hq.all w' hacq hws' with hline | hf
            · have := hwaits w' hline
              simp only [Machine.awaits, Bool.and_eq_true, decide_eq_true_eq] at this
              exact this.1
            · exact hf.place
          rw [place?_of_code hcode] at hat
          cases hat
        refine idle hwaits (fun u owned => ?_) ?_
        · rw [free] at owned
          cases owned
        · cases htouch with
          | stays howner hsame =>
              refine ⟨[], _, rfl, .woken (howner.trans free) ?_ ?_ (hasleep.congr hsame), by simp⟩
              · rw [place?, hc.thread _ (Ne.symm hwt)]
                exact hplace
              · exact hc.notified _ (Ne.symm hwt) hn
          | frees _ owned => exact absurd free owned
          | takes hcode | queues hcode => exact absurd hcode (hnobody _)
          | claims hcode ho => exact absurd ho (Moment.ne_mutex_of_alone halone hready hcode)

/-- The waits of a list stay in order as long as nobody else asks for their mutex. -/
theorem Sees.queued (spares : s.sparesTokens = true) (hpublic : s.setting.IsPublicCondition c)
    (hmutex : ∀ w ∈ ws, w.lock.mutex? = some m) (ha : s.Sees c a)
    (hnew : ∀ w ∈ ws, w ∉ a.roster.left)
    (h : s.Leads c (fun x => x.alone m ws && x.inTurn m ws) a b) :
    ∃ line, b.Queued m ws line := by
  have hleft := (ha.attends spares hpublic).left
  induction h with
  | refl =>
      have hnone : ∀ w ∈ a.roster.returned ++ a.roster.acquiring, w ∉ ws := fun w hw hws =>
        hnew w hws (hleft.mem_iff.2 hw)
      have hfilter : a.roster.returned.filter (· ∈ ws) = [] := by
        rw [List.filter_eq_nil_iff]
        exact fun w hw => by simpa using hnone w (List.mem_append_left _ hw)
      refine ⟨[], ?_, by simp, ?_, .asleep (List.nil_sublist _)⟩
      · rw [hfilter]
        exact List.nil_sublist _
      · exact fun w hw hws => absurd hws (hnone w (List.mem_append_right _ hw))
  | @tick x hx hok ih =>
      obtain ⟨line, hq⟩ := ih
      have hsees : s.Sees c x := ha.leads hx
      rw [Bool.and_eq_true] at hok
      cases hready : x.machine.ready with
      | nil => exact ⟨line, by rw [tick_of_still hready]; exact hq⟩
      | cons t others =>
          exact hsees.queued_tick spares hpublic hmutex hok.1 hok.2 hready hq
  | @order x name order t hx still hstep ht idle ih =>
      obtain ⟨line, hq⟩ := ih
      have hsees : s.Sees c x := ha.leads hx
      have hnobody : ∀ w : Wait, x.machine.ready.head? ≠ some w.thread := by simp [still]
      have hasleep : x.machine.Asleep m line := by
        cases hq.stage with
        | asleep h => exact h
        | woken _ hplace hn _ =>
            have hmem := ((hsees.balanced spares _).woken _ hplace hn).1
            simp [still] at hmem
        | first runs | last runs | holding runs => exact absurd runs.1 (hnobody _)
      have hidle := isIdle_of_status idle
      refine ⟨line, hq.order, hq.mem, ?_, .asleep ?_⟩
      · intro w hw hws
        refine (hq.all w hw hws).imp id fun hf => ⟨?_, ?_, ?_⟩
        · exact (place?_begin hidle _).trans hf.place
        · exact (notified_begin _).trans hf.unnotified
        · show w.thread ∉ ((x.machine.begin t x.steps order.ops?).waiters (.mutex m)).toList
          rw [waiters_begin]
          exact hf.absent
      · refine hasleep.congr ?_
        show ((x.machine.begin t x.steps order.ops?).waiters (.mutex m)).toList = _
        rw [waiters_begin]
  | refuse hx still hstep hno ih =>
      obtain ⟨line, hq⟩ := ih
      exact ⟨line, hq.order, hq.mem, hq.all, hq.stage⟩

/-- **Waits for one mutex return in the order in which they were selected**, as long as nobody else
asks for it, and none of them leaves while it is free and another is queued for it. -/
theorem Sees.returned_sorted (spares : s.sparesTokens = true)
    (hpublic : s.setting.IsPublicCondition c) (hmutex : ∀ w ∈ ws, w.lock.mutex? = some m)
    (ha : s.Sees c a) (hnew : ∀ w ∈ ws, w ∉ a.roster.left)
    (h : s.Leads c (fun x => x.alone m ws && x.inTurn m ws) a b) :
    (b.roster.returned.filter (· ∈ ws)).Pairwise (·.number < ·.number) := by
  obtain ⟨line, hq⟩ := ha.queued spares hpublic hmutex hnew h
  have htallies := (ha.leads h).tallies spares hpublic
  have hsorted := (List.pairwise_append.1 htallies.sorted).1
  have hsub := (List.sublist_append_left _ line).trans (hq.order.trans htallies.left.sublist)
  exact hsorted.sublist hsub

end Scenario

end BlockingSync
