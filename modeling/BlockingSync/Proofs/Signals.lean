/-
Whom the signals wake.

The waits that leave their suspension are those that the signals and broadcasts selected,
in that order, each once, and each then gets its lock like anybody who asks for it.  For
one mutex they also return in that order, if nobody else asks for it and either they stood
next to one another when they were ready to go, as after a broadcast, or none of them leaves
its suspension while the mutex is free and another is queued for it.  Whoever does so takes
the mutex before the other, which was woken for it (`overtaken`).
-/
import BlockingSync.Proofs.Broadcast
import BlockingSync.Proofs.Contention

namespace BlockingSync

namespace Scenario

open Machine

variable {s : Scenario} {c : ConditionId} {a b x : Moment} {m : MutexId} {ws : List Wait}

/-- When no thread is ready, every wait that was selected has left. -/
theorem Sees.left_of_still (spares : s.sparesTokens = true)
    (hpublic : s.setting.IsPublicCondition c) (h : s.Sees c x) (still : x.machine.ready = []) :
    x.roster.left = x.roster.selected := by
  have htallies := h.tallies spares hpublic
  have hsub := htallies.ready
  rw [still] at hsub
  have hnone : x.roster.pending = [] := List.map_eq_nil_iff.1 (List.sublist_nil.1 hsub)
  rw [htallies.selected_eq, hnone, List.append_nil]

/-- A wait that acquires a mutex when no thread is ready waits for it. -/
theorem Sees.place_of_still (spares : s.sparesTokens = true)
    (hpublic : s.setting.IsPublicCondition c) (h : s.Sees c x) (still : x.machine.ready = [])
    {w : Wait} (hw : w ∈ x.roster.acquiring) (hm : w.lock.mutex? = some m) :
    x.machine.place? w.thread = some (.mutex m) := by
  obtain ⟨past, hreaches⟩ := h.reaches
  have hacquires := (h.attends spares hpublic).acquires w hw
  generalize hcode : (x.machine.thread w.thread).code = code at hacquires
  cases hacquires with
  | trying =>
      rw [acquire_of_mutex? hm] at hcode
      exact place?_of_isLocking hreaches still ⟨_, .inl hcode⟩
  | queued hm' =>
      obtain rfl := Option.some.inj (hm.symm.trans hm')
      exact place?_of_code hcode
  | holding =>
      have hhead := (h.holder spares hpublic hw hcode).1
      rw [still] at hhead
      cases hhead

/-- When no thread is ready and a mutex is free, every wait for it that was selected has returned,
unless its task has terminated. -/
theorem Sees.returned_of_free (spares : s.sparesTokens = true)
    (hpublic : s.setting.IsPublicCondition c) (h : s.Sees c x) (still : x.machine.ready = [])
    (free : (x.machine.mutex m).owner = none) {w : Wait} (hw : w ∈ x.roster.selected)
    (hm : w.lock.mutex? = some m) (live : x.machine.isResumable w.thread = true) :
    w ∈ x.roster.returned := by
  rw [← h.left_of_still spares hpublic still, (h.attends spares hpublic).left.mem_iff] at hw
  refine (List.mem_append.1 hw).resolve_right fun hacq => ?_
  obtain ⟨past, hreaches⟩ := h.reaches
  have hplace := h.place_of_still spares hpublic still hacq hm
  exact not_isOwed_of_over (hreaches.contended spares m) still
    ⟨free, w.thread, hreaches.mem_waiters spares still hplace live, live⟩

/-- **Signals wake each wait once, in order, and nobody else.**  Every state of a scenario that
leaves tokens to the primitives is seen with a roster, and at every such moment the roster tallies
with the state (`Roster.Tallies`): those that have left are the first of those selected, and those
still suspended are the ones passed over, the ones selected that have yet to leave, and the line,
which is the list of the condition variable.  Whoever was passed over has terminated and is never
woken.  Whoever has left goes through the acquisition of its lock (`Roster.Attends`), and has the
lock when it answers.  When no thread is ready, all that were selected have left, and those of them
whose mutex is free have returned, unless their task has terminated.

Waits for one mutex of which none has left yet return in the order in which they were selected, as
long as nobody else asks for it, if none of them leaves its suspension while the mutex is free and
another of them is queued for it; and also without this if they stand next to one another among the
ready threads, as those do that a broadcast selects. -/
theorem waits_leave_as_selected {name : String} (spares : s.sparesTokens = true)
    (hname : s.start.1.object? name = some (.condition c)) :
    (∀ k past M, s.Reaches k past M → ∃ r, s.Sees c ⟨k, M, r⟩) ∧
      (∀ x, s.Sees c x →
        x.roster.Tallies c x.machine ∧ x.roster.Attends c x.machine ∧
          (x.machine.ready = [] → x.roster.left = x.roster.selected ∧
            ∀ w ∈ x.roster.selected, ∀ m, w.lock.mutex? = some m →
              (x.machine.mutex m).owner = none → x.machine.isResumable w.thread = true →
                w ∈ x.roster.returned) ∧
          ∀ w ∈ x.roster.acquiring, ∀ path r rest,
            (x.machine.thread w.thread).code = .report path r :: rest →
              x.machine.holder? w.lock = some w.thread) ∧
      (∀ m ws a b, (∀ w ∈ ws, w.lock.mutex? = some m) → s.Sees c a →
        (∀ w ∈ ws, w ∉ a.roster.left) →
        s.Leads c (fun x => x.alone m ws && x.inTurn m ws) a b →
          (b.roster.returned.filter (· ∈ ws)).Pairwise (·.number < ·.number)) ∧
      (∀ m ws a b, (∀ w ∈ ws, w.lock.mutex? = some m) → s.Sees c a → a.Together ws →
        s.Leads c (·.alone m ws) a b →
          (b.roster.returned.filter (· ∈ ws)).Pairwise (·.number < ·.number)) ∧
      ∀ a t path called, s.Sees c a →
        a.machine.doing? = some (t, .start path (.onObject called .broadcast)) →
        a.machine.object? called = some (.condition c) →
          (a.tick c).Together ((a.tick c).roster.selected.drop a.roster.selected.length) := by
  have hpublic := s.setting.isPublicCondition_of_object hname
  refine ⟨fun k past M h => h.seen c, fun x h => ⟨h.tallies spares hpublic,
    h.attends spares hpublic, fun still => ⟨h.left_of_still spares hpublic still, ?_⟩, ?_⟩,
    ?_, ?_, ?_⟩
  · intro w hw m hm free live
    exact h.returned_of_free spares hpublic still free hw hm live
  · intro w hw path r rest hcode
    exact (h.holder spares hpublic hw hcode).2
  · intro m ws a b hmutex ha hnew h
    exact ha.returned_sorted spares hpublic hmutex hnew h
  · intro m ws a b hmutex ha htogether h
    exact ha.returned_sorted_of_together spares hpublic hmutex htogether h
  · intro a t path called ha hdoing ho
    exact ha.together_of_broadcast spares hpublic hdoing ho

/-- Two tasks wait with one mutex, and a third wakes both. -/
def rally : Scenario where
  tasks := ["a", "b", "p"]
  objects := [("m", .mutex {}), ("c", .condition {})]
  steps := [("a", .run [.onObject "m" .lock, .onObject "c" (.wait "m"), .onObject "m" .unlock]),
    ("b", .run [.onObject "m" .lock, .onObject "c" (.wait "m"), .onObject "m" .unlock]),
    ("p", .run [.onObject "c" .broadcast])]

/-- The two waits. -/
def rallied : List Wait := [⟨0, 0, .native 0⟩, ⟨1, 1, .native 0⟩]

/-- The moment before the broadcast. -/
def beforeRally : Moment :=
  (embark (rally.moment 0 2) 2 (.run [.onObject "c" .broadcast])).tick 0

/-- The moment when both have returned, as it follows from the broadcast. -/
def afterRally : Moment :=
  (beforeRally.tick 0).settle 0 20

theorem waits_leave_as_selected_in_rally :
    rally.start.1.object? "c" = some (.condition 0) ∧ beforeRally.roster.line = rallied ∧
      (beforeRally.tick 0).Together rallied ∧ afterRally.roster.returned = rallied ∧
      (afterRally.roster.returned.filter (· ∈ rallied)).Pairwise (·.number < ·.number) ∧
      ((rally.moment 0 3).roster.returned.filter (· ∈ rallied)).Pairwise (·.number < ·.number) ∧
      (rally.moment 0 3).roster.left = (rally.moment 0 3).roster.selected := by
  have hname : rally.start.1.object? "c" = some (.condition 0) := rfl
  obtain ⟨-, hseen, hturn, htogether, hbroadcast⟩ :=
    waits_leave_as_selected (s := rally) (by decide) hname
  have hmutex : ∀ w ∈ rallied, w.lock.mutex? = some 0 := by decide
  have hsees : rally.Sees 0 (rally.moment 0 2) := sees_moment _ _ (by decide) (by decide)
  have hbefore : rally.Sees 0 beforeRally := (hsees.order (by decide) rfl rfl rfl).tick rfl
  have hside : (beforeRally.tick 0).Together rallied := hbroadcast _ 2 [0] "c" hbefore rfl rfl
  have hleads : rally.Leads 0 (·.alone 0 rallied) (beforeRally.tick 0) afterRally :=
    Leads.settle .refl 20 (by decide)
  have hsteps : rally.Leads 0 (fun x => x.alone 0 rallied && x.inTurn 0 rallied)
      (rally.moment 0 2) (rally.moment 0 3) :=
    .moment .refl (by decide) (by decide) (by decide) (by decide)
  exact ⟨hname, by decide, hside, by decide,
    htogether _ _ _ _ hmutex (hbefore.tick rfl) hside hleads,
    hturn _ _ _ _ hmutex hsees (by decide) hsteps,
    ((hseen _ (hsees.leads (hsteps.mono fun _ _ => rfl))).2.2.1 (by decide)).1⟩

/-- The first of three waits returns and keeps the mutex while it waits for a value.  The second is
selected, then comes the value, then the third is selected: so the second queues up, the first
gives the mutex up, and the third finds it free. -/
def overtaken : Scenario where
  tasks := ["a", "b", "d", "p"]
  objects := [("m", .mutex {}), ("q", .queue .unbounded), ("c", .condition {})]
  steps := [("a", .run [.onObject "m" .lock, .onObject "c" (.wait "m"), .onObject "q" .pop,
      .onObject "m" .unlock]),
    ("b", .run [.onObject "m" .lock, .onObject "c" (.wait "m"), .onObject "m" .unlock]),
    ("d", .run [.onObject "m" .lock, .onObject "c" (.wait "m"), .onObject "m" .unlock]),
    ("p", .run [.onObject "c" .signal]),
    ("p", .run [.onObject "c" .signal, .onObject "q" (.push .null), .onObject "c" .signal])]

/-- The three waits that are overtaken or overtake, in the order in which they are selected. -/
def contenders : List Wait := [⟨0, 0, .native 0⟩, ⟨1, 1, .native 0⟩, ⟨2, 2, .native 0⟩]

/-- A broadcast also selects a wait for another mutex, whose task comes between the two others and
releases the mutex that they ask for. -/
def sidestepped : Scenario where
  tasks := ["a", "b", "d", "p"]
  objects := [("m", .mutex {}), ("n", .mutex {}), ("c", .condition {})]
  steps := [("a", .run [.onObject "m" .lock, .onObject "c" (.wait "m"), .onObject "m" .unlock]),
    ("b", .run [.onObject "n" .lock, .onObject "c" (.wait "n"), .onObject "m" .unlock]),
    ("d", .run [.onObject "m" .lock, .onObject "c" (.wait "m"), .onObject "m" .unlock]),
    ("p", .run [.onObject "m" .lock]), ("p", .run [.onObject "c" .broadcast])]

/-- **Without these conditions waits can return in another order than they were selected in**,
although nobody else asks for the mutex. -/
theorem returned_out_of_order :
    (overtaken.sparesTokens = true ∧ overtaken.start.1.object? "c" = some (.condition 2) ∧
      overtaken.Sees 2 (overtaken.moment 2 3) ∧ (overtaken.moment 2 3).roster.line = contenders ∧
      overtaken.Leads 2 (·.alone 0 contenders) (overtaken.moment 2 3) (overtaken.moment 2 5) ∧
      (overtaken.moment 2 5).roster.selected = contenders ∧
      (overtaken.moment 2 5).roster.returned.map (·.number) = [0, 2, 1]) ∧
    sidestepped.sparesTokens = true ∧ sidestepped.start.1.object? "c" = some (.condition 0) ∧
      sidestepped.Sees 0 (sidestepped.moment 0 4) ∧
      sidestepped.Leads 0 (·.alone 0 [⟨0, 0, .native 0⟩, ⟨2, 2, .native 0⟩])
        (sidestepped.moment 0 4) (sidestepped.moment 0 5) ∧
      (sidestepped.moment 0 5).roster.selected =
        [⟨0, 0, .native 0⟩, ⟨1, 1, .native 1⟩, ⟨2, 2, .native 0⟩] ∧
      (sidestepped.moment 0 5).roster.returned.map (·.number) = [1, 2, 0] :=
  ⟨⟨by decide, rfl, sees_moment _ _ (by decide) (by decide), by decide,
      .moment .refl (by decide) (by decide) (by decide) (by decide), by decide, by decide⟩,
    by decide, rfl, sees_moment _ _ (by decide) (by decide),
    .moment .refl (by decide) (by decide) (by decide) (by decide), by decide, by decide⟩

end Scenario

end BlockingSync
