/-
Waits that one broadcast selects.

A broadcast makes the threads of all waits that it selects ready in one go.  Nobody comes
between them: the first of them runs when those before them have stopped, and each goes on
until it stops (`Moment.March`).  If one stops while it has the mutex, or finds it taken,
then the mutex stays taken until the last of them has left its suspension.  So after a
broadcast each leaves in its turn (`Moment.inTurn`), and the waits return in the order in
which they were selected if nobody else asks for the mutex.
-/
import BlockingSync.Proofs.Precedence

namespace BlockingSync

namespace Moment

open Machine

/-- How the waits of a list stand while others of them have yet to leave.  The threads given are
those that run before the next of these. -/
inductive Pace (m : MutexId) (ws : List Wait) (x : Moment) (pre : List ThreadId) : Prop
  /-- None of them waits for the mutex. -/
  | calm (h : ∀ w ∈ ws, w ∈ x.roster.acquiring →
      pre = [w.thread] ∧ x.machine.place? w.thread = none)
  /-- The mutex is taken, and the thread that runs finds out. -/
  | coming {u t code} (owned : (x.machine.mutex m).owner = some u) (hpre : pre = [t])
      (hcode : (x.machine.thread t).code = .lock m :: code)
  /-- The mutex is taken, and the thread that runs has queued up and is about to stop. -/
  | parking {u t} (owned : (x.machine.mutex m).owner = some u) (hpre : pre = [t])
      (hplace : x.machine.place? t = some (.mutex m))
      (hn : (x.machine.handle t).notified = false)
  /-- The mutex is taken, and the next of those that have yet to leave runs. -/
  | next {u} (owned : (x.machine.mutex m).owner = some u) (hpre : pre = [])

/-- Whether the waits of a list that have yet to leave stand next to one another among the ready
threads. -/
structure March (m : MutexId) (ws : List Wait) (x : Moment) (gone rest : List Wait)
    (pre post : List ThreadId) : Prop where
  split : ws = gone ++ rest
  left : ∀ w ∈ gone, w ∈ x.roster.left
  waits : ∀ w ∈ rest, w ∈ x.roster.suspended ∧ (x.machine.handle w.thread).notified = true
  ready : x.machine.ready = pre ++ rest.map (·.thread) ++ post
  pace : x.Pace m ws pre

/-- Whether the waits of a list have yet to leave and stand next to one another among the ready
threads. -/
structure Together (ws : List Wait) (x : Moment) : Prop where
  pending : ∀ w ∈ ws, w ∈ x.roster.pending
  ready : ws.map (·.thread) <:+: x.machine.ready

/-- Whether the waits of a list have all left, or stand next to one another. -/
def Marches (m : MutexId) (ws : List Wait) (x : Moment) : Prop :=
  (∀ w ∈ ws, w ∈ x.roster.left) ∨ ∃ gone rest pre post, x.March m ws gone rest pre post

variable {m : MutexId} {ws gone rest : List Wait} {x : Moment} {pre post : List ThreadId}
  {c : ConditionId}

/-- While they stand next to one another, each leaves in its turn. -/
theorem Marches.inTurn (h : x.Marches m ws) (htallies : x.roster.Tallies c x.machine) :
    x.inTurn m ws = true := by
  unfold Moment.inTurn
  rcases h with hall | ⟨gone, rest, pre, post, h⟩
  · have hnone : (ws.any fun w => x.leaves w) = false := by
      rw [List.any_eq_false]
      intro w hw
      simp [leaves, htallies.not_mem_suspended (hall w hw)]
    rw [hnone]
    simp
  · cases h.pace with
    | calm hcalm =>
        have hnone : (ws.any fun w => x.roster.acquiring.contains w &&
            x.machine.awaits m w.thread) = false := by
          rw [List.any_eq_false]
          intro w hw
          by_cases hacq : w ∈ x.roster.acquiring
          · simp [awaits, (hcalm w hw hacq).2]
          · simp [hacq]
        rw [hnone]
        simp
    | coming owned | parking owned | next owned => simp [owned]

/-! ### One tick -/

variable {s : Scenario} {others : List ThreadId} {t : ThreadId} {w : Wait}

/-- Those that have yet to leave stay where they are while another thread runs. -/
theorem March.onward (spares : s.sparesTokens = true) (hpublic : s.setting.IsPublicCondition c)
    (hx : s.Sees c x) (hready : x.machine.ready = t :: others)
    (h : x.March m ws gone rest pre post) (hne : ∀ w ∈ rest, w.thread ≠ t)
    {pre' post' : List ThreadId}
    (hready' : (x.tick c).machine.ready = pre' ++ rest.map (·.thread) ++ post')
    (hpace : (x.tick c).Pace m ws pre') : (x.tick c).March m ws gone rest pre' post' := by
  have htallies := hx.tallies spares hpublic
  obtain ⟨update, he, htick⟩ := hx.event spares hpublic hready
  refine ⟨h.split, ?_, ?_, hready', hpace⟩
  · rw [htick]
    exact fun w hw => Roster.mem_left_of_event htallies he (h.left w hw)
  · rw [htick]
    intro w hw
    obtain ⟨hsuspended, hn⟩ := h.waits w hw
    exact ⟨Roster.mem_suspended_of_event htallies he hsuspended (hne w hw),
      (hx.carries spares hready).notified _ (hne w hw) hn⟩

/-- The next of them leaves. -/
theorem March.tick_next (spares : s.sparesTokens = true) (hpublic : s.setting.IsPublicCondition c)
    (hmutex : ∀ w ∈ ws, w.lock.mutex? = some m) (hx : s.Sees c x)
    (h : x.March m ws gone (w :: rest) [] post) :
    (x.tick c).March m ws (gone ++ [w]) rest [w.thread] post := by
  have htallies := hx.tallies spares hpublic
  have hattends := hx.attends spares hpublic
  have hready : x.machine.ready = w.thread :: (rest.map (·.thread) ++ post) := by
    rw [h.ready]
    rfl
  obtain ⟨hsuspended, hn⟩ := h.waits w (by simp)
  obtain ⟨path, code, hcode⟩ := hattends.suspends w hsuspended
  rw [acquire_of_mutex? (hmutex w (by simp [h.split]))] at hcode
  have hafter := tick_suspend_of_notified hready hcode hn
  have hroster : x.roster.tick c x.machine = x.roster.leave w.thread :=
    Roster.tick_of_notified hready hcode (by simp [Instr.place?]) hn
  have hleaving := Wait.filter_thread htallies.nodup hsuspended
  -- The thread that runs is ready only once, so the others are other threads.
  have hne : ∀ w' ∈ rest, w'.thread ≠ w.thread := by
    intro w' hw' heq
    have hnodup := hx.sound.orderly.ready_nodup
    rw [hready, List.nodup_cons] at hnodup
    refine hnodup.1 (List.mem_append_left _ ?_)
    rw [← heq]
    exact List.mem_map_of_mem hw'
  have hcode' : (x.machine.tick.thread w.thread).code = .lock m :: .report path .ok :: code := by
    rw [hafter, thread_setCode, if_pos rfl]
  refine ⟨by rw [h.split, List.append_assoc]; rfl, ?_, ?_, ?_, ?_⟩
  · intro w' hw'
    show w' ∈ (x.roster.tick c x.machine).left
    rw [hroster, Roster.leave, hleaving]
    refine List.mem_append.2 ((List.mem_append.1 hw').imp (h.left w') id)
  · intro w' hw'
    obtain ⟨hsuspended', hn'⟩ := h.waits w' (List.mem_cons_of_mem _ hw')
    refine ⟨?_, (hx.carries spares hready).notified _ (hne w' hw') hn'⟩
    show w' ∈ (x.roster.tick c x.machine).suspended
    rw [hroster]
    exact List.mem_filter.2 ⟨hsuspended', by simpa using hne w' hw'⟩
  · show x.machine.tick.ready = _
    rw [hafter]
    exact hready
  · cases h.pace with
    | calm hcalm =>
        refine .calm fun w' hws hw' => ?_
        change w' ∈ (x.roster.tick c x.machine).acquiring at hw'
        rw [hroster, Roster.leave, hleaving] at hw'
        rcases List.mem_append.1 hw' with hw' | hw'
        · exact absurd (hcalm w' hws hw').1 (by simp)
        · rw [List.mem_singleton.1 hw']
          exact ⟨rfl, place?_of_code hcode'⟩
    | coming _ hpre | parking _ hpre => cases hpre
    | next owned =>
        have howner : (x.machine.tick.mutex m).owner = (x.machine.mutex m).owner := by
          rw [hafter]
          rfl
        exact .coming (howner.trans owned) rfl hcode'

/-- None of those that have yet to leave runs while another thread is ready before them. -/
theorem March.thread_ne (hx : s.Sees c x) (h : x.March m ws gone rest (t :: pre) post) :
    ∀ w ∈ rest, w.thread ≠ t := by
  rintro w hw rfl
  have hnodup := hx.sound.orderly.ready_nodup
  rw [h.ready, List.cons_append, List.cons_append, List.nodup_cons] at hnodup
  refine hnodup.1 (List.mem_append_left _ (List.mem_append_right _ ?_))
  exact List.mem_map_of_mem hw

/-- The thread that finds the mutex taken queues up. -/
theorem March.tick_coming (spares : s.sparesTokens = true)
    (hpublic : s.setting.IsPublicCondition c) (hx : s.Sees c x) {u : HandleId}
    {code : List (Instr Json)} (h : x.March m ws gone rest [t] post)
    (owned : (x.machine.mutex m).owner = some u)
    (hcode : (x.machine.thread t).code = .lock m :: code) :
    (x.tick c).March m ws gone rest [t] post := by
  have hready : x.machine.ready = t :: (rest.map (·.thread) ++ post) := h.ready
  have hafter := tick_lock_of_owned hready hcode owned
  have hn : (x.machine.handle t).notified = false :=
    ((hx.balanced spares t).elsewhere (place?_of_code hcode)).1
  refine h.onward spares hpublic hx hready (h.thread_ne hx) ?_ (.parking (u := u) ?_ rfl ?_ ?_)
  · show x.machine.tick.ready = _
    rw [hafter]
    exact h.ready
  · show (x.machine.tick.mutex m).owner = _
    rw [hafter]
    exact (owner_setWaiters ..).trans owned
  · show x.machine.tick.place? t = _
    rw [hafter, place?_setCode]
    simp [Instr.place?]
  · show (x.machine.tick.handle t).notified = _
    rw [hafter]
    exact hn

/-- The thread that has queued up stops. -/
theorem March.tick_parking (spares : s.sparesTokens = true)
    (hpublic : s.setting.IsPublicCondition c) (hx : s.Sees c x) {u : HandleId}
    (h : x.March m ws gone rest [t] post) (owned : (x.machine.mutex m).owner = some u)
    (hplace : x.machine.place? t = some (.mutex m))
    (hn : (x.machine.handle t).notified = false) : (x.tick c).March m ws gone rest [] post := by
  have hready : x.machine.ready = t :: (rest.map (·.thread) ++ post) := h.ready
  have hhalts := hx.sound.halts_of_unnotified hready hplace hn
  refine h.onward spares hpublic hx hready (h.thread_ne hx) ?_ (.next (u := u) ?_ rfl)
  · exact (List.cons.inj (hhalts.ready.symm.trans hready)).2
  · show (x.machine.tick.mutex m).owner = _
    rw [hhalts.mutex]
    exact owned

/-- The one that has left goes on until it answers, or finds the mutex taken. -/
theorem March.tick_acquiring (spares : s.sparesTokens = true)
    (hpublic : s.setting.IsPublicCondition c) (hmutex : w.lock.mutex? = some m) (hx : s.Sees c x)
    (h : x.March m ws gone rest [w.thread] post) (hw : w ∈ x.roster.acquiring)
    (hcalm : ∀ w' ∈ ws, w' ∈ x.roster.acquiring → w'.thread = w.thread)
    (hplace : x.machine.place? w.thread = none) :
    (x.tick c).March m ws gone rest [w.thread] post := by
  have hready : x.machine.ready = w.thread :: (rest.map (·.thread) ++ post) := h.ready
  have hacquires := (hx.attends spares hpublic).acquires w hw
  generalize hcode : (x.machine.thread w.thread).code = code at hacquires
  cases hacquires with
  | @trying path code =>
      rw [acquire_of_mutex? hmutex] at hcode
      have hroster : x.roster.tick c x.machine = x.roster := by
        simp only [Roster.tick, doing?_of_code hready hcode]
      cases ho : (x.machine.mutex m).owner with
      | none =>
          have hafter := tick_lock_of_free hready hcode ho
          refine h.onward spares hpublic hx hready (h.thread_ne hx) ?_ (.calm ?_)
          · show x.machine.tick.ready = _
            rw [hafter]
            exact h.ready
          · intro w' hws hw'
            change w' ∈ (x.roster.tick c x.machine).acquiring at hw'
            rw [hroster] at hw'
            rw [hcalm w' hws hw']
            refine ⟨rfl, ?_⟩
            show x.machine.tick.place? w.thread = none
            rw [hafter, place?_setCode]
            rfl
      | some u => exact h.tick_coming spares hpublic hx ho hcode
  | queued =>
      rw [place?_of_code hcode] at hplace
      cases hplace
  | @holding path code =>
      have hafter := tick_of_done hready hcode rfl
      have hroster : x.roster.tick c x.machine = x.roster.conclude w.thread := by
        simp only [Roster.tick, doing?_of_code hready hcode]
      refine h.onward spares hpublic hx hready (h.thread_ne hx) ?_ (.calm ?_)
      · show x.machine.tick.ready = _
        rw [hafter]
        exact h.ready
      · intro w' hws hw'
        change w' ∈ (x.roster.tick c x.machine).acquiring at hw'
        rw [hroster] at hw'
        obtain ⟨hw', hne⟩ := List.mem_filter.1 hw'
        exact absurd (hcalm w' hws hw') (by simpa using hne)

/-- Somebody else runs before the next of them. -/
theorem March.tick_calm (spares : s.sparesTokens = true)
    (hpublic : s.setting.IsPublicCondition c) (hx : s.Sees c x)
    (h : x.March m ws gone rest (t :: pre) post) (hcalm : ∀ w ∈ ws, w ∉ x.roster.acquiring) :
    ∃ pre' post', (x.tick c).March m ws gone rest pre' post' := by
  have htallies := hx.tallies spares hpublic
  have hready : x.machine.ready = t :: (pre ++ rest.map (·.thread) ++ post) := h.ready
  obtain ⟨update, he, htick⟩ := hx.event spares hpublic hready
  -- Whoever begins to acquire its lock runs, and the waits of the list have left or stand behind.
  have hcalm' : ∀ w ∈ ws, w ∉ (x.tick c).roster.acquiring := by
    intro w hws hw
    rw [htick] at hw
    rcases Roster.mem_acquiring_of_event htallies he hw with hw | ⟨hsuspended, hwt⟩
    · exact hcalm w hws hw
    · rw [h.split] at hws
      rcases List.mem_append.1 hws with hgone | hrest
      · exact htallies.not_mem_suspended (h.left w hgone) hsuspended
      · exact h.thread_ne hx w hrest hwt
  have hpace : ∀ pre', (x.tick c).Pace m ws pre' := fun _ =>
    .calm fun w hws hw => absurd hw (hcalm' w hws)
  rcases (hx.carries spares hready).ready with ⟨woken, hwoken⟩ | hhalts
  · refine ⟨t :: pre, post ++ woken,
      h.onward spares hpublic hx hready (h.thread_ne hx) ?_ (hpace _)⟩
    show x.machine.tick.ready = _
    rw [hwoken, h.ready, List.append_assoc _ post woken]
  · refine ⟨pre, post, h.onward spares hpublic hx hready (h.thread_ne hx) ?_ (hpace _)⟩
    exact (List.cons.inj (hhalts.ready.symm.trans hready)).2

end Moment

/-! ### Runs -/

namespace Scenario

open Machine Setting

variable {s : Scenario} {c : ConditionId} {ok : Moment → Bool} {a b x : Moment} {m : MutexId}
  {ws : List Wait}

/-- **Waits of a list that stand next to one another do so until they have all left.** -/
theorem Sees.marches_tick (spares : s.sparesTokens = true)
    (hpublic : s.setting.IsPublicCondition c) (hmutex : ∀ w ∈ ws, w.lock.mutex? = some m)
    (hx : s.Sees c x) (h : x.Marches m ws) : (x.tick c).Marches m ws := by
  have gone : (∀ w ∈ ws, w ∈ x.roster.left) → (x.tick c).Marches m ws := by
    intro hleft
    cases hready : x.machine.ready with
    | nil =>
        rw [tick_of_still hready]
        exact .inl hleft
    | cons t others =>
        obtain ⟨update, he, htick⟩ := hx.event spares hpublic hready
        rw [htick]
        exact .inl fun w hw =>
          Roster.mem_left_of_event (hx.tallies spares hpublic) he (hleft w hw)
  rcases h with hleft | ⟨gone', rest, pre, post, h⟩
  · exact gone hleft
  · cases rest with
    | nil =>
        refine gone fun w hw => h.left w ?_
        simpa [h.split] using hw
    | cons w rest =>
        cases pre with
        | nil => exact .inr ⟨_, _, _, _, h.tick_next spares hpublic hmutex hx⟩
        | cons t pre =>
            cases h.pace with
            | calm hcalm =>
                -- The last that left may still be on its way to its lock; then it runs.
                by_cases hany : ∃ w' ∈ ws, w' ∈ x.roster.acquiring
                · obtain ⟨w', hws, hw'⟩ := hany
                  obtain ⟨hpre, hplace⟩ := hcalm w' hws hw'
                  obtain ⟨rfl, rfl⟩ := List.cons.inj hpre
                  refine .inr ⟨_, _, _, _,
                    h.tick_acquiring spares hpublic (hmutex w' hws) hx hw' ?_ hplace⟩
                  intro w'' hws'' hw''
                  exact (List.cons.inj (hcalm w'' hws'' hw'').1).1.symm
                · obtain ⟨pre', post', h'⟩ := h.tick_calm spares hpublic hx
                    fun w' hws hw' => hany ⟨w', hws, hw'⟩
                  exact .inr ⟨_, _, pre', post', h'⟩
            | coming owned hpre hcode =>
                obtain ⟨rfl, rfl⟩ := List.cons.inj hpre
                exact .inr ⟨_, _, _, _, h.tick_coming spares hpublic hx owned hcode⟩
            | parking owned hpre hplace hn =>
                obtain ⟨rfl, rfl⟩ := List.cons.inj hpre
                exact .inr ⟨_, _, _, _, h.tick_parking spares hpublic hx owned hplace hn⟩
            | next _ hpre => cases hpre

/-- When no thread is ready, they have all left. -/
theorem mem_left_of_still (h : x.Marches m ws) (still : x.machine.ready = []) :
    ∀ w ∈ ws, w ∈ x.roster.left := by
  rcases h with hleft | ⟨gone, rest, pre, post, h⟩
  · exact hleft
  · have hready := h.ready
    rw [still, eq_comm, List.append_eq_nil_iff, List.append_eq_nil_iff,
      List.map_eq_nil_iff] at hready
    obtain ⟨⟨-, rfl⟩, -⟩ := hready
    exact fun w hw => h.left w (by simpa [h.split] using hw)

/-- Waits that stand next to one another leave in their turn. -/
theorem Sees.inTurn (spares : s.sparesTokens = true) (hpublic : s.setting.IsPublicCondition c)
    (hmutex : ∀ w ∈ ws, w.lock.mutex? = some m) (ha : s.Sees c a) (hstart : a.Marches m ws)
    (h : s.Leads c ok a b) :
    b.Marches m ws ∧ s.Leads c (fun x => ok x && x.inTurn m ws) a b := by
  induction h with
  | refl => exact ⟨hstart, .refl⟩
  | @tick x h hok ih =>
      obtain ⟨hmarches, hleads⟩ := ih
      have hx : s.Sees c x := ha.leads h
      refine ⟨hx.marches_tick spares hpublic hmutex hmarches, hleads.tick ?_⟩
      rw [hok, hmarches.inTurn (hx.tallies spares hpublic)]
      rfl
  | order _ still hstep ht idle ih =>
      have hleft := mem_left_of_still ih.1 still
      exact ⟨.inl hleft, ih.2.order still hstep ht idle⟩
  | refuse _ still hstep hno ih =>
      have hleft := mem_left_of_still ih.1 still
      exact ⟨.inl hleft, ih.2.refuse still hstep hno⟩

/-- Waits that stand next to one another march. -/
theorem Sees.marches (spares : s.sparesTokens = true) (hpublic : s.setting.IsPublicCondition c)
    (hx : s.Sees c x) (h : x.Together ws) : x.Marches m ws := by
  have htallies := hx.tallies spares hpublic
  have hattends := hx.attends spares hpublic
  have hsuspended : ∀ w ∈ ws, w ∈ x.roster.suspended := fun w hw =>
    htallies.mem_suspended.2 (.inr (.inl (h.pending w hw)))
  obtain ⟨pre, post, hready⟩ := h.ready
  refine .inr ⟨[], ws, pre, post, rfl, by simp, ?_, hready.symm, .calm ?_⟩
  · exact fun w hw => ⟨hsuspended w hw, htallies.notified w (h.pending w hw)⟩
  · intro w hw hacq
    exact absurd (htallies.place_of_mem (hsuspended w hw)) ((hattends.acquires w hacq).placeOf_ne c)

/-- **Waits for one mutex that stand next to one another return in the order in which they were
selected**, as long as nobody else asks for it. -/
theorem Sees.returned_sorted_of_together (spares : s.sparesTokens = true)
    (hpublic : s.setting.IsPublicCondition c) (hmutex : ∀ w ∈ ws, w.lock.mutex? = some m)
    (ha : s.Sees c a) (htogether : a.Together ws) (h : s.Leads c (·.alone m ws) a b) :
    (b.roster.returned.filter (· ∈ ws)).Pairwise (·.number < ·.number) := by
  have htallies := ha.tallies spares hpublic
  have hnew : ∀ w ∈ ws, w ∉ a.roster.left := by
    intro w hw hleft
    refine htallies.not_mem_suspended hleft ?_
    exact htallies.mem_suspended.2 (.inr (.inl (htogether.pending w hw)))
  obtain ⟨-, hleads⟩ := ha.inTurn spares hpublic hmutex (ha.marches spares hpublic htogether) h
  exact ha.returned_sorted spares hpublic hmutex hnew hleads

/-- **The waits that a broadcast selects stand next to one another.** -/
theorem Sees.together_of_broadcast (spares : s.sparesTokens = true)
    (hpublic : s.setting.IsPublicCondition c) (ha : s.Sees c a) {t : ThreadId} {path : Path}
    {name : String} (hdoing : a.machine.doing? = some (t, .start path (.onObject name .broadcast)))
    (ho : a.machine.object? name = some (.condition c)) :
    (a.tick c).Together ((a.tick c).roster.selected.drop a.roster.selected.length) := by
  obtain ⟨others, code, hready, hcode⟩ := doing?_eq_some.1 hdoing
  have htallies := ha.tallies spares hpublic
  have htallies' := Sees.tallies spares hpublic (Leads.tick ha rfl)
  have hroster : a.roster.tick c a.machine = a.roster.broadcast a.machine.isResumable := by
    simp only [Roster.tick, hdoing, Roster.begin, isCondition_iff.2 ho, if_true]
  have hnew : (a.tick c).roster.selected.drop a.roster.selected.length =
      a.roster.line.filter fun w => a.machine.isResumable w.thread := by
    show (a.roster.tick c a.machine).selected.drop _ = _
    rw [hroster]
    exact List.drop_left
  refine ⟨?_, ?_⟩
  · intro w hw
    have hleft : (a.tick c).roster.left = a.roster.left := by
      show (a.roster.tick c a.machine).left = _
      rw [hroster]
      rfl
    rw [Roster.pending, hleft]
    exact List.drop_subset_drop_left _ htallies.left.length_le hw
  · have hm : s.setting.Midway t none a.machine :=
      .of_balanced ha.sound (ha.balanced spares) hready (place?_of_code hcode)
    have hwoken := ready_of_broadcast (sparesTokens_setting spares) hm hready hcode ho
    rw [hnew]
    refine ⟨a.machine.ready, [], ?_⟩
    show _ = a.machine.tick.ready
    rw [hwoken, htallies.line, List.filter_map, List.append_nil]
    rfl

end Scenario

end BlockingSync
