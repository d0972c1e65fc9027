/-
The roster tallies with the state.

The line of the roster is the list of the condition variable, and whoever is written down
as suspended is a thread at that place (`Roster.Tallies`).  Between its selection and its
leaving a wait is pending: its thread is ready and notified.  Since the ready threads run
in the order in which they became ready, pending waits leave in the order in which they
were selected, and so the waits that have left are always the first of those selected.
-/
import Mathlib.Data.List.Nodup
import BlockingSync.Proofs.Attendance

namespace BlockingSync

variable {α : Type}

namespace Machine

variable {M : Machine α} {t : ThreadId} {step : Nat} {ops? : Option (List (Op α))}

/-- When a step begins, no thread has anything else in progress than before. -/
theorem code_begin (idle : M.IsIdle t) (u : ThreadId) :
    ((M.begin t step ops?).thread u).code = (M.thread u).code := by
  cases ops? with
  | none =>
      have hcode : ((M.exit t).thread u).code = (M.thread u).code := by
        rw [thread_exit]
        split
        · subst u; rfl
        · rfl
      exact hcode
  | some ops =>
      have hcode : ((M.give t step ops).thread u).code = (M.thread u).code := by
        rw [thread_give]
        split
        · subst u; exact idle.1.symm
        · rfl
      exact hcode

theorem place?_begin (idle : M.IsIdle t) (u : ThreadId) :
    (M.begin t step ops?).place? u = M.place? u := by
  rw [place?, place?, code_begin idle]

theorem notified_begin (u : HandleId) :
    ((M.begin t step ops?).handle u).notified = (M.handle u).notified := by
  cases ops? with
  | some ops => rfl
  | none =>
      have hn : ((M.exit t).handle u).notified = (M.handle u).notified := by
        rw [handle_exit]
        split
        · subst u; rfl
        · rfl
      exact hn

theorem waiters_begin (p : Place) : (M.begin t step ops?).waiters p = M.waiters p := by
  cases ops? <;> cases p <;> rfl

end Machine

/-- Among waits of different threads, one is found by its thread. -/
theorem Wait.filter_thread {l : List Wait} {w : Wait} (hnodup : (l.map (·.thread)).Nodup)
    (hw : w ∈ l) : l.filter (·.thread = w.thread) = [w] := by
  induction l with
  | nil => simp at hw
  | cons first l ih =>
      rw [List.map_cons, List.nodup_cons] at hnodup
      have hout : ∀ w' ∈ l, w'.thread ≠ first.thread := fun w' hw' hc =>
        hnodup.1 (hc ▸ List.mem_map_of_mem hw')
      rcases List.mem_cons.1 hw with rfl | hw
      · have hrest : l.filter (·.thread = w.thread) = [] := by
          rw [List.filter_eq_nil_iff]
          exact fun w' hw' => by simpa using hout w' hw'
        simp [hrest]
      · have hne : first.thread ≠ w.thread := Ne.symm (hout w hw)
        simpa [hne] using ih hnodup.2 hw

namespace Roster

/-- The waits that were selected and have yet to leave. -/
def pending (r : Roster) : List Wait := r.selected.drop r.left.length

/-- Whether a roster tallies with a state. -/
structure Tallies (c : ConditionId) (M : Machine α) (r : Roster) : Prop where
  line : (M.waiters (.condition c)).toList = r.line.map (·.thread)
  place : ∀ u, M.place? u = some (.condition c) ↔ u ∈ r.suspended.map (·.thread)
  nodup : (r.suspended.map (·.thread)).Nodup
  /-- Waits leave in the order in which they were selected. -/
  left : r.left <+: r.selected
  suspended : r.suspended.Perm (r.passed ++ r.pending ++ r.line)
  ready : (r.pending.map (·.thread)).Sublist M.ready
  notified : ∀ w ∈ r.pending, (M.handle w.thread).notified = true
  /-- Who was passed over has terminated and is never woken. -/
  passed : ∀ w ∈ r.passed, M.isResumable w.thread = false ∧ (M.handle w.thread).notified = false
  sorted : (r.selected ++ r.line).Pairwise (·.number < ·.number)
  counted : ((r.passed ++ r.selected ++ r.line).map (·.number)).Perm (List.range r.begun)

namespace Tallies

open Machine

variable {c : ConditionId} {M M' : Machine α} {r : Roster} {t : ThreadId} {others : List ThreadId}

theorem selected_eq (h : r.Tallies c M) : r.selected = r.left ++ r.pending :=
  (List.prefix_iff_eq_append.1 h.left).symm

theorem mem_suspended (h : r.Tallies c M) {w : Wait} :
    w ∈ r.suspended ↔ w ∈ r.passed ∨ w ∈ r.pending ∨ w ∈ r.line := by
  rw [h.suspended.mem_iff, List.mem_append, List.mem_append, or_assoc]

/-- A suspended wait is at the place of the condition variable. -/
theorem place_of_mem (h : r.Tallies c M) {w : Wait} (hw : w ∈ r.suspended) :
    M.place? w.thread = some (.condition c) :=
  (h.place w.thread).2 (List.mem_map_of_mem hw)

/-- A thread is in one wait at a time. -/
theorem eq_of_thread (h : r.Tallies c M) {w w' : Wait} (hw : w ∈ r.suspended)
    (hw' : w' ∈ r.suspended) (ht : w.thread = w'.thread) : w = w' :=
  List.inj_on_of_nodup_map h.nodup hw hw' ht

/-- What is written down of a wait does not change while its thread stands still. -/
theorem congr (h : r.Tallies c M)
    (hwaiters : (M'.waiters (.condition c)).toList = (M.waiters (.condition c)).toList)
    (hplace : ∀ u, M'.place? u = some (.condition c) ↔ M.place? u = some (.condition c))
    (hready : (r.pending.map (·.thread)).Sublist M'.ready)
    (hn : ∀ w ∈ r.pending, (M'.handle w.thread).notified = true)
    (hpassed : ∀ u, M.isResumable u = false → (M.handle u).notified = false →
      M'.isResumable u = false ∧ (M'.handle u).notified = false) : r.Tallies c M' := by
  refine ⟨hwaiters.trans h.line, fun u => (hplace u).trans (h.place u), h.nodup, h.left,
    h.suspended, hready, hn, ?_, h.sorted, h.counted⟩
  intro w hw
  obtain ⟨dead, hnot⟩ := h.passed w hw
  exact hpassed _ dead hnot

/-- A wait that has left is not suspended. -/
theorem not_mem_suspended (h : r.Tallies c M) {w : Wait} (hw : w ∈ r.left) : w ∉ r.suspended := by
  have hnodup : (r.passed ++ r.selected ++ r.line).Nodup :=
    .of_map _ (h.counted.nodup_iff.2 List.nodup_range)
  rw [h.selected_eq, List.nodup_append, List.nodup_append, List.nodup_append] at hnodup
  obtain ⟨⟨-, ⟨-, -, hpending⟩, hpassed⟩, -, hline⟩ := hnodup
  rw [h.mem_suspended]
  rintro (hw' | hw' | hw')
  · exact hpassed w hw' w (List.mem_append_left _ hw) rfl
  · exact hpending w hw w hw' rfl
  · exact hline w (by simp [hw]) w hw' rfl

/-- A roster without entries tallies with a machine in which nothing has happened yet. -/
theorem origin (h : M.Fresh) : Tallies c M {} := by
  have hplace : ∀ u, M.place? u = none := fun u => by simp [place?, (h.idle u).1]
  refine ⟨h.waiters _, ?_, ?_, ?_, ?_, ?_, ?_, ?_, ?_, ?_⟩ <;> simp [pending, hplace]

/-- Taking a front part out of the line loses no wait. -/
theorem perm_take (passed selected line : List Wait) (live : Wait → Bool) (n : Nat) :
    (passed ++ (line.take n).filter (!live ·) ++ (selected ++ (line.take n).filter live) ++
      line.drop n).Perm (passed ++ selected ++ line) := by
  rw [List.perm_iff_count]
  intro w
  have hsplit := (List.filter_append_perm live (line.take n)).count_eq w
  have hline := congrArg (List.count w) (List.take_append_drop n line)
  simp only [List.count_append] at hsplit hline ⊢
  omega

section Event

variable (h : r.Tallies c M) (hb : ∀ u, M.Balanced u) (hb' : ∀ u, M'.Balanced u)
  (hready : M.ready = t :: others) (hnodup : M.ready.Nodup) (hc : M.Carries t M')

include h

/-- A thread that is elsewhere is in no wait. -/
theorem thread_ne (hplace : M.place? t ≠ some (.condition c)) {w : Wait} (hw : w ∈ r.suspended) :
    w.thread ≠ t := by
  rintro rfl
  exact hplace (h.place_of_mem hw)

/-- Whoever leaves is the first of those who have yet to leave. -/
theorem exists_leaving (hb : ∀ u, M.Balanced u) (hready : M.ready = t :: others)
    (hnodup : M.ready.Nodup) (hplace : M.place? t = some (.condition c))
    (hn : (M.handle t).notified = true) :
    ∃ w rest, w.thread = t ∧ r.pending = w :: rest ∧ ∀ w' ∈ rest, w'.thread ≠ t := by
  obtain ⟨w, hw, rfl⟩ := List.mem_map.1 ((h.place t).1 hplace)
  have hmem : w ∈ r.pending := by
    rcases h.mem_suspended.1 hw with hpassed | hmem | hline
    · rw [(h.passed w hpassed).2] at hn
      cases hn
    · exact hmem
    · have hentry : w.thread ∈ (M.waiters (.condition c)).toList := by
        rw [h.line]
        exact List.mem_map_of_mem hline
      rw [((hb w.thread).of_mem hentry).2.1] at hn
      cases hn
  have hsub := h.ready
  have hthreads := hnodup.sublist hsub
  rw [hready] at hsub
  cases hpending : r.pending with
  | nil => simp [hpending] at hmem
  | cons first rest =>
      rw [hpending, List.map_cons] at hsub hthreads
      rw [hready] at hnodup
      have hfirst : first.thread = w.thread := by
        rcases List.sublist_cons_iff.1 hsub with hsub | ⟨others', heq, -⟩
        · have hin : w.thread ∈ (first :: rest).map (·.thread) :=
            List.mem_map_of_mem (hpending ▸ hmem)
          exact absurd (hsub.subset hin) (List.nodup_cons.1 hnodup).1
        · exact (List.cons.inj heq).1
      refine ⟨first, rest, hfirst, rfl, ?_⟩
      intro w' hw' hc
      refine (List.nodup_cons.1 hthreads).1 ?_
      rw [hfirst, ← hc]
      exact List.mem_map_of_mem hw'

include hc

theorem pending_ready (ht : ∀ w ∈ r.pending, w.thread ≠ t) :
    (r.pending.map (·.thread)).Sublist M'.ready := by
  refine hc.sublist h.ready ?_
  rw [List.mem_map]
  rintro ⟨w, hw, hwt⟩
  exact ht w hw hwt

theorem pending_notified (ht : ∀ w ∈ r.pending, w.thread ≠ t) :
    ∀ w ∈ r.pending, (M'.handle w.thread).notified = true :=
  fun w hw => hc.notified _ (ht w hw) (h.notified w hw)

theorem passed_stay : ∀ w ∈ r.passed,
    M'.isResumable w.thread = false ∧ (M'.handle w.thread).notified = false := by
  intro w hw
  obtain ⟨dead, hn⟩ := h.passed w hw
  exact ⟨hc.terminated _ dead, hc.unnotified _ dead hn⟩

/-- Nothing happens to the waits. -/
theorem aside (hplace : M'.place? t = some (.condition c) ↔ M.place? t = some (.condition c))
    (hstop : M.place? t = some (.condition c) →
      (M.handle t).notified = false ∧ M'.thread t = M.thread t)
    (hsame : M'.waiters (.condition c) = M.waiters (.condition c)) : r.Tallies c M' := by
  have ht : ∀ w ∈ r.pending, w.thread ≠ t := by
    rintro w hw rfl
    have hn := (hstop (h.place_of_mem (h.mem_suspended.2 (.inr (.inl hw))))).1
    rw [h.notified w hw] at hn
    cases hn
  refine h.congr (by rw [hsame]) ?_ (h.pending_ready hc ht) (h.pending_notified hc ht)
    fun u dead hn => ⟨hc.terminated u dead, hc.unnotified u dead hn⟩
  intro u
  by_cases hu : u = t
  · subst hu
    exact hplace
  · simp only [place?, hc.thread u hu]

/-- A wait begins. -/
theorem enter {l : Lockable} (hplace : M.place? t = none)
    (hplace' : M'.place? t = some (.condition c))
    (hwaiters : (M'.waiters (.condition c)).toList = (M.waiters (.condition c)).toList ++ [t]) :
    (r.enter t l).Tallies c M' := by
  have hout : ∀ w ∈ r.suspended, w.thread ≠ t := fun w hw => h.thread_ne (by simp [hplace]) hw
  have ht : ∀ w ∈ r.pending, w.thread ≠ t := fun w hw =>
    hout w (h.mem_suspended.2 (.inr (.inl hw)))
  have hbelow : ∀ w ∈ r.passed ++ r.selected ++ r.line, w.number < r.begun := fun w hw =>
    List.mem_range.1 (h.counted.mem_iff.1 (List.mem_map_of_mem hw))
  refine ⟨?_, ?_, ?_, h.left, ?_, h.pending_ready hc ht, h.pending_notified hc ht,
    h.passed_stay hc, ?_, ?_⟩
  · simp [hwaiters, h.line, Roster.enter]
  · intro u
    by_cases hu : u = t
    · subst hu
      simp [hplace', Roster.enter]
    · simp only [place?, hc.thread u hu]
      rw [← place?, h.place u]
      simp [Roster.enter, hu]
  · simp only [Roster.enter, List.map_append, List.map_cons, List.map_nil, List.nodup_append]
    refine ⟨h.nodup, by simp, ?_⟩
    intro u hu v hv
    obtain ⟨w, hw, rfl⟩ := List.mem_map.1 hu
    rw [List.mem_singleton.1 hv]
    exact hout w hw
  · simp only [Roster.enter, pending, ← List.append_assoc]
    exact h.suspended.append_right _
  · simp only [Roster.enter, ← List.append_assoc]
    refine List.pairwise_append.2 ⟨h.sorted, by simp, ?_⟩
    intro w hw w' hw'
    rw [List.mem_singleton.1 hw']
    refine hbelow w ?_
    rw [List.append_assoc]
    exact List.mem_append_right _ hw
  · simp only [Roster.enter, ← List.append_assoc, List.map_append, List.range_succ]
    have := h.counted
    simp only [List.map_append] at this
    exact this.append_right _

/-- A front part of the line is taken out. -/
theorem take {n : Nat} (hb : ∀ u, M.Balanced u) (hb' : ∀ u, M'.Balanced u)
    (hplace : M.place? t = none) (hplace' : M'.place? t = none)
    (hwaiters : (M'.waiters (.condition c)).toList = (M.waiters (.condition c)).toList.drop n)
    (hready' : M'.ready =
      M.ready ++ ((M.waiters (.condition c)).toList.take n).filter M.isResumable)
    (hlive : M'.isResumable = M.isResumable) : (r.take M.isResumable n).Tallies c M' := by
  have hout : ∀ w ∈ r.suspended, w.thread ≠ t := fun w hw => h.thread_ne (by simp [hplace]) hw
  have hline : ∀ w ∈ r.line, w ∈ r.suspended := fun w hw => h.mem_suspended.2 (.inr (.inr hw))
  have hpending : (r.take M.isResumable n).pending =
      r.pending ++ (r.line.take n).filter fun w => M.isResumable w.thread := by
    simp only [pending, Roster.take]
    rw [List.drop_append_of_le_length h.left.length_le]
  have hplaces : ∀ u, M'.place? u = some (.condition c) ↔ M.place? u = some (.condition c) := by
    intro u
    by_cases hu : u = t
    · subst hu
      simp [hplace, hplace']
    · simp only [place?, hc.thread u hu]
  -- Whoever was on the list had no notification, and has no entry any more.
  have hentries : ∀ w ∈ r.line.take n, M'.entries (.condition c) w.thread = 0 := by
    intro w hw
    rw [Machine.entries, hwaiters, h.line, ← List.map_drop, List.count_eq_zero, List.mem_map]
    rintro ⟨w', hw', ht⟩
    have hsame := h.eq_of_thread (hline _ (List.mem_of_mem_drop hw'))
      (hline _ (List.mem_of_mem_take hw)) ht
    subst hsame
    have hnodup : r.line.Nodup := (List.pairwise_append.1 h.sorted).2.1.imp fun hlt heq => by
      rw [heq] at hlt
      exact Nat.lt_irrefl _ hlt
    rw [← List.take_append_drop n r.line, List.nodup_append] at hnodup
    exact hnodup.2.2 w' hw w' hw' rfl
  have hunnotified : ∀ w ∈ r.line, (M.handle w.thread).notified = false := by
    intro w hw
    have hmem : w.thread ∈ (M.waiters (.condition c)).toList := by
      rw [h.line]
      exact List.mem_map_of_mem hw
    exact ((hb w.thread).of_mem hmem).2.1
  refine ⟨?_, fun u => (hplaces u).trans (h.place u), h.nodup, ?_, ?_, ?_, ?_, ?_, ?_, ?_⟩
  · rw [hwaiters, h.line, ← List.map_drop]
    rfl
  · exact h.left.trans (List.prefix_append ..)
  · rw [hpending]
    exact h.suspended.trans (perm_take ..).symm
  · rw [hpending, hready', List.map_append, h.line, ← List.map_take, List.filter_map]
    exact h.ready.append (List.Sublist.refl _)
  · rw [hpending]
    intro w hw
    rcases List.mem_append.1 hw with hw | hw
    · exact h.pending_notified hc (fun w hw => hout w (h.mem_suspended.2 (.inr (.inl hw)))) w hw
    · obtain ⟨hw, live⟩ := List.mem_filter.1 hw
      have hat : M'.place? w.thread = some (.condition c) :=
        (hplaces _).2 (h.place_of_mem (hline w (List.mem_of_mem_take hw)))
      cases hn : (M'.handle w.thread).notified with
      | true => rfl
      | false =>
          have hone := ((hb' w.thread).waiting _ hat hn).2.2.2 (by rw [hlive]; exact live)
          rw [hentries w hw] at hone
          cases hone
  · intro w hw
    rcases List.mem_append.1 hw with hw | hw
    · exact h.passed_stay hc w hw
    · obtain ⟨hw, dead⟩ := List.mem_filter.1 hw
      have dead : M.isResumable w.thread = false := by simpa using dead
      exact ⟨hc.terminated _ dead,
        hc.unnotified _ dead (hunnotified w (List.mem_of_mem_take hw))⟩
  · refine h.sorted.sublist ?_
    simp only [Roster.take, List.append_assoc]
    refine (List.Sublist.refl _).append ?_
    have hlive : ((r.line.take n).filter fun w => M.isResumable w.thread).Sublist
        (r.line.take n) := List.filter_sublist
    have hsub := hlive.append (List.Sublist.refl (r.line.drop n))
    rwa [List.take_append_drop] at hsub
  · exact ((perm_take ..).map _).trans h.counted

/-- A wait leaves. -/
theorem leave (hb : ∀ u, M.Balanced u) (hready : M.ready = t :: others) (hnodup : M.ready.Nodup)
    (hplace : M.place? t = some (.condition c)) (hn : (M.handle t).notified = true)
    (hplace' : M'.place? t = none)
    (hsame : M'.waiters (.condition c) = M.waiters (.condition c)) :
    (r.leave t).Tallies c M' := by
  obtain ⟨w, rest, hwt, hpending, hrest⟩ := h.exists_leaving hb hready hnodup hplace hn
  have hw : w ∈ r.suspended := h.mem_suspended.2 (.inr (.inl (by simp [hpending])))
  have hleaving : r.suspended.filter (·.thread = t) = [w] := by
    rw [← hwt]
    exact Wait.filter_thread h.nodup hw
  have hleft : (r.leave t).left = r.left ++ [w] := by
    simp only [Roster.leave, hleaving]
  have hselected : r.selected = r.left ++ [w] ++ rest := by
    rw [h.selected_eq, hpending, List.append_assoc]
    rfl
  have hpending' : (r.leave t).pending = rest := by
    rw [pending, hleft]
    show r.selected.drop _ = rest
    rw [hselected, List.drop_left]
  have hperm : r.suspended.Perm (w :: (r.passed ++ rest ++ r.line)) := by
    refine h.suspended.trans ?_
    rw [hpending, List.append_assoc, List.append_assoc, List.cons_append]
    exact List.perm_middle
  have hothers : ∀ w' ∈ r.passed ++ rest ++ r.line, w'.thread ≠ t := by
    intro w' hw' ht
    have hthreads := (hperm.map (·.thread)).nodup_iff.1 h.nodup
    rw [List.map_cons, List.nodup_cons, hwt, ← ht] at hthreads
    exact hthreads.1 (List.mem_map_of_mem hw')
  refine ⟨?_, ?_, ?_, ?_, ?_, ?_, ?_, h.passed_stay hc, h.sorted, h.counted⟩
  · rw [hsame]
    exact h.line
  · intro u
    by_cases hu : u = t
    · subst hu
      simp [hplace', Roster.leave]
    · simp only [place?, hc.thread u hu]
      rw [← place?, h.place u]
      simp only [Roster.leave, List.mem_map, List.mem_filter]
      constructor
      · rintro ⟨w', hw', rfl⟩
        exact ⟨w', ⟨hw', by simpa using hu⟩, rfl⟩
      · rintro ⟨w', ⟨hw', -⟩, rfl⟩
        exact ⟨w', hw', rfl⟩
  · exact h.nodup.sublist (List.filter_sublist.map _)
  · rw [hleft]
    show r.left ++ [w] <+: r.selected
    rw [hselected]
    exact List.prefix_append ..
  · rw [hpending']
    refine (hperm.filter _).trans ?_
    rw [List.filter_cons_of_neg (by simp [hwt]), List.filter_eq_self.2 fun w' hw' => by
      simpa using hothers w' hw']
    exact .refl _
  · rw [hpending']
    refine hc.sublist ?_ ?_
    · have hsub := h.ready
      rw [hpending] at hsub
      exact (List.sublist_cons_self ..).trans hsub
    · rw [List.mem_map]
      rintro ⟨w', hw', ht⟩
      exact hrest w' hw' ht
  · rw [hpending']
    intro w' hw'
    exact hc.notified _ (hrest w' hw') (h.notified w' (by simp [hpending, hw']))

/-- A thread returns. -/
theorem conclude (hplace : M.place? t = none) (hplace' : M'.place? t = none)
    (hsame : M'.waiters (.condition c) = M.waiters (.condition c)) :
    (r.conclude t).Tallies c M' := by
  obtain ⟨h1, h2, h3, h4, h5, h6, h7, h8, h9, h10⟩ :=
    h.aside hc (by simp [hplace, hplace']) (by simp [hplace]) hsame
  exact ⟨h1, h2, h3, h4, h5, h6, h7, h8, h9, h10⟩

/-- **A roster that tallies with a state tallies after every event.** -/
theorem event {update : Roster → Roster} (hb : ∀ u, M.Balanced u) (hb' : ∀ u, M'.Balanced u)
    (hready : M.ready = t :: others) (hnodup : M.ready.Nodup) (he : M.Event c t M' update) :
    (update r).Tallies c M' := by
  cases he with
  | enter hcode hcode' hwaiters =>
      exact h.enter hc (place?_of_code hcode) (place?_of_code hcode') hwaiters
  | wake n hcode hplace' hwaiters hready' hlive hupdate =>
      rw [hupdate r h.line.symm]
      exact h.take hc hb hb' (place?_of_code hcode) hplace' hwaiters hready' hlive
  | leave hcode hn hcode' hplace' hsame =>
      exact h.leave hc hb hready hnodup (place?_of_code hcode) hn hplace' hsame
  | conclude hcode hcode' hplace' hsame =>
      exact h.conclude hc (place?_of_code hcode) hplace' hsame
  | aside _ hplace hstop hsame => exact h.aside hc hplace hstop hsame

end Event

/-- When a step begins, nothing happens to the waits. -/
theorem begin (h : r.Tallies c M) (still : M.ready = []) (idle : M.IsIdle t) (step : Nat)
    (ops? : Option (List (Op α))) : r.Tallies c (M.begin t step ops?) := by
  have hnone : r.pending = [] := by
    have hsub := h.ready
    rw [still] at hsub
    exact List.map_eq_nil_iff.1 (List.sublist_nil.1 hsub)
  refine h.congr (by rw [waiters_begin]) (fun u => by rw [place?_begin idle]) (by simp [hnone])
    (by simp [hnone]) fun u dead hn => ⟨?_, (notified_begin u).trans hn⟩
  cases live : (M.begin t step ops?).isResumable u with
  | false => rfl
  | true => exact absurd (isResumable_of_begin live) (by simp [dead])

end Tallies

/-! ### What no event does -/

section

variable {c : ConditionId} {M M' : Machine α} {r : Roster} {t : ThreadId} {w : Wait}
  {update : Roster → Roster}

/-- No event takes a wait out of those that have left. -/
theorem mem_left_of_event (htallies : r.Tallies c M) (he : M.Event c t M' update)
    (hw : w ∈ r.left) : w ∈ (update r).left := by
  cases he with
  | wake n _ _ _ _ _ hupdate =>
      rw [hupdate r htallies.line.symm]
      exact hw
  | leave => exact List.mem_append_left _ hw
  | enter | conclude | aside => exact hw

/-- Only the thread that runs can leave. -/
theorem mem_suspended_of_event (htallies : r.Tallies c M) (he : M.Event c t M' update)
    (hw : w ∈ r.suspended) (hne : w.thread ≠ t) : w ∈ (update r).suspended := by
  cases he with
  | wake n _ _ _ _ _ hupdate =>
      rw [hupdate r htallies.line.symm]
      exact hw
  | leave => exact List.mem_filter.2 ⟨hw, by simpa using hne⟩
  | enter => exact List.mem_append_left _ hw
  | conclude | aside => exact hw

/-- Whoever begins to acquire a lock was suspended on the thread that runs. -/
theorem mem_acquiring_of_event (htallies : r.Tallies c M) (he : M.Event c t M' update)
    (hw : w ∈ (update r).acquiring) : w ∈ r.acquiring ∨ w ∈ r.suspended ∧ w.thread = t := by
  cases he with
  | wake n _ _ _ _ _ hupdate =>
      rw [hupdate r htallies.line.symm] at hw
      exact .inl hw
  | leave =>
      refine (List.mem_append.1 hw).imp id fun hw => ?_
      exact ⟨(List.mem_filter.1 hw).1, by simpa using (List.mem_filter.1 hw).2⟩
  | conclude => exact .inl (List.mem_filter.1 hw).1
  | enter | aside => exact .inl hw

end

end Roster

namespace Scenario

open Machine

variable {s : Scenario} {c : ConditionId} {x : Moment} {t : ThreadId} {others : List ThreadId}

theorem Sees.sound (h : s.Sees c x) : s.setting.Sound x.machine := by
  obtain ⟨past, h⟩ := h.reaches
  exact h.sound

theorem Sees.balanced (spares : s.sparesTokens = true) (h : s.Sees c x) (u : ThreadId) :
    x.machine.Balanced u := by
  obtain ⟨past, h⟩ := h.reaches
  exact h.balanced spares u

theorem Sees.carries (spares : s.sparesTokens = true) (h : s.Sees c x)
    (hready : x.machine.ready = t :: others) : x.machine.Carries t x.machine.tick :=
  Setting.Turn.carries (sparesTokens_setting spares) h.sound hready h.sound.turn

/-- Every tick of a run is an event, and the roster follows it. -/
theorem Sees.event (spares : s.sparesTokens = true) (hpublic : s.setting.IsPublicCondition c)
    (h : s.Sees c x) (hready : x.machine.ready = t :: others) :
    ∃ update, x.machine.Event c t x.machine.tick update ∧
      x.tick c = ⟨x.steps, x.machine.tick, update x.roster⟩ := by
  obtain ⟨update, he, hroster⟩ := Setting.exists_event (sparesTokens_setting spares) h.sound
    (h.balanced spares) hpublic hready
  exact ⟨update, he, by rw [Moment.tick, hroster]⟩

theorem tick_of_still (still : x.machine.ready = []) : x.tick c = x := by
  have hm : x.machine.tick = x.machine := by
    unfold Machine.tick
    rw [still]
  have hr : x.roster.tick c x.machine = x.roster := by
    simp only [Roster.tick, doing?, still]
  rw [Moment.tick, hm, hr]

/-- **The roster tallies with the state at every moment.** -/
theorem Sees.tallies (spares : s.sparesTokens = true) (hpublic : s.setting.IsPublicCondition c)
    (h : s.Sees c x) : x.roster.Tallies c x.machine := by
  induction h with
  | refl => exact .origin s.start_new.fresh
  | @tick x h _ ih =>
      have hsees : s.Sees c x := h
      cases hready : x.machine.ready with
      | nil =>
          rw [tick_of_still hready]
          exact ih
      | cons t others =>
          obtain ⟨update, he, htick⟩ := hsees.event spares hpublic hready
          have hb' := Sees.balanced spares (Leads.tick hsees rfl)
          rw [htick]
          exact ih.event (hsees.carries spares hready) (hsees.balanced spares) hb' hready
            hsees.sound.orderly.ready_nodup he
  | order _ still hstep ht idle ih => exact ih.begin still (isIdle_of_status idle) _ _
  | refuse _ still hstep hno ih => exact ih

end Scenario

end BlockingSync
