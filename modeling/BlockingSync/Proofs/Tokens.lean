/-
Tokens between the turns of threads.

Whenever no thread is in the middle of its operations, each task stands in one of three
ways: it is parked with its one entry where it waits, or was woken and has yet to go on,
or has nothing to do with any list.
-/
import BlockingSync.Proofs.Reach

namespace BlockingSync

/-- How a task stands when no thread is in the middle of its operations. -/
inductive Machine.Settled {α : Type} (M : Machine α) (u : ThreadId) : Prop
  /-- The thread is parked on its own handle and has one entry, at the place where it waits. -/
  | parked {p} (hplace : M.place? u = some p) (hready : u ∉ M.ready)
      (hparked : u ∈ (M.handle u).parked) (hn : (M.handle u).notified = false)
      (hone : M.entries p u = 1) (hother : ∀ p', p' ≠ p → M.entries p' u = 0)
  /-- The thread was woken at the place where it waits, and has no entry any more. -/
  | woken {p} (hplace : M.place? u = some p) (hready : u ∈ M.ready)
      (hn : (M.handle u).notified = true) (hnone : ∀ p', M.entries p' u = 0)
  /-- The thread waits at no place, and has neither entry nor notification. -/
  | elsewhere (hplace : M.place? u = none) (hn : (M.handle u).notified = false)
      (hnone : ∀ p', M.entries p' u = 0)

namespace Scenario

variable {s : Scenario} {k : Nat} {past : List (Entry Json)} {M : Machine Json}

/-- A thread that waits and is ready was woken. -/
theorem Pauses.notified (spares : s.sparesTokens = true) (h : s.Pauses k past M) {u : ThreadId}
    (hplace : M.place? u ≠ none) (hready : u ∈ M.ready) : (M.handle u).notified = true := by
  cases h with
  | still h still => simp [still] at hready
  | stop h stop =>
      exact Setting.notified_of_stop h.sound (h.balanced spares u) h.sound.turn stop hplace hready

theorem Pauses.settled (spares : s.sparesTokens = true) (h : s.Pauses k past M) {u : ThreadId}
    (live : M.isResumable u = true) : M.Settled u := by
  have hb := h.reaches.balanced spares u
  have hs := h.reaches.sound
  cases hp : M.place? u with
  | none =>
      obtain ⟨hn, hnone⟩ := hb.elsewhere hp
      exact .elsewhere hp hn hnone
  | some p =>
      by_cases hready : u ∈ M.ready
      · have hn := h.notified spares (by simp [hp]) hready
        exact .woken hp hready hn (hb.woken p hp hn).2
      · have hparked := Machine.parked_of_waiting (sparesTokens_setting spares) hs.orderly hs.shaped
          hp hready
        have hn : (M.handle u).notified = false := by
          cases hw : (M.handle u).notified with
          | false => rfl
          | true => exact absurd (hb.woken p hp hw).1 hready
        obtain ⟨-, hother, -, hone⟩ := hb.waiting p hp hn
        exact .parked hp hready (by simp [hparked]) hn (hone live) hother

/-- **Entries and tokens stay in balance.**  When a step is over, or the thread that runs parks or
comes to the end of its list, every task that has not terminated is settled; and no thread passes
a suspension at a place before a wake has taken its entry out. -/
theorem tokens_balanced (spares : s.sparesTokens = true) (h : s.Reaches k past M) :
    (M.ready = [] → ∀ u, M.isResumable u = true → M.Settled u) ∧
      (∀ t, M.ready = t :: M.tick.ready →
        ∀ u, M.tick.isResumable u = true → M.tick.Settled u) ∧
      ∀ t others v p code, M.ready = t :: others →
        (M.thread t).code = .suspend v (some p) :: code → (M.tick.thread t).code = code →
        (M.handle t).notified = true ∧ ∀ p', M.entries p' t = 0 := by
  refine ⟨fun still u => (Pauses.still h still).settled spares,
    fun t stop u => (Pauses.stop h stop).settled spares, ?_⟩
  intro t others v p code hready hcode hpass
  have hs := h.sound
  obtain rfl : v = t := (hcode ▸ (hs.shaped t).code).handle_of_suspend
  have hn := hs.turn.notified_of_pass hready hcode hpass
  exact ⟨hn, ((h.balanced spares v).woken p (Machine.place?_of_code hcode) hn).2⟩

theorem tokens_balanced_in_handover : (handover.after 2).ready = [] ∧
    (handover.after 2).isResumable 1 = true ∧ (handover.after 2).Settled 1 := by
  obtain ⟨past, h⟩ := handover.reaches_after (k := 2) (by decide) (by decide)
  exact ⟨by decide, by decide, (tokens_balanced (by decide) h).1 (by decide) 1 (by decide)⟩

end Scenario

end BlockingSync
