/-
The lists hold the tasks that wait, and no others.

As long as tokens are left to the primitives, whoever is on a list waits at that place, and
is there once.  So the counts and audits of a primitive speak of the tasks blocked on it,
and no wake is spent on a task that is elsewhere.

A task that is resumed by somebody else while it waits for a mutex tries again and puts
itself on the list once more, but nobody takes its old entry out; the entry is still
there when the task is long gone (`startled`).
-/
import Mathlib.Data.List.Nodup
import BlockingSync.Proofs.Selection
import BlockingSync.Proofs.Reach

namespace BlockingSync

variable {α : Type}

namespace Machine

variable {M : Machine α} {p : Place}

/-- The places whose waiters an audit of an object counts. -/
def placesOf (M : Machine α) : Object → List Place
  | .mutex m | .wrapped m | .minimal m => [.mutex m]
  | .condition c => [.condition c]
  | .queue q =>
    let s := M.queue q
    [.mutex s.mutex, .condition s.valueAvailable, .condition s.spaceAvailable]
  | .adapter _ | .task _ | .tasks _ => []

/-- The threads that wait at a place. -/
def blockedAt (M : Machine α) (p : Place) : List ThreadId :=
  (List.range M.threads.size).filter fun u => M.place? u = some p

theorem mem_blockedAt {u : ThreadId} : u ∈ M.blockedAt p ↔ M.place? u = some p := by
  unfold blockedAt
  rw [List.mem_filter, List.mem_range, decide_eq_true_iff]
  constructor
  · exact fun h => h.2
  · intro hplace
    obtain ⟨v, code, hcode⟩ := code_of_place? hplace
    refine ⟨?_, hplace⟩
    by_contra hlt
    have hnil : (M.thread u).code = [] := by
      have hnone : M.threads.cells[u]? = none := List.getElem?_eq_none (Nat.not_lt.1 hlt)
      simp only [thread, Table.get, List.getD_eq_getElem?_getD, hnone, Option.getD_none]
      rfl
    rw [hnil] at hcode
    cases hcode

theorem leakOf_eq_none_iff (kind : PrimitiveKind) (count : Nat) :
    leakOf kind count = none ↔ count = 0 := by
  unfold leakOf
  split <;> simp_all

/-- An audit finds nothing if no task on a list can be resumed. -/
theorem auditObject_eq_none_iff (o : Object) : M.auditObject o = none ↔
    ∀ p ∈ M.placesOf o, M.survivors (M.waiters p) = 0 := by
  cases o with
  | mutex m | wrapped m | minimal m | condition c =>
      simp [auditObject, auditMutex, auditCondition, leakOf_eq_none_iff, placesOf]
  | queue q => simp [auditObject, auditQueue, leakOf_eq_none_iff, placesOf, and_assoc]
  | adapter | task | tasks => simp [auditObject, placesOf]

end Machine

namespace Scenario

open Machine

variable {s : Scenario} {k : Nat} {past : List (Entry Json)} {M : Machine Json}

/-- Whoever is on a list waits at that place, was not woken yet, and is there once. -/
theorem Reaches.of_mem_waiters (spares : s.sparesTokens = true) (h : s.Reaches k past M) {p : Place}
    {u : HandleId} (hu : u ∈ (M.waiters p).toList) :
    M.place? u = some p ∧ (M.handle u).notified = false ∧ M.entries p u = 1 :=
  (h.balanced spares u).of_mem hu

theorem Reaches.nodup_waiters (spares : s.sparesTokens = true) (h : s.Reaches k past M)
    (p : Place) : (M.waiters p).toList.Nodup := by
  rw [List.nodup_iff_count_le_one]
  intro u
  by_cases hu : u ∈ (M.waiters p).toList
  · exact Nat.le_of_eq (h.of_mem_waiters spares hu).2.2
  · rw [List.count_eq_zero_of_not_mem hu]
    omega

/-- The tasks on a list are the threads that wait there, without those that have terminated and
were passed over. -/
theorem Reaches.waiters_perm (spares : s.sparesTokens = true) (h : s.Reaches k past M) (p : Place) :
    (M.waiters p).toList.Perm ((M.blockedAt p).filter ((M.waiters p).toList.contains ·)) := by
  have hnodup : (M.blockedAt p).Nodup := List.nodup_range.filter _
  rw [List.perm_ext_iff_of_nodup (h.nodup_waiters spares p) (hnodup.filter _)]
  intro u
  simp only [List.mem_filter, mem_blockedAt, List.contains_iff_mem]
  exact ⟨fun hu => ⟨(h.of_mem_waiters spares hu).1, hu⟩, fun hu => hu.2⟩

/-- The tasks on a list that can be resumed are the blocked ones that can. -/
theorem Reaches.resumable_perm (spares : s.sparesTokens = true) (h : s.Reaches k past M)
    (still : M.ready = []) (p : Place) :
    ((M.waiters p).toList.filter M.isResumable).Perm ((M.blockedAt p).filter M.isResumable) := by
  have hnodup : (M.blockedAt p).Nodup := List.nodup_range.filter _
  rw [List.perm_ext_iff_of_nodup ((h.nodup_waiters spares p).filter _) (hnodup.filter _)]
  intro u
  simp only [List.mem_filter, mem_blockedAt]
  constructor
  · exact fun hu => ⟨(h.of_mem_waiters spares hu.1).1, hu.2⟩
  · exact fun hu => ⟨h.mem_waiters spares still hu.1 hu.2, hu.2⟩

/-- **While tokens are left to the primitives, the lists hold exactly the tasks that wait.**  When a
step is over, each task on a list is blocked there, the length of the list is the number of blocked
tasks that were not passed over, and an audit finds nothing exactly if no task that is blocked
there can be resumed.  At any moment, a wake goes to a task that waits at that place. -/
theorem waiters_are_blocked (spares : s.sparesTokens = true) (h : s.Reaches k past M) :
    (M.ready = [] →
      (∀ p, ∀ u ∈ (M.waiters p).toList, u ∈ M.blockedAt p) ∧
        (∀ p, (M.waiters p).length =
          ((M.blockedAt p).filter ((M.waiters p).toList.contains ·)).length) ∧
        (∀ p, M.survivors (M.waiters p) = ((M.blockedAt p).filter M.isResumable).length) ∧
        ∀ o, M.auditObject o = none ↔
          ∀ p ∈ M.placesOf o, ∀ u ∈ M.blockedAt p, M.isResumable u = false) ∧
      (∀ p u, (M.wakeOne p).2 = some u → M.place? u = some p ∧ (M.handle u).notified = false) ∧
      ∀ m u, ((M.setOwner m none).wakeOne (.mutex m)).2 = some u →
        M.place? u = some (.mutex m) ∧ (M.handle u).notified = false := by
  have woken : ∀ p u, (M.waiters p).toList.find? M.isResumable = some u →
      M.place? u = some p ∧ (M.handle u).notified = false := by
    intro p u hu
    obtain ⟨hplace, hn, -⟩ := h.of_mem_waiters spares (List.mem_of_find?_eq_some hu)
    exact ⟨hplace, hn⟩
  refine ⟨fun still => ⟨?_, ?_, ?_, ?_⟩, ?_, ?_⟩
  · intro p u hu
    exact mem_blockedAt.2 (h.of_mem_waiters spares hu).1
  · intro p
    rw [← WaitList.length_toList]
    exact (h.waiters_perm spares p).length_eq
  · intro p
    exact (h.resumable_perm spares still p).length_eq
  · intro o
    rw [auditObject_eq_none_iff]
    refine forall₂_congr fun p _ => ?_
    rw [survivors, (h.resumable_perm spares still p).length_eq]
    simp [List.filter_eq_nil_iff]
  · intro p u hu
    rw [wakeOne_selects] at hu
    exact woken p u hu
  · intro m u hu
    rw [wakeOne_selects, waiters_setOwner] at hu
    exact woken (.mutex m) u hu

theorem waiters_are_blocked_in_handover :
    ((handover.after 2).waiters (.mutex 0)).length = 1 ∧
      (handover.after 2).auditObject (.mutex 0) ≠ none := by
  obtain ⟨past, h⟩ := handover.reaches_after (k := 2) (by decide) (by decide)
  obtain ⟨-, hlength, -, haudit⟩ := (waiters_are_blocked (by decide) h).1 (by decide)
  have hblocked : (handover.after 2).blockedAt (.mutex 0) = [1] := by decide
  refine ⟨(hlength (.mutex 0)).trans (by decide), fun hnone => ?_⟩
  have hdead := (haudit (.mutex 0)).1 hnone (.mutex 0) (by decide) 1 (by decide)
  exact absurd hdead (by decide)

/-- A task is resumed by somebody else while it waits for a mutex. -/
def startled : Scenario where
  tasks := ["a", "b"]
  objects := [("m", .mutex {})]
  steps := [("a", .run [.onObject "m" .lock]), ("b", .run [.onObject "m" .lock]),
    ("a", .run [.onTask "b" .resume]),
    ("a", .run [.onObject "m" .numWaiting, .onObject "m" .unlock]),
    ("b", .run [.onObject "m" .numWaiting, .onObject "m" .audit, .drop "m"])]

/-- **An entry can outlast the wait.**  In the end nobody waits for the mutex and nobody could, but
the list still holds the task that was resumed, and an audit takes it for a lost wake. -/
theorem entry_outlasts_wait : (∃ past, startled.Reaches 4 past (startled.after 4)) ∧
    (startled.after 4).ready = [] ∧ (startled.after 4).blockedAt (.mutex 0) = [] ∧
    ((startled.after 4).waiters (.mutex 0)).toList = [1] ∧
    (startled.after 4).auditObject (.mutex 0) = some ⟨.mutex, 1⟩ :=
  ⟨startled.reaches_after (by decide) (by decide), by decide, by decide, by decide, by decide⟩

end Scenario

end BlockingSync
