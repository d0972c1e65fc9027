/-
Whom a wake selects.

Waking one takes entries out up to the first that can be resumed; waking all takes out
every entry.  As long as tokens are left to the primitives, each entry belongs to a
thread that is parked on its own handle, so those that a wake resumes become ready in the
order of their entries (`Midway.wakes`).
-/
import BlockingSync.Proofs.Balance

namespace BlockingSync

variable {α : Type}

namespace Machine

variable {M M' : Machine α} {t : ThreadId} {p : Place}

/-- The entries that are left behind the first that can be resumed. -/
def afterFirst (M : Machine α) (l : List HandleId) : List HandleId :=
  (l.dropWhile fun h => !M.isResumable h).tail

theorem wakeOne_takes (M : Machine α) (p : Place) :
    (M.wakeOne p).2 = (M.waiters p).toList.find? M.isResumable ∧
      ((M.wakeOne p).1.waiters p).toList = M.afterFirst (M.waiters p).toList := by
  refine wakeOne_induct (C := fun M M' => M'.2 = (M.waiters p).toList.find? M.isResumable ∧
    (M'.1.waiters p).toList = M.afterFirst (M.waiters p).toList) ?_ ?_ ?_ M
  · intro M hnil
    simp [hnil, afterFirst]
  · intro M h rest hlist live
    simp [hlist, live, afterFirst]
  · rintro M h rest M' hlist dead ⟨hfound, hrest⟩
    rw [hfound, hrest, afterFirst, isResumable_passed, hlist]
    simp [afterFirst, dead]

/-- A wake resumes the earliest waiter that can be resumed. -/
theorem wakeOne_selects (M : Machine α) (p : Place) :
    (M.wakeOne p).2 = (M.waiters p).toList.find? M.isResumable :=
  (wakeOne_takes M p).1

/-- The waiter that is resumed is taken out, and those before it. -/
theorem waiters_wakeOne (M : Machine α) (p : Place) :
    ((M.wakeOne p).1.waiters p).toList = M.afterFirst (M.waiters p).toList :=
  (wakeOne_takes M p).2

theorem waiters_resumeAll (M : Machine α) (hs : List HandleId) (p : Place) :
    (M.resumeAll hs).1.waiters p = M.waiters p := by
  induction hs generalizing M with
  | nil => rfl
  | cons h hs ih =>
      show (((M.tryResume h).1.resumeAll hs).1).waiters p = M.waiters p
      rw [ih]
      cases live : M.isResumable h with
      | true => rw [tryResume_of_resumable live, waiters_roused]
      | false => rw [tryResume_of_not_resumable live, waiters_note]

/-- Waking all leaves nobody. -/
theorem waiters_wakeAll (M : Machine α) (p : Place) : ((M.wakeAll p).1.waiters p).toList = [] := by
  show (((M.setWaiters p (M.waiters p).drainAll.2).resumeAll _).1.waiters p).toList = []
  rw [waiters_resumeAll, waiters_setWaiters_self]
  exact WaitList.toList_drainAll _

end Machine

namespace Setting

open Machine

variable {S : Setting α} {M M' : Machine α} {t : ThreadId} {p : Place} {at? : Option Place}

/-- **Those that a wake resumes become ready in the order of their entries.** -/
theorem Midway.wakes (spares : S.SparesTokens) (h : S.Midway t at? M) (hp : at? ≠ some p)
    (hw : Wakes p t M M') : ∃ taken, (M.waiters p).toList = taken ++ (M'.waiters p).toList ∧
      M'.ready = M.ready ++ taken.filter M.isResumable ∧ M'.isResumable = M.isResumable := by
  induction hw with
  | refl => exact ⟨[], by simp, by simp, rfl⟩
  | @step N N' e before he last ih =>
      subst he
      obtain ⟨taken, hlist, hready, hlive⟩ := ih
      have hN : S.Midway t at? N := h.changes spares before (by rintro e rfl; exact hp)
      cases last with
      | @relist _ l hs =>
          refine ⟨taken, ?_, ?_, ?_⟩
          · rw [waiters_setWaiters_self, ← hs]
            exact hlist
          · rw [ready_setWaiters]
            exact hready
          · funext u
            rw [isResumable_setWaiters, hlive]
      | @skip _ v rest hs dead =>
          refine ⟨taken ++ [v], ?_, ?_, ?_⟩
          · simp [hlist, hs]
          · show (N.setWaiters p rest).ready = _
            rw [ready_setWaiters, hready, List.filter_append, ← hlive]
            simp [dead]
          · funext u
            simp [hlive]
      | @rouse _ v rest hs live =>
          refine ⟨taken ++ [v], ?_, ?_, ?_⟩
          · simp [hlist, hs]
          · rw [(hN.rouse spares hp hs live).2, hready, List.filter_append, ← hlive]
            simp [live]
          · funext u
            simp [hlive]

end Setting

end BlockingSync
