/-
Wakes as changes.

Every way to wake waiters is a row of changes that take out the earliest entry of one
list and resume its task, also the one that empties the list first.  What sets them
apart is how far they go: `wakeOne` ends with a task that could be resumed, or leaves
an empty list (`wakeOne_cases`).
-/
import BlockingSync.Proofs.Change

namespace BlockingSync.Machine

variable {α : Type} {M M' : Machine α} {t : ThreadId} {p : Place}

/-- The changes that wake waiters of a place. -/
abbrev Wakes (p : Place) (t : ThreadId) (M M' : Machine α) : Prop :=
  Changes (· = .wake p) t M M'

theorem tryResume_of_resumable {h : HandleId} (live : M.isResumable h = true) :
    M.tryResume h = (M.roused h, true) := by
  simp [tryResume, resume?_of_resumable h live]

theorem tryResume_of_not_resumable {h : HandleId} (dead : M.isResumable h = false) :
    M.tryResume h = (M.note (.skipped h), false) := by
  simp [tryResume, resume?_of_not_resumable h dead]

/-- Taking out the earliest entry and resuming its task is a change. -/
theorem tryResume_change (t : ThreadId) {h : HandleId} {rest : WaitList HandleId}
    (hs : (M.waiters p).toList = h :: rest.toList) :
    Change t M (.wake p) ((M.setWaiters p rest).tryResume h).1 := by
  cases live : M.isResumable h with
  | true =>
      rw [tryResume_of_resumable (by simpa using live)]
      exact .rouse hs live
  | false =>
      rw [tryResume_of_not_resumable (by simpa using live)]
      exact .skip hs live

/-! ### Waking one waiter -/

/-- The last part of a wake that found a task to resume. -/
def Rouses (p : Place) (N M' : Machine α) (h : HandleId) : Prop :=
  ∃ rest, (N.waiters p).toList = h :: rest.toList ∧ N.isResumable h = true ∧
    M' = (N.setWaiters p rest).roused h

theorem Rouses.change (t : ThreadId) {h : HandleId} (hr : Rouses p M M' h) :
    Change t M (.wake p) M' := by
  obtain ⟨rest, hs, live, rfl⟩ := hr
  exact .rouse hs live

/-- Induction along a wake: nobody waits, or the earliest waiter can be resumed, or it is passed
over and the wake goes on behind it. -/
theorem wakeOneOf_induct {C : Machine α → Machine α × Option HandleId → Prop}
    (nobody : ∀ M, (M.waiters p).toList = [] → C M (M, none))
    (found : ∀ M h rest, (M.waiters p).toList = h :: rest.toList → M.isResumable h = true →
      C M ((M.setWaiters p rest).roused h, some h))
    (passed : ∀ M h rest M', (M.waiters p).toList = h :: rest.toList → M.isResumable h = false →
      C ((M.setWaiters p rest).note (.skipped h)) M' → C M M')
    (count : Nat) (M : Machine α) (hcount : (M.waiters p).length ≤ count) :
    C M (wakeOneOf p count M) := by
  induction count generalizing M with
  | zero =>
      refine nobody M ?_
      rw [← List.length_eq_zero_iff, WaitList.length_toList]
      omega
  | succ count ih =>
      unfold wakeOneOf
      cases hs : (M.waiters p).shift? with
      | none => exact nobody M ((WaitList.shift?_eq_none_iff _).1 hs)
      | some entry =>
          obtain ⟨h, rest⟩ := entry
          have hlist : (M.waiters p).toList = h :: rest.toList := WaitList.toList_of_shift? hs
          have hsame := isResumable_setWaiters (M := M) p rest h
          cases live : M.isResumable h with
          | true =>
              simp only [tryResume_of_resumable (hsame.trans live)]
              exact found M h rest hlist live
          | false =>
              simp only [tryResume_of_not_resumable (hsame.trans live)]
              refine passed M h rest _ hlist live (ih _ ?_)
              have := congrArg List.length hlist
              simp only [WaitList.length_toList, List.length_cons] at this
              simp only [waiters_note, waiters_setWaiters_self]
              omega

theorem wakeOne_induct {C : Machine α → Machine α × Option HandleId → Prop}
    (nobody : ∀ M, (M.waiters p).toList = [] → C M (M, none))
    (found : ∀ M h rest, (M.waiters p).toList = h :: rest.toList → M.isResumable h = true →
      C M ((M.setWaiters p rest).roused h, some h))
    (passed : ∀ M h rest M', (M.waiters p).toList = h :: rest.toList → M.isResumable h = false →
      C ((M.setWaiters p rest).note (.skipped h)) M' → C M M')
    (M : Machine α) : C M (M.wakeOne p) :=
  wakeOneOf_induct nobody found passed _ M (Nat.le_refl _)

/-- What a wake that passes over a waiter leaves as it was. -/
theorem isResumable_passed (p : Place) (rest : WaitList HandleId) (h : HandleId) :
    ((M.setWaiters p rest).note (.skipped h)).isResumable = M.isResumable := by
  funext u
  simp

/-- Nobody is left on the list, or the last change resumed a task. -/
theorem wakeOne_cases (t : ThreadId) (M : Machine α) (p : Place) :
    Wakes p t M (M.wakeOne p).1 ∧ ((M.wakeOne p).1.waiters p).toList = [] ∨
      ∃ N h, Wakes p t M N ∧ Rouses p N (M.wakeOne p).1 h := by
  refine wakeOne_induct (C := fun M M' => Wakes p t M M'.1 ∧ (M'.1.waiters p).toList = [] ∨
    ∃ N h, Wakes p t M N ∧ Rouses p N M'.1 h) ?_ ?_ ?_ M
  · exact fun M hnil => .inl ⟨.refl, hnil⟩
  · exact fun M h rest hlist live => .inr ⟨M, h, .refl, rest, hlist, live, rfl⟩
  · intro M h rest M' hlist dead ih
    have hskip : Wakes p t M ((M.setWaiters p rest).note (.skipped h)) :=
      .single rfl (.skip hlist dead)
    rcases ih with ⟨hw, hnil⟩ | ⟨N, u, hw, hr⟩
    · exact .inl ⟨hskip.trans hw, hnil⟩
    · exact .inr ⟨N, u, hskip.trans hw, hr⟩

theorem wakeOne_wakes (t : ThreadId) (M : Machine α) (p : Place) :
    Wakes p t M (M.wakeOne p).1 := by
  rcases wakeOne_cases t M p with ⟨hw, -⟩ | ⟨N, h, hw, hr⟩
  · exact hw
  · exact .step hw rfl (hr.change t)

/-! ### Waking several -/

/-- Wakes leave a suffix of the list. -/
theorem Wakes.suffix (h : Wakes p t M M') : (M'.waiters p).toList <:+ (M.waiters p).toList := by
  induction h with
  | refl => exact List.suffix_refl _
  | @step N N' e _ he last ih =>
      subst he
      refine List.IsSuffix.trans ?_ ih
      cases last with
      | relist hs => simp [hs]
      | skip hs => simp [hs]
      | rouse hs => simp [hs]

theorem length_wakeOne (M : Machine α) (p : Place) :
    ((M.wakeOne p).1.waiters p).toList.length ≤ (M.waiters p).toList.length - 1 := by
  rcases wakeOne_cases 0 M p with ⟨-, hnil⟩ | ⟨N, h, hw, rest, hlist, -, hM'⟩
  · simp [hnil]
  · have hle := (Wakes.suffix hw).length_le
    rw [hM', waiters_roused, waiters_setWaiters_self]
    rw [hlist, List.length_cons] at hle
    omega

theorem wakeTimes_wakes (t : ThreadId) (p : Place) (count : Nat) (M : Machine α) :
    Wakes p t M (wakeTimes p count M) := by
  induction count generalizing M with
  | zero => exact .refl
  | succ count ih => exact (wakeOne_wakes t M p).trans (ih _)

theorem length_wakeTimes (p : Place) (count : Nat) (M : Machine α) :
    ((wakeTimes p count M).waiters p).toList.length ≤ (M.waiters p).toList.length - count := by
  induction count generalizing M with
  | zero => exact Nat.le_refl _
  | succ count ih =>
      have h := ih (M.wakeOne p).1
      have := length_wakeOne M p
      unfold wakeTimes
      omega

/-- A bound that every wake lowers by one has been lowered to zero, unless nobody is left. -/
theorem wakeMany_lowers {I : Nat → Machine α → Prop} (p : Place)
    (hstep : ∀ k N, I (k + 1) N → I k (N.wakeOne p).1) (count : Nat) (M : Machine α)
    (h : I count M) :
    ∃ k, I k (M.wakeMany p count) ∧ (k = 0 ∨ ((M.wakeMany p count).waiters p).toList = []) := by
  have lower : ∀ j k N, I (k + j) N → I k (wakeTimes p j N) := by
    intro j
    induction j with
    | zero => exact fun _ _ hI => hI
    | succ j ih => exact fun k N hI => ih k _ (hstep _ _ hI)
  refine ⟨count - min count (M.waiters p).length, lower _ _ _ ?_, ?_⟩
  · rwa [Nat.sub_add_cancel (Nat.min_le_left ..)]
  · rcases Nat.le_total count (M.waiters p).length with hle | hle
    · exact .inl (by omega)
    · right
      have := length_wakeTimes p (min count (M.waiters p).length) M
      rw [WaitList.length_toList (M.waiters p)] at this
      rw [← List.length_eq_zero_iff]
      show ((wakeTimes p (min count (M.waiters p).length) M).waiters p).toList.length = 0
      omega

/-! ### Waking all

All entries are taken out before the first task is resumed.  Since a resume does not look
at the lists, the state is the same as if they had been taken out one by one.
-/

theorem setWaiters_setWaiters (l l' : WaitList HandleId) :
    (M.setWaiters p l).setWaiters p l' = M.setWaiters p l' := by
  cases p <;> simp [setWaiters, setMutex, mutex]

theorem setWaiters_tryResume (h : HandleId) (l : WaitList HandleId) :
    (M.tryResume h).1.setWaiters p l = ((M.setWaiters p l).tryResume h).1 := by
  cases live : M.isResumable h with
  | true =>
      rw [tryResume_of_resumable live, tryResume_of_resumable (by simpa using live)]
      cases p <;> rfl
  | false =>
      rw [tryResume_of_not_resumable live, tryResume_of_not_resumable (by simpa using live)]
      cases p <;> rfl

theorem resumeAll_wakes (t : ThreadId) (limit : Nat) (l : WaitList HandleId) (M : Machine α)
    (hl : (M.waiters p).toList = l.toList) :
    Wakes p t M ((M.setWaiters p (l.drain limit).2).resumeAll (l.drain limit).1).1 := by
  induction limit generalizing l M with
  | zero => exact .single rfl (.relist hl)
  | succ limit ih =>
      unfold WaitList.drain
      cases hs : l.shift? with
      | none => exact .single rfl (.relist hl)
      | some entry =>
          obtain ⟨h, rest⟩ := entry
          have hlist : (M.waiters p).toList = h :: rest.toList := by
            rw [hl, WaitList.toList_of_shift? hs]
          have first : Wakes p t M ((M.setWaiters p rest).tryResume h).1 :=
            .single rfl (tryResume_change t hlist)
          have hrest : (((M.setWaiters p rest).tryResume h).1.waiters p).toList = rest.toList := by
            cases live : M.isResumable h with
            | true => rw [tryResume_of_resumable (by simpa using live)]; simp
            | false => rw [tryResume_of_not_resumable (by simpa using live)]; simp
          have others := ih rest ((M.setWaiters p rest).tryResume h).1 hrest
          rw [setWaiters_tryResume, setWaiters_setWaiters] at others
          exact first.trans others

theorem wakeAll_wakes (t : ThreadId) (M : Machine α) (p : Place) : Wakes p t M (M.wakeAll p).1 :=
  resumeAll_wakes t _ _ M rfl

end BlockingSync.Machine
