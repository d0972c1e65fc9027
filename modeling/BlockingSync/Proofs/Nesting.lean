/-
Where the operations of a list end.

The code of a thread belongs to one operation of its list, and to those in the bodies of
that one.  The last instruction is the one that belongs to the operation itself, up to its
report; all before it belong to operations inside.  So once the thread is about to report
an operation of its list, it has nothing else left of it.
-/
import BlockingSync.Proofs.Deeds
import BlockingSync.Proofs.Reach

namespace BlockingSync

variable {α : Type}

/-- The path of the operation that an instruction belongs to. -/
def Instr.path? : Instr α → Option Path
  | .start path _ | .closeGuard _ path | .transact _ path _ | .report path _ => some path
  | _ => none

/-- Whether an instruction belongs to no operation of the list itself. -/
def Instr.IsDeep (i : Instr α) : Prop := ∀ path, i.path? = some path → 2 ≤ path.length

/-- Whether all instructions but the last belong to operations inside others. -/
def IsNested (code : List (Instr α)) : Prop := ∀ i ∈ code.dropLast, i.IsDeep

theorem isDeep_of_path? {i : Instr α} (h : i.path? = none) : i.IsDeep := by
  intro path hpath
  rw [h] at hpath
  cases hpath

/-- The instruction at the front makes way for others. -/
theorem IsNested.replace {i : Instr α} {more code : List (Instr α)} (h : IsNested (i :: code))
    (hmore : ∀ j ∈ more.dropLast, j.IsDeep) (hlast : i.IsDeep → ∀ j ∈ more, j.IsDeep) :
    IsNested (more ++ code) := by
  cases code with
  | nil =>
      rw [List.append_nil]
      exact hmore
  | cons first code =>
      intro j hj
      rw [List.dropLast_append_of_ne_nil (by simp)] at hj
      rcases List.mem_append.1 hj with hj | hj
      · exact hlast (h i (by simp)) j hj
      · exact h j (by simpa using .inr hj)

theorem IsNested.tail {i : Instr α} {code : List (Instr α)} (h : IsNested (i :: code)) :
    IsNested code := by
  have hnone : IsNested ([] ++ code) := h.replace (by simp) (by simp)
  exact hnone

theorem path?_of_mem_cleanup {code : List (Instr α)} {i : Instr α}
    (hi : i ∈ Machine.cleanup code) : i.path? = none := by
  induction code with
  | nil => simp [Machine.cleanup] at hi
  | cons first code ih =>
      cases first with
      | unlock m | closeGuard m path =>
          rcases List.mem_cons.1 hi with rfl | hi
          · rfl
          · exact ih hi
      | _ => exact ih hi

theorem Op.ne_nil_of_find? {ops : List (Op α)} {path : Path} {op : Op α}
    (h : Op.find? ops path = some op) : path ≠ [] := by
  intro hnil
  subst hnil
  simp [Op.find?] at h

/-- The operations of a body lie deeper than the operation around it. -/
theorem isDeep_of_mem_startBody {path : Path} {body : List (Op α)} (hpath : path ≠ [])
    {i : Instr α} (hi : i ∈ Machine.startBody path body) : i.IsDeep := by
  obtain ⟨k, hk, rfl⟩ := List.mem_mapIdx.1 hi
  intro path' hpath'
  obtain rfl := Option.some.inj hpath'
  have := List.length_pos_iff.2 hpath
  simp
  omega

/-- Whether code belongs to the operation at a path with its last instruction at most, and to
operations inside it with the others. -/
def LeadsTo (path : Path) (more : List (Instr α)) : Prop :=
  (∀ j ∈ more.dropLast, j.IsDeep) ∧ ∀ j ∈ more, j.IsDeep ∨ j.path? = some path

theorem IsNested.append {i : Instr α} {path : Path} {more code : List (Instr α)}
    (h : IsNested (i :: code)) (hi : i.path? = some path) (hmore : LeadsTo path more) :
    IsNested (more ++ code) := by
  refine h.replace hmore.1 fun hdeep j hj => ?_
  rcases hmore.2 j hj with hj | hj
  · exact hj
  · intro path' hpath'
    obtain rfl := Option.some.inj (hj.symm.trans hpath')
    exact hdeep path hi

namespace Machine

variable {M M' : Machine α} {t : ThreadId} {path : Path} {op : Op α} {more : List (Instr α)}

theorem leadsTo_body {body : List (Op α)} {m : MutexId} {last : Instr α} (hpath : path ≠ [])
    (inner : List (Instr α)) (hinner : ∀ j ∈ inner, j.path? = none)
    (hlast : last.path? = some path) :
    LeadsTo path (.lock m :: startBody path body ++ (inner ++ [last])) := by
  have hdeep : ∀ j ∈ Instr.lock m :: startBody path body ++ inner, j.IsDeep := by
    intro j hj
    rcases List.mem_append.1 hj with hj | hj
    · rcases List.mem_cons.1 hj with rfl | hj
      · exact isDeep_of_path? rfl
      · exact isDeep_of_mem_startBody hpath hj
    · exact isDeep_of_path? (hinner j hj)
  rw [← List.append_assoc]
  constructor
  · rw [List.dropLast_concat]
    exact hdeep
  · intro j hj
    rcases List.mem_append.1 hj with hj | hj
    · exact .inl (hdeep j hj)
    · rw [List.mem_singleton.1 hj]
      exact .inr hlast

theorem Does.leadsTo (hpath : path ≠ []) (h : M.Does t path op M' (.goOn more)) :
    LeadsTo path more := by
  have single : ∀ r, LeadsTo path ([.report path r] : List (Instr α)) := fun r => by
    simp [LeadsTo, Instr.path?]
  cases h with
  | aside _ hn =>
      cases hn with
      | answer => exact single _
      | seize | enter | told => simp [LeadsTo, Instr.IsDeep, Instr.path?]
  | claim | signal | broadcast => exact single _
  | give _ _ _ _ _ hn =>
      rcases hn with ⟨r, hn⟩ | ⟨message, hn⟩
      · obtain rfl := Next.goOn.inj hn
        exact single r
      · cases hn
  | take => simp [LeadsTo, Instr.IsDeep, Instr.path?]
  | synchronize => exact leadsTo_body hpath [.unlock _] (by simp [Instr.path?]) rfl
  | guard => exact leadsTo_body hpath [] (by simp) rfl
  | @wait _ _ _ _ l =>
      cases l <;> simp [LeadsTo, Instr.IsDeep, Instr.path?, acquire]

end Machine

namespace Setting

open Machine

variable {S : Setting α} {M M' : Machine α} {t u : ThreadId} {i : Instr α}
  {more code : List (Instr α)}

theorem Deed.nested (h : S.Deed M t i M' (.goOn more)) (hcode : IsNested (i :: code)) :
    IsNested (more ++ code) := by
  cases h with
  | start hop h => exact hcode.append rfl (h.leadsTo (Op.ne_nil_of_find? hop))
  | stroke hi h =>
      cases h with
      | start => exact absurd rfl (hi _ _)
      | claim | unlock | unlockFree | seize | pass | report => exact hcode.tail
      | queueUp =>
          exact hcode.replace (by simp [Instr.IsDeep, Instr.path?])
            (by simp [Instr.IsDeep, Instr.path?])
      | closeGuard | wait | transact =>
          exact hcode.append rfl (by simp [LeadsTo, Instr.IsDeep, Instr.path?])

/-- A tick keeps the code of every thread nested. -/
theorem nested_of_move (h : S.Sound M) (hnested : ∀ u, IsNested (M.thread u).code)
    (hmove : S.Move M M') (u : ThreadId) : IsNested (M'.thread u).code := by
  cases hmove with
  | still | finish => exact hnested u
  | @next t others i op pending hready hcode hpending =>
      rw [thread_setThread]
      split
      · intro j hj
        simp at hj
      · exact hnested u
  | @goOn t others i code N more hready hcode hdeed =>
      rw [hdeed.code h hcode]
      split
      · exact hdeed.nested (hcode ▸ hnested t)
      · exact hnested u
  | park hready hcode hstroke =>
      rw [(hstroke.halts hready hcode).thread]
      exact hnested u
  | @unwind t others path op code N message hready hcode hop hdoes =>
      rw [(Deed.start hop hdoes).code h hcode]
      split
      · intro j hj
        rw [List.dropLast_concat] at hj
        exact isDeep_of_path? (path?_of_mem_cleanup hj)
      · exact hnested u

end Setting

namespace Scenario

variable {s : Scenario} {k : Nat} {past : List (Entry Json)} {M : Machine Json}

theorem Reaches.nested (h : s.Reaches k past M) (u : ThreadId) : IsNested (M.thread u).code := by
  induction h generalizing u with
  | start =>
      rw [(s.start_new.fresh.idle u).1]
      intro i hi
      simp at hi
  | tick h ih => exact Setting.nested_of_move h.sound ih h.sound.move u
  | @order k past M name order t h still hstep ht idle ih =>
      cases order.ops? with
      | none =>
          show IsNested ((M.exit t).thread u).code
          rw [Machine.thread_exit]
          split
          · subst u
            exact ih t
          · exact ih u
      | some ops =>
          show IsNested (((M.give t k ops : Machine Json)).thread u).code
          rw [Machine.thread_give]
          split
          · intro i hi
            simp at hi
          · exact ih u
  | refuse _ _ _ _ ih => exact ih u

/-- **A thread that is about to report an operation of its list has nothing else left of it.** -/
theorem Reaches.eq_nil_of_report (h : s.Reaches k past M) {u : ThreadId} {i : Nat}
    {r : Result Json} {code : List (Instr Json)}
    (hcode : (M.thread u).code = .report [i] r :: code) : code = [] := by
  cases code with
  | nil => rfl
  | cons j code =>
      have hdeep := h.nested u (.report [i] r) (by simp [hcode])
      have := hdeep [i] rfl
      simp at this

end Scenario

end BlockingSync
